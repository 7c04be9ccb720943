import Stackwright.Proofs.Build.Accepted
import Stackwright.Proofs.Build.Image
import Stackwright.Proofs.Checking.Clean
import Stackwright.Proofs.Checking.Frames

/-! What code generation looks up in the tables of an analysis. The code of a program depends on nothing
else, and in a program that compiles every lookup finds what it needs, so none of the stand-ins for
missing entries ever gets into the code. -/

set_option autoImplicit false

namespace Stackwright

/-- Something that code generation needs to know. -/
inductive Lookup where
  /-- The type of an expression whose value is needed. -/
  | value (node : Nat)
  /-- What a name refers to that is declared, assigned to or used. -/
  | name (node : Nat)
  /-- What the callee of a call with so many arguments refers to. -/
  | callee (node : Nat) (arguments : Nat)
  /-- The storage of the program or of a function body. -/
  | storage (node : Nat)
  /-- Where a `return` goes. -/
  | exit (label : Option String)

namespace Lookup

/-- The lookup finds what it needs. -/
def Hits (analysis : Analysis) : Lookup → Prop
  | .value node => analysis.types[node]? = some .int ∨ analysis.types[node]? = some .bool
  | .name node => ∃ binding, analysis.bindings[node]? = some binding ∧ binding.isNull = false
  | .callee node arguments => ∃ binding signature, analysis.bindings[node]? = some binding ∧
      binding.isNull = false ∧ binding.ty.signature? = some signature ∧ signature.parameters.length = arguments
  | .storage node => ∃ scope, analysis.nodeScopes[node]? = some scope
  | .exit label => ∃ name, label = some name

/-- Two analyses give the same answer. -/
def Same (one other : Analysis) : Lookup → Prop
  | .value node => one.typeOf node = other.typeOf node
  | .name node | .callee node _ => one.bindingOf node = other.bindingOf node
  | .storage node => one.sizeOf node = other.sizeOf node
  | .exit _ => True

end Lookup

mutual

/-- What is looked up for the code of an expression. -/
def Expr.lookups : Expr → List Lookup
  | .literal _ _ | .invalid _ => []
  | .named name => [.name name.node.id]
  | .binary _ left right _ => (left.lookups ++ [.value left.id]) ++ (right.lookups ++ [.value right.id])
  | .unary _ operand _ => operand.lookups ++ [.value operand.id]
  | .call callee arguments _ _ => .callee callee.node.id arguments.length :: Expr.lookupsAll arguments

def Expr.lookupsAll : List Expr → List Lookup
  | [] => []
  | first :: rest => (first.lookups ++ [.value first.id]) ++ Expr.lookupsAll rest

end

/-- What is looked up for the value of an expression. -/
def Expr.valueLookups (expr : Expr) : List Lookup := expr.lookups ++ [.value expr.id]

def PrintItem.lookups : PrintItem → List Lookup
  | .value expr => expr.valueLookups
  | .space _ | .newline _ => []

mutual

/-- What is looked up for the code of a statement in a function with the given end. A call for its effect
needs no type. -/
def Stmt.lookups (exit : Option String) : Stmt → List Lookup
  | .declare _ name value _ => .name name.node.id :: value.valueLookups
  | .assign target value _ => .name target.node.id :: value.valueLookups
  | .branch condition thenBlock none _ => condition.valueLookups ++ thenBlock.lookups exit
  | .branch condition thenBlock (some elseBlock) _ =>
    condition.valueLookups ++ (thenBlock.lookups exit ++ elseBlock.lookups exit)
  | .ret none _ => [.exit exit]
  | .ret (some value) _ => value.valueLookups ++ [.exit exit]
  | .call call _ => call.expr.lookups
  | .print items _ => items.flatMap PrintItem.lookups
  | .nested body => body.lookups exit
  | .invalid _ => []

def Block.lookups (exit : Option String) : Block → List Lookup
  | .mk statements _ => Stmt.lookupsAll exit statements

def Stmt.lookupsAll (exit : Option String) : List Stmt → List Lookup
  | [] => []
  | first :: rest => first.lookups exit ++ Stmt.lookupsAll exit rest

end

def Function.lookups (function : Function) : List Lookup :=
  .storage function.body.id :: function.body.lookups (some (Lowering.epilogueLabel function.name.text))

/-- What is looked up for the code of a program. -/
def Program.lookups (program : Program) : List Lookup :=
  .storage program.node.id :: (program.functions.map (fun function => .name function.name.node.id) ++
    (program.main.lookups none ++ program.functions.flatMap Function.lookups))

section Same

variable {one other : Analysis}

/-- Two analyses give the same answers to all of the lookups. -/
abbrev Alike (one other : Analysis) (lookups : List Lookup) : Prop := ∀ lookup ∈ lookups, lookup.Same one other

theorem Alike.value {lookups : List Lookup} {id : Nat} (alike : Alike one other (lookups ++ [.value id])) :
    Alike one other lookups ∧ one.typeOf id = other.typeOf id := by
  obtain ⟨inside, own⟩ := List.forall_mem_append.mp alike
  exact ⟨inside, own _ (List.mem_singleton.mpr rfl)⟩

namespace Lowering

mutual

theorem expression_congr : ∀ expr : Expr, Alike one other expr.lookups → expression one expr = expression other expr
  | .literal _ _, _ | .invalid _, _ => by rw [expression, expression]
  | .named name, alike => by
    rw [Expr.lookups] at alike
    have same : one.bindingOf name.node.id = other.bindingOf name.node.id := alike _ (List.mem_singleton.mpr rfl)
    rw [expression, expression, same]
  | .binary operator left right _, alike => by
    rw [Expr.lookups] at alike
    obtain ⟨ofLeft, ofRight⟩ := List.forall_mem_append.mp alike
    obtain ⟨ofLeft, leftType⟩ := Alike.value ofLeft
    obtain ⟨ofRight, rightType⟩ := Alike.value ofRight
    have left := expression_congr left ofLeft
    have right := expression_congr right ofRight
    -- The operator says which code comes around the operands, not what is looked up for them.
    cases operator <;> rw [expression, expression, left, right, leftType, rightType] <;> exact BinaryOperator.noConfusion
  | .unary .negate operand _, alike => by
    rw [Expr.lookups] at alike
    obtain ⟨inside, type⟩ := Alike.value alike
    rw [expression, expression, expression_congr operand inside, type]
  | .call callee arguments _ _, alike => by
    rw [Expr.lookups] at alike
    obtain ⟨ofCallee, ofArguments⟩ := List.forall_mem_cons.mp alike
    have same : one.bindingOf callee.node.id = other.bindingOf callee.node.id := ofCallee
    rw [expression, expression, same]
    cases (other.bindingOf callee.node.id).ty.signature? with
    | none => rfl
    | some signature =>
      simp only
      rw [pushArguments_congr arguments signature.parameters ofArguments]

theorem pushArguments_congr : ∀ (arguments : List Expr) (types : List Ty), Alike one other (Expr.lookupsAll arguments) →
    pushArguments one arguments types = pushArguments other arguments types
  | [], types, _ => by
    rw [pushArguments, pushArguments] <;> simp
  | _ :: _, [], _ => by
    rw [pushArguments, pushArguments] <;> simp
  | first :: rest, ty :: types, alike => by
    rw [Expr.lookupsAll] at alike
    obtain ⟨ofFirst, ofRest⟩ := List.forall_mem_append.mp alike
    obtain ⟨inside, type⟩ := Alike.value ofFirst
    rw [pushArguments, pushArguments, pushArguments_congr rest types ofRest, expression_congr first inside, type]

end

theorem value_congr {expr : Expr} (alike : Alike one other expr.valueLookups) : value one expr = value other expr := by
  obtain ⟨inside, type⟩ := Alike.value alike
  rw [value, value, expression_congr expr inside, type]

theorem isAddress_call (analysis : Analysis) (call : Call) (labeller : Labeller) :
    (expression analysis call.expr labeller).1.isAddress = false := by
  rw [Call.expr, expression]
  cases (analysis.bindingOf call.callee.node.id).ty.signature? <;> rfl

/-- A call leaves a value and no address, whatever its type. -/
theorem value_call_congr {call : Call} (alike : Alike one other call.expr.lookups) :
    value one call.expr = value other call.expr := by
  funext labeller
  rw [value, value, expression_congr call.expr alike]
  have none := isAddress_call other call labeller
  simp only [bind_apply, pure_apply, Fragment.valueCode, none]
  rfl

theorem store_congr {target : Name} {source : Expr}
    (alike : Alike one other (.name target.node.id :: source.valueLookups)) :
    store one target source = store other target source := by
  obtain ⟨ofTarget, ofSource⟩ := List.forall_mem_cons.mp alike
  have same : one.bindingOf target.node.id = other.bindingOf target.node.id := ofTarget
  rw [store, store, value_congr ofSource, same]

theorem printItems_congr {items : List PrintItem} (alike : Alike one other (items.flatMap PrintItem.lookups)) :
    printItems one items = printItems other items := by
  induction items with
  | nil => rfl
  | cons item rest ih =>
    rw [List.flatMap_cons] at alike
    obtain ⟨ofFirst, ofRest⟩ := List.forall_mem_append.mp alike
    simp only [printItems]
    rw [ih ofRest]
    cases item with
    | space | newline => rfl
    | value expr =>
      simp only
      rw [printValue, printValue, value_congr ofFirst, (Alike.value ofFirst).2]

mutual

theorem statement_congr (exit : Option String) : ∀ stmt : Stmt, Alike one other (stmt.lookups exit) →
    statement one exit stmt = statement other exit stmt
  | .declare _ _ _ _, alike | .assign _ _ _, alike => by
    rw [Stmt.lookups] at alike
    rw [statement, statement]
    exact store_congr alike
  | .branch condition thenBlock none _, alike => by
    rw [Stmt.lookups] at alike
    obtain ⟨ofCondition, ofThen⟩ := List.forall_mem_append.mp alike
    rw [statement, statement, value_congr ofCondition, block_congr exit thenBlock ofThen]
  | .branch condition thenBlock (some elseBlock) _, alike => by
    rw [Stmt.lookups] at alike
    obtain ⟨ofCondition, ofBlocks⟩ := List.forall_mem_append.mp alike
    obtain ⟨ofThen, ofElse⟩ := List.forall_mem_append.mp ofBlocks
    rw [statement, statement, value_congr ofCondition, block_congr exit thenBlock ofThen]
    simp only
    rw [block_congr exit elseBlock ofElse]
  | .ret none _, _ => by rw [statement, statement]
  | .ret (some value) _, alike => by
    rw [Stmt.lookups] at alike
    rw [statement, statement]
    simp only
    rw [value_congr (List.forall_mem_append.mp alike).1]
  | .call call _, alike => by
    rw [Stmt.lookups] at alike
    rw [statement, statement, value_call_congr alike]
  | .print items _, alike => by
    rw [Stmt.lookups] at alike
    rw [statement, statement, printItems_congr alike]
  | .nested body, alike => by
    rw [Stmt.lookups] at alike
    rw [statement, statement, block_congr exit body alike]
  | .invalid _, _ => by rw [statement, statement]

theorem block_congr (exit : Option String) : ∀ body : Block, Alike one other (body.lookups exit) →
    block one exit body = block other exit body
  | .mk body _, alike => by
    rw [Block.lookups] at alike
    rw [block, block, statements_congr exit body alike]

theorem statements_congr (exit : Option String) : ∀ body : List Stmt, Alike one other (Stmt.lookupsAll exit body) →
    statements one exit body = statements other exit body
  | [], _ => by rw [statements, statements]
  | first :: rest, alike => by
    rw [Stmt.lookupsAll] at alike
    obtain ⟨ofFirst, ofRest⟩ := List.forall_mem_append.mp alike
    rw [statements, statements, statement_congr exit first ofFirst, statements_congr exit rest ofRest]

end

theorem functions_congr {list : List Function} (alike : Alike one other (list.flatMap Function.lookups)) :
    functions one list = functions other list := by
  induction list with
  | nil => rfl
  | cons first rest ih =>
    rw [List.flatMap_cons] at alike
    obtain ⟨ofFirst, ofRest⟩ := List.forall_mem_append.mp alike
    obtain ⟨ofStorage, ofBody⟩ := List.forall_mem_cons.mp ofFirst
    have size : one.sizeOf first.body.id = other.sizeOf first.body.id := ofStorage
    rw [functions, functions, ih ofRest, function, function, size, block_congr _ first.body ofBody]

theorem storeAddress_congr {list : List Function}
    (alike : Alike one other (list.map fun function => .name function.name.node.id)) :
    list.flatMap (storeAddress one) = list.flatMap (storeAddress other) := by
  induction list with
  | nil => rfl
  | cons first rest ih =>
    rw [List.map_cons] at alike
    obtain ⟨ofFirst, ofRest⟩ := List.forall_mem_cons.mp alike
    have same : one.bindingOf first.name.node.id = other.bindingOf first.name.node.id := ofFirst
    rw [List.flatMap_cons, List.flatMap_cons, ih ofRest, storeAddress, storeAddress, same]

end Lowering

/-- The code of a program depends on nothing but the lookups. -/
theorem Program.generate_congr {program : Program} (alike : Alike one other program.lookups)
    (options : CompileOptions) : program.generate one options = program.generate other options := by
  obtain ⟨ofStorage, ofRest⟩ := List.forall_mem_cons.mp alike
  obtain ⟨ofNames, ofRest⟩ := List.forall_mem_append.mp ofRest
  obtain ⟨ofMain, ofFunctions⟩ := List.forall_mem_append.mp ofRest
  have size : one.sizeOf program.node.id = other.sizeOf program.node.id := ofStorage
  rw [Program.generate, Program.generate, Lowering.program, Lowering.program,
    Lowering.block_congr none program.main ofMain, Lowering.functions_congr ofFunctions,
    Lowering.storeAddress_congr ofNames, Lowering.globals, Lowering.globals, size]

end Same

/-- A binding of a name that can be used: it has storage and a type that a declared name can have, and
only variables can be assigned to. -/
structure Binding.Usable (binding : Binding) : Prop where
  declarable : binding.ty.Declarable
  stored : binding.isNull = false
  value : binding.isMutable = true → binding.ty.isValue = true

/-- Every visible name can be used. -/
def Nest.Usable (names : Nest Binding) : Prop := ∀ entry ∈ names.flatten, entry.2.Usable

section Hits

variable {analysis : Analysis} {names : Nest Binding}

theorem Nest.Usable.find {name : String} {binding : Binding} (usable : names.Usable)
    (found : names.find? name = some binding) : binding.Usable := by
  obtain ⟨block, outer, member⟩ := Nest.mem_of_find? found
  exact usable _ (List.mem_flatten.mpr ⟨block, outer, member⟩)

theorem Nest.Usable.declare {name : String} {binding : Binding} (usable : names.Usable) (also : binding.Usable) :
    (names.declare name binding).Usable := by
  intro entry member
  rcases Nest.mem_flatten_declare.mp member with rfl | member
  · exact also
  · exact usable entry member

theorem Binding.isNull_eq_false {binding : Binding} (stored : binding.location.base ≠ .null) : binding.isNull = false := by
  rw [Binding.isNull, beq_eq_false_iff_ne]
  exact stored

/-- A binding with storage is no stand-in for a missing one. -/
theorem Analysis.bindings_of_bindingOf {node : Nat} {binding : Binding} (noted : analysis.bindingOf node = binding)
    (stored : binding.isNull = false) : analysis.bindings[node]? = some binding := by
  rw [Analysis.bindingOf] at noted
  cases found : analysis.bindings[node]? with
  | some other =>
    rw [found, Option.getD_some] at noted
    rw [noted]
  | none =>
    rw [found, Option.getD_none] at noted
    rw [← noted] at stored
    cases stored

theorem Lookup.hits_value {node : Nat} {ty : Ty} (typed : analysis.typeOf node = ty) (isValue : ty.isValue = true) :
    (Lookup.value node).Hits analysis := by
  rw [Analysis.typeOf] at typed
  cases found : analysis.types[node]? with
  | none =>
    rw [found, Option.getD_none] at typed
    rw [← typed] at isValue
    cases isValue
  | some other =>
    rw [found, Option.getD_some] at typed
    subst typed
    cases other with
    | int => exact .inl found
    | bool => exact .inr found
    | _ => cases isValue

theorem Lookup.hits_name {node : Nat} {binding : Binding} (noted : analysis.bindingOf node = binding)
    (stored : binding.isNull = false) : (Lookup.name node).Hits analysis :=
  ⟨binding, Analysis.bindings_of_bindingOf noted stored, stored⟩

/-- All of the lookups find what they need. -/
abbrev AllHit (analysis : Analysis) (lookups : List Lookup) : Prop := ∀ lookup ∈ lookups, lookup.Hits analysis

theorem AllHit.value {lookups : List Lookup} {node : Nat} {ty : Ty} (hit : AllHit analysis lookups)
    (typed : analysis.typeOf node = ty) (isValue : ty.isValue = true) :
    AllHit analysis (lookups ++ [.value node]) :=
  List.forall_mem_append.mpr ⟨hit, List.forall_mem_singleton.mpr (Lookup.hits_value typed isValue)⟩

theorem ResolvedAll.length_eq {exprs : List Expr} {types : List Ty} (resolved : ResolvedAll analysis names exprs types) :
    types.length = exprs.length := by
  induction types generalizing exprs with
  | nil =>
    cases resolved
    rfl
  | cons ty types ih =>
    cases resolved with
    | cons first rest => rw [List.length_cons, List.length_cons, ih rest]

mutual

theorem Resolved.hits {expr : Expr} {ty : Ty} (usable : names.Usable) :
    Resolved analysis names expr ty → AllHit analysis expr.lookups
  | .int _ | .bool _ => by
    rw [Expr.lookups]
    exact List.forall_mem_nil _
  | .named found noted _ => by
    rw [Expr.lookups]
    exact List.forall_mem_singleton.mpr (Lookup.hits_name noted (usable.find found).stored)
  | .arithmetic _ left right _ | .greater left right _ => by
    rw [Expr.lookups]
    exact List.forall_mem_append.mpr ⟨(left.hits usable).value left.typeOf_eq rfl,
      (right.hits usable).value right.typeOf_eq rfl⟩
  | .negate operand _ => by
    rw [Expr.lookups]
    exact (operand.hits usable).value operand.typeOf_eq rfl
  | @Resolved.call _ _ _ _ _ _ binding parameters result found callable noted arguments _ => by
    have callee := usable.find found
    -- A function that can be declared takes values only, so the type of every argument is one of them.
    have values := callee.declarable
    rw [callable] at values
    rw [Expr.lookups]
    refine List.forall_mem_cons.mpr ⟨?_, arguments.hits usable values.1⟩
    refine ⟨binding, ⟨parameters, result⟩, Analysis.bindings_of_bindingOf noted callee.stored, callee.stored, ?_, ?_⟩
    · rw [callable]
      rfl
    · exact arguments.length_eq

theorem ResolvedAll.hits {exprs : List Expr} {types : List Ty} (usable : names.Usable)
    (values : ∀ ty ∈ types, ty.isValue = true) :
    ResolvedAll analysis names exprs types → AllHit analysis (Expr.lookupsAll exprs)
  | .nil => by
    rw [Expr.lookupsAll]
    exact List.forall_mem_nil _
  | .cons first rest => by
    obtain ⟨isValue, others⟩ := List.forall_mem_cons.mp values
    rw [Expr.lookupsAll]
    exact List.forall_mem_append.mpr ⟨(first.hits usable).value first.typeOf_eq isValue, rest.hits usable others⟩

end

/-- The lookups for a value. -/
theorem Resolved.valueHits {expr : Expr} {ty : Ty} (usable : names.Usable) (resolved : Resolved analysis names expr ty)
    (isValue : ty.isValue = true) : AllHit analysis expr.valueLookups :=
  (resolved.hits usable).value resolved.typeOf_eq isValue

theorem PrintItem.Resolved.hits {item : PrintItem} (usable : names.Usable) (resolved : item.Resolved analysis names) :
    AllHit analysis item.lookups := by
  cases item with
  | value expr =>
    obtain ⟨ty, resolved, isValue⟩ := resolved
    exact resolved.valueHits usable isValue
  | space | newline => exact List.forall_mem_nil _

theorem Stmt.Placed.usable {area : Allocator} {result : Option Ty} {after : Nest Binding} {stmt : Stmt}
    (stored : area.base ≠ .null) (placed : Stmt.Placed analysis area result names stmt after) (usable : names.Usable) :
    after.Usable := by
  cases placed with
  | declare _ isValue _ _ _ covers _ =>
    exact usable.declare ⟨.of_isValue isValue, Binding.isNull_eq_false (covers.base ▸ stored), fun _ => isValue⟩
  | _ => exact usable

section Placed

variable {area : Allocator} {result : Option Ty} {exit : Option String} (stored : area.base ≠ .null)
  (leaves : ∀ ty, result = some ty → ∃ label, exit = some label)

include stored leaves

-- The members of a family share its hypotheses, also those that a member only hands on to the others.
set_option linter.unusedSectionVars false in
mutual

theorem Stmt.Placed.hits {names after : Nest Binding} {stmt : Stmt} (usable : names.Usable) :
    Stmt.Placed analysis area result names stmt after → AllHit analysis (stmt.lookups exit)
  | .declare resolved isValue _ _ noted covers _ => by
    rw [Stmt.lookups]
    have own := Lookup.hits_name noted (Binding.isNull_eq_false (covers.base ▸ stored))
    exact List.forall_mem_cons.mpr ⟨own, resolved.valueHits usable isValue⟩
  | .assign found isMutable noted resolved => by
    rw [Stmt.lookups]
    have target := usable.find found
    have own := Lookup.hits_name noted target.stored
    exact List.forall_mem_cons.mpr ⟨own, resolved.valueHits usable (target.value isMutable)⟩
  | .branch condition thenBlock => by
    rw [Stmt.lookups]
    exact List.forall_mem_append.mpr ⟨condition.valueHits usable rfl, thenBlock.hits usable⟩
  | .branchElse condition thenBlock elseBlock => by
    rw [Stmt.lookups]
    exact List.forall_mem_append.mpr ⟨condition.valueHits usable rfl,
      List.forall_mem_append.mpr ⟨thenBlock.hits usable, elseBlock.hits usable⟩⟩
  | .ret expected => by
    rw [Stmt.lookups]
    exact List.forall_mem_singleton.mpr (leaves _ expected)
  | .retValue resolved isValue expected => by
    rw [Stmt.lookups]
    exact List.forall_mem_append.mpr ⟨resolved.valueHits usable isValue,
      List.forall_mem_singleton.mpr (leaves _ expected)⟩
  | .call resolved => by
    rw [Stmt.lookups]
    exact resolved.hits usable
  | .print items => by
    rw [Stmt.lookups]
    intro lookup member
    obtain ⟨item, listed, inside⟩ := List.mem_flatMap.mp member
    exact (items item listed).hits usable lookup inside
  | .nested body => by
    rw [Stmt.lookups]
    exact body.hits usable

theorem Block.Placed.hits {names : Nest Binding} {block : Block} (usable : names.Usable) :
    Block.Placed analysis area result names block → AllHit analysis (block.lookups exit)
  | .mk statements => by
    rw [Block.lookups]
    have inside : Nest.Usable ([] :: names) := usable
    exact statements.hits inside

theorem Stmt.PlacedAll.hits {names after : Nest Binding} {statements : List Stmt} (usable : names.Usable) :
    Stmt.PlacedAll analysis area result names statements after → AllHit analysis (Stmt.lookupsAll exit statements)
  | .nil => by
    rw [Stmt.lookupsAll]
    exact List.forall_mem_nil _
  | .cons first rest => by
    rw [Stmt.lookupsAll]
    exact List.forall_mem_append.mpr ⟨first.hits usable, rest.hits (first.usable stored usable)⟩

end

end Placed

theorem usable_of_mem_cellsFrom {base : Base} {offset : Nat} {entries : List (String × Ty)} (stored : base ≠ .null)
    (declarable : ∀ entry ∈ entries, entry.2.Declarable) :
    ∀ cell ∈ cellsFrom base offset entries, cell.2.Usable := by
  intro cell member
  obtain ⟨same, _, _, declared⟩ := mem_cellsFrom member
  refine ⟨declarable _ declared, Binding.isNull_eq_false (same ▸ stored), fun isMutable => ?_⟩
  rw [isMutable_of_mem_cellsFrom member] at isMutable
  cases isMutable

theorem Function.usable_cells {functions : List Function} (legible : ∀ function ∈ functions, function.Legible) :
    ∀ cell ∈ Function.cells functions, cell.2.Usable := by
  refine usable_of_mem_cellsFrom Base.noConfusion fun entry member => ?_
  obtain ⟨function, declared, rfl⟩ := List.mem_map.mp member
  exact Checker.signature_declarable (legible function declared)

theorem Parameter.usable_cells {function : Function} (legible : function.Legible) :
    ∀ cell ∈ Parameter.cells function.parameters, cell.2.Usable := by
  refine usable_of_mem_cellsFrom Base.noConfusion fun entry member => ?_
  obtain ⟨parameter, declared, rfl⟩ := List.mem_map.mp member
  have proper := legible.parameters parameter declared
  rw [TypeMark.ty]
  cases kind : parameter.type.primitive with
  | void => exact absurd kind proper
  | int | bool => trivial

/-- Everything that is declared next to cells that can be used is found. -/
theorem Lookup.hits_of_cells {α : Type} {items : List α} {name : α → Name} {cells : List (String × Binding)}
    (noted : List.Forall₂ (fun item cell => analysis.bindingOf (name item).node.id = cell.2) items cells)
    (usable : ∀ cell ∈ cells, cell.2.Usable) : ∀ item ∈ items, (Lookup.name (name item).node.id).Hits analysis := by
  induction noted with
  | nil => exact List.forall_mem_nil _
  | cons first _ ih =>
    obtain ⟨here, others⟩ := List.forall_mem_cons.mp usable
    exact List.forall_mem_cons.mpr ⟨Lookup.hits_name first here.stored, ih others⟩

end Hits

section Program

open Checker

variable {program : Program} (legible : program.Legible) (distinct : program.ids.Nodup)
  (silent : program.analyze.diagnostics = [])

include legible distinct silent

theorem Program.parameters_hit : ∀ function ∈ program.functions, ∀ parameter ∈ function.parameters,
    (Lookup.name parameter.name.node.id).Hits program.analyze := by
  intro function member
  obtain ⟨known, reviewed⟩ := Program.exists_reviewed legible distinct silent function member
  exact Lookup.hits_of_cells (parameters_of_silent rfl reviewed.globals reviewed.silently).2.2
    (Parameter.usable_cells (legible.functions function member))

theorem Function.lookups_hit {function : Function} (member : function ∈ program.functions) :
    AllHit program.analyze function.lookups := by
  obtain ⟨known, reviewed⟩ := Program.exists_reviewed legible distinct silent function member
  obtain ⟨after, body⟩ := ((placed_of_analyze legible distinct silent).functions function member).body
  have visible : (function.visible program.functions).Usable := by
    intro entry inside
    simp only [Function.visible, List.flatten_cons, List.flatten_nil, List.append_nil, List.mem_append,
      List.mem_reverse] at inside
    rcases inside with parameter | cell
    · exact Parameter.usable_cells (legible.functions function member) entry parameter
    · exact Function.usable_cells legible.functions entry cell
  refine List.forall_mem_cons.mpr ⟨⟨_, reviewed.scope⟩, ?_⟩
  exact (Block.placed_of_statements body).hits Base.noConfusion (fun _ _ => ⟨_, rfl⟩) visible

/-- In a program about which nothing was reported, all lookups find what they need. -/
theorem Program.lookups_hit : AllHit program.analyze program.lookups := by
  have placed := placed_of_analyze legible distinct silent
  have storage : (Lookup.storage program.node.id).Hits program.analyze := by
    have fresh := (distinct_parts distinct).2.2.2
    have notes := (atFunctions_performs program).toNotes.append (final_notes program)
    exact ⟨0, (notes.same.nodeScopes fresh).trans Std.TreeMap.getElem?_insert_self⟩
  have cells := Function.usable_cells legible.functions
  have names := Lookup.hits_of_cells placed.cells cells
  have global : Nest.Usable [(Function.cells program.functions).reverse] := by
    intro entry inside
    rw [List.flatten_singleton, List.mem_reverse] at inside
    exact cells entry inside
  -- A `return` in the main block is reported, so none is left there.
  have main : AllHit program.analyze (program.main.lookups none) :=
    placed.main.hits Base.noConfusion (fun _ expected => by cases expected) global
  refine List.forall_mem_cons.mpr ⟨storage, List.forall_mem_append.mpr ⟨?_, List.forall_mem_append.mpr ⟨main, ?_⟩⟩⟩
  · intro lookup member
    obtain ⟨function, declared, rfl⟩ := List.mem_map.mp member
    exact names function declared
  · intro lookup member
    obtain ⟨function, declared, inside⟩ := List.mem_flatMap.mp member
    exact Function.lookups_hit legible distinct silent declared lookup inside

end Program

/-- Code generation never meets a missing or an erroneous entry. Whatever text a tree was read from, with
faults or without, nothing in it is of type `error` unless something was reported. And if the text compiles,
every lookup finds what it needs, every name is bound, and the code comes from the lookups alone. -/
theorem annotations_complete (source : String) :
    ((Program.read source).1.analyze.diagnostics = [] →
      ∀ node : Nat, (Program.read source).1.analyze.types[node]? ≠ some .error) ∧
    (∀ node : Nat, (Program.read source).1.analyze.types[node]? = some .error →
      (Program.read source).1.analyze.diagnostics ≠ [] ∨ (Program.read source).2 ≠ []) ∧
    ∀ (options : CompileOptions) (code : Code), compile source options = .ok code →
      ∃ program, Program.parse source = .ok program ∧ (∀ lookup ∈ program.lookups, lookup.Hits program.analyze) ∧
        (∀ function ∈ program.functions, ∀ parameter ∈ function.parameters,
          (Lookup.name parameter.name.node.id).Hits program.analyze) ∧
        ∀ other : Analysis, (∀ lookup ∈ program.lookups, lookup.Same other program.analyze) →
          program.generate other options = code := by
  have clean := Program.analyze_clean (Program.whole_of_read source)
  refine ⟨fun silent => (clean silent).types, fun node error => .inl fun silent => ?_, ?_⟩
  · exact (clean silent).types node error
  · intro options code accepted
    obtain ⟨program, parsed, silent, rfl⟩ := compile_eq_ok_iff.mp accepted
    obtain ⟨legible, ids⟩ := Program.legible_and_ids_of_parse parsed
    have distinct : program.ids.Nodup := ids ▸ List.nodup_range
    exact ⟨program, parsed, Program.lookups_hit legible distinct silent, Program.parameters_hit legible distinct silent,
      fun other alike => Program.generate_congr alike options⟩

/-- A program with names, a call and a `return` among its lookups. -/
def callingText : String :=
  "func int f(bool b) \x7b if (b) \x7b return 1; \x7d return 2; \x7d main \x7b mut x := f(2 > 1); x := -x; print x; \x7d"

theorem annotations_complete_calling :
    ∃ program, Program.parse callingText = .ok program ∧ program.lookups.length = 21 ∧
      ∀ lookup ∈ program.lookups, lookup.Hits program.analyze := by
  have read : ∃ program, Program.parse callingText = .ok program ∧
      (program.analyze.diagnostics, program.lookups.length) = ([], 21) :=
    Program.exists_parse_of_map (by decide +kernel)
  obtain ⟨program, parsed, found⟩ := read
  simp only [Prod.mk.injEq] at found
  obtain ⟨silent, count⟩ := found
  obtain ⟨_, _, compiled⟩ := annotations_complete callingText
  obtain ⟨other, parsed', hits, _⟩ := compiled {} _ (compile_eq_ok_iff.mpr ⟨program, parsed, silent, rfl⟩)
  cases parsed.symm.trans parsed'
  exact ⟨program, parsed, count, hits⟩

end Stackwright

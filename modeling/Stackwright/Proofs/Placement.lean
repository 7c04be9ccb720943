import Stackwright.Lowering.Expression
import Stackwright.Proofs.ReturnPaths
import Stackwright.Proofs.Scope.Cells

/-! Trees whose tables are right. The static rules once more, this time with what the analysis knows
about each node: the types and bindings that are noted are those of the rules, and each declared
variable gets storage apart from everything that is visible. -/

set_option autoImplicit false

namespace Stackwright

mutual

/-- How many variables a statement declares, those of its blocks included. -/
def Stmt.declarations : Stmt → Nat
  | .declare _ _ _ _ => 1
  | .branch _ thenBlock none _ => thenBlock.declarations
  | .branch _ thenBlock (some elseBlock) _ => thenBlock.declarations + elseBlock.declarations
  | .nested body => body.declarations
  | .assign _ _ _ | .ret _ _ | .call _ _ | .print _ _ | .invalid _ => 0

def Block.declarations : Block → Nat
  | .mk statements _ => Stmt.declarationsAll statements

def Stmt.declarationsAll : List Stmt → Nat
  | [] => 0
  | first :: rest => first.declarations + Stmt.declarationsAll rest

end

mutual

/-- An expression has the type among the visible bindings, and the tables say so. -/
inductive Resolved (analysis : Analysis) (names : Nest Binding) : Expr → Ty → Prop where
  | int {value : Nat} {node : Node} :
      analysis.typeOf node.id = .int → Resolved analysis names (.literal (.int value) node) .int
  | bool {value : Bool} {node : Node} :
      analysis.typeOf node.id = .bool → Resolved analysis names (.literal (.bool value) node) .bool
  | named {name : Name} {binding : Binding} :
      names.find? name.text = some binding → analysis.bindingOf name.node.id = binding →
      analysis.typeOf name.node.id = binding.ty → Resolved analysis names (.named name) binding.ty
  | arithmetic {operator : BinaryOperator} {left right : Expr} {node : Node} :
      operator ≠ .greater → Resolved analysis names left .int → Resolved analysis names right .int →
      analysis.typeOf node.id = .int → Resolved analysis names (.binary operator left right node) .int
  | greater {left right : Expr} {node : Node} :
      Resolved analysis names left .int → Resolved analysis names right .int →
      analysis.typeOf node.id = .bool → Resolved analysis names (.binary .greater left right node) .bool
  | negate {operand : Expr} {node : Node} :
      Resolved analysis names operand .int → analysis.typeOf node.id = .int →
      Resolved analysis names (.unary .negate operand node) .int
  | call {callee : Name} {arguments : List Expr} {list node : Node} {binding : Binding}
      {parameters : List Ty} {result : Ty} :
      names.find? callee.text = some binding → binding.ty = .function parameters result →
      analysis.bindingOf callee.node.id = binding → ResolvedAll analysis names arguments parameters →
      analysis.typeOf node.id = result →
      Resolved analysis names (.call callee arguments list node) result

inductive ResolvedAll (analysis : Analysis) (names : Nest Binding) : List Expr → List Ty → Prop where
  | nil : ResolvedAll analysis names [] []
  | cons {first : Expr} {rest : List Expr} {ty : Ty} {types : List Ty} :
      Resolved analysis names first ty → ResolvedAll analysis names rest types →
      ResolvedAll analysis names (first :: rest) (ty :: types)

end

def PrintItem.Resolved (analysis : Analysis) (names : Nest Binding) : PrintItem → Prop
  | .value expr => ∃ ty, Stackwright.Resolved analysis names expr ty ∧ ty.isValue = true
  | .space _ | .newline _ => True

mutual

/-- A statement is well formed among the visible bindings, with the bindings visible after it. The
variables it declares lie in `area`, the storage of the program or function around it. -/
inductive Stmt.Placed (analysis : Analysis) (area : Allocator) (result : Option Ty) :
    Nest Binding → Stmt → Nest Binding → Prop where
  | declare {names : Nest Binding} {isMutable : Bool} {name : Name} {value : Expr} {node : Node}
      {binding : Binding} :
      Resolved analysis names value binding.ty → binding.ty.isValue = true →
      ¬ names.Declares name.text → binding.isMutable = isMutable →
      analysis.bindingOf name.node.id = binding → area.Covers binding →
      (∀ entry ∈ names.flatten, entry.2.Apart binding) →
      Stmt.Placed analysis area result names (.declare isMutable name value node)
        (names.declare name.text binding)
  | assign {names : Nest Binding} {target : Name} {value : Expr} {node : Node} {binding : Binding} :
      names.find? target.text = some binding → binding.isMutable = true →
      analysis.bindingOf target.node.id = binding → Resolved analysis names value binding.ty →
      Stmt.Placed analysis area result names (.assign target value node) names
  | branch {names : Nest Binding} {condition : Expr} {thenBlock : Block} {node : Node} :
      Resolved analysis names condition .bool → Block.Placed analysis area result names thenBlock →
      Stmt.Placed analysis area result names (.branch condition thenBlock none node) names
  | branchElse {names : Nest Binding} {condition : Expr} {thenBlock elseBlock : Block} {node : Node} :
      Resolved analysis names condition .bool → Block.Placed analysis area result names thenBlock →
      Block.Placed analysis area result names elseBlock →
      Stmt.Placed analysis area result names (.branch condition thenBlock (some elseBlock) node) names
  | ret {names : Nest Binding} {node : Node} :
      result = some .void → Stmt.Placed analysis area result names (.ret none node) names
  | retValue {names : Nest Binding} {value : Expr} {node : Node} {ty : Ty} :
      Resolved analysis names value ty → ty.isValue = true → result = some ty →
      Stmt.Placed analysis area result names (.ret (some value) node) names
  | call {names : Nest Binding} {call : Call} {node : Node} {ty : Ty} :
      Resolved analysis names call.expr ty → Stmt.Placed analysis area result names (.call call node) names
  | print {names : Nest Binding} {items : List PrintItem} {node : Node} :
      (∀ item ∈ items, item.Resolved analysis names) →
      Stmt.Placed analysis area result names (.print items node) names
  | nested {names : Nest Binding} {body : Block} :
      Block.Placed analysis area result names body →
      Stmt.Placed analysis area result names (.nested body) names

inductive Block.Placed (analysis : Analysis) (area : Allocator) (result : Option Ty) :
    Nest Binding → Block → Prop where
  | mk {names after : Nest Binding} {statements : List Stmt} {node : Node} :
      Stmt.PlacedAll analysis area result ([] :: names) statements after →
      Block.Placed analysis area result names (.mk statements node)

inductive Stmt.PlacedAll (analysis : Analysis) (area : Allocator) (result : Option Ty) :
    Nest Binding → List Stmt → Nest Binding → Prop where
  | nil {names : Nest Binding} : Stmt.PlacedAll analysis area result names [] names
  | cons {names between after : Nest Binding} {first : Stmt} {rest : List Stmt} :
      Stmt.Placed analysis area result names first between →
      Stmt.PlacedAll analysis area result between rest after →
      Stmt.PlacedAll analysis area result names (first :: rest) after

end

/-- The storage of the global variables, of the given size. -/
def globalArea (size : Nat) : Allocator := ⟨.global, .upward, 0, 0, size, []⟩

/-- The storage of the local variables of a function, of the given size. -/
def frameArea (size : Nat) : Allocator :=
  ⟨.frame, .downward, -ScopeTree.linkageSize, -ScopeTree.linkageSize, size, []⟩

/-- The bindings of the names of functions, in order. -/
def Function.cells (functions : List Function) : List (String × Binding) :=
  cellsFrom .global 0 (functions.map fun function => (function.name.text, function.signature.ty))

/-- The bindings of parameters, in order. -/
def Parameter.cells (parameters : List Parameter) : List (String × Binding) :=
  cellsFrom .frame 0 (parameters.map fun parameter => (parameter.name.text, parameter.type.ty))

/-- The bindings that the body of a function sees from outside. -/
def Function.visible (functions : List Function) (function : Function) : Nest Binding :=
  [(Parameter.cells function.parameters).reverse, (Function.cells functions).reverse]

/-- A function that is well formed among the functions of its program, with tables that are right. -/
structure Function.Placed (analysis : Analysis) (functions : List Function) (function : Function) : Prop where
  parameters : (function.parameters.map fun parameter => parameter.name.text).Nodup
  body : ∃ after, Stmt.PlacedAll analysis (frameArea (analysis.sizeOf function.body.id))
    (some function.result.ty) ([] :: function.visible functions) function.body.statements after
  returns : function.result.ty ≠ .void → function.body.alwaysReturns = true
  size : analysis.sizeOf function.body.id ≤ 4 * function.body.declarations

/-- A well-formed program with tables that are right. -/
structure Program.Placed (analysis : Analysis) (program : Program) : Prop where
  names : (program.functions.map fun function => function.name.text).Nodup
  cells : List.Forall₂ (fun function cell => analysis.bindingOf function.name.node.id = cell.2)
    program.functions (Function.cells program.functions)
  functions : ∀ function ∈ program.functions, function.Placed analysis program.functions
  main : program.main.Placed analysis (globalArea (analysis.sizeOf program.node.id)) none
    [(Function.cells program.functions).reverse]
  covered : ∀ cell ∈ Function.cells program.functions, (globalArea (analysis.sizeOf program.node.id)).Covers cell.2
  size : analysis.sizeOf program.node.id ≤ 4 * (program.functions.length + program.main.declarations)

/-- A type that a declared name can have. -/
def Ty.Declarable : Ty → Prop
  | .int | .bool => True
  | .void | .error => False
  | .function parameters result =>
    (∀ ty ∈ parameters, ty.isValue = true) ∧ (result.isValue = true ∨ result = .void)

theorem Ty.Declarable.of_isValue {ty : Ty} (isValue : ty.isValue = true) : ty.Declarable := by
  cases ty <;> trivial

theorem Ty.Declarable.ne_error {ty : Ty} (declarable : ty.Declarable) : ty ≠ .error := by
  rintro rfl
  exact declarable

/-- Every visible name has a type that a declared name can have. -/
def Nest.Declarable (names : Nest Binding) : Prop :=
  ∀ entry ∈ names.flatten, entry.2.ty.Declarable

theorem Nest.Declarable.find {names : Nest Binding} {name : String} {binding : Binding}
    (declarable : names.Declarable) (found : names.find? name = some binding) :
    binding.ty.Declarable := by
  obtain ⟨block, outer, member⟩ := Nest.mem_of_find? found
  exact declarable _ (List.mem_flatten.mpr ⟨block, outer, member⟩)

theorem Nest.Declarable.declare {names : Nest Binding} {name : String} {binding : Binding}
    (declarable : names.Declarable) (also : binding.ty.Declarable) :
    (names.declare name binding).Declarable := by
  intro entry member
  rcases Nest.mem_flatten_declare.mp member with rfl | member
  · exact also
  · exact declarable entry member

/-- What the rules know about a binding. -/
def Binding.entry (binding : Binding) : Entry := ⟨binding.ty, binding.isMutable⟩

variable {analysis : Analysis} {area : Allocator} {result : Option Ty} {names : Nest Binding}

theorem Nest.find?_entry {name : String} {binding : Binding} (found : names.find? name = some binding) :
    (names.map Binding.entry).find? name = some binding.entry := by
  rw [Nest.find?_map, found, Option.map_some]

mutual

theorem Resolved.hasType {expr : Expr} {ty : Ty} :
    Resolved analysis names expr ty → HasType (names.map Binding.entry) expr ty
  | .int _ => .int
  | .bool _ => .bool
  | .named found _ _ => .named (Nest.find?_entry found)
  | .arithmetic kind left right _ => .arithmetic kind left.hasType right.hasType
  | .greater left right _ => .greater left.hasType right.hasType
  | .negate operand _ => .negate operand.hasType
  | .call found callable _ arguments _ => .call (Nest.find?_entry found) callable arguments.haveTypes

theorem ResolvedAll.haveTypes {exprs : List Expr} {types : List Ty} :
    ResolvedAll analysis names exprs types → HaveTypes (names.map Binding.entry) exprs types
  | .nil => .nil
  | .cons first rest => .cons first.hasType rest.haveTypes

end

/-- The tables say what the type of a resolved expression is. -/
theorem Resolved.typeOf_eq {expr : Expr} {ty : Ty} (resolved : Resolved analysis names expr ty) :
    analysis.typeOf expr.id = ty := by
  cases resolved <;> assumption

theorem Resolved.ne_error {expr : Expr} {ty : Ty} (resolved : Resolved analysis names expr ty)
    (declarable : names.Declarable) : ty ≠ .error := by
  cases resolved with
  | named found _ _ => exact (declarable.find found).ne_error
  | call found callable _ _ _ =>
    have callee := declarable.find found
    rw [callable] at callee
    rintro rfl
    rcases callee.2 with isValue | isVoid
    · cases isValue
    · cases isVoid
  | _ => simp

theorem ResolvedAll.ne_error {exprs : List Expr} {types : List Ty} (resolved : ResolvedAll analysis names exprs types)
    (declarable : names.Declarable) : ∀ ty ∈ types, ty ≠ .error := by
  induction types generalizing exprs with
  | nil => simp
  | cons ty types ih =>
    cases resolved with
    | cons first rest =>
      intro other member
      rcases List.mem_cons.mp member with rfl | member
      · exact first.ne_error declarable
      · exact ih rest other member

theorem Stmt.Placed.declarable {after : Nest Binding} {stmt : Stmt}
    (placed : Stmt.Placed analysis area result names stmt after) (declarable : names.Declarable) :
    after.Declarable := by
  cases placed with
  | declare _ isValue _ _ _ _ _ => exact declarable.declare (.of_isValue isValue)
  | _ => exact declarable

theorem PrintItem.Resolved.fits {item : PrintItem} (resolved : item.Resolved analysis names) :
    item.Fits (names.map Binding.entry) := by
  cases item with
  | value expr =>
    obtain ⟨ty, typed, isValue⟩ := resolved
    exact ⟨ty, typed.hasType, isValue⟩
  | space | newline => trivial

theorem Nest.map_declare (names : Nest Binding) (name : String) (binding : Binding) :
    (names.declare name binding).map Binding.entry = (names.map Binding.entry).declare name binding.entry := by
  cases names <;> rfl

theorem Nest.declares_map {name : String} :
    (names.map Binding.entry).Declares name ↔ names.Declares name := by
  cases names with
  | nil => simp [Nest.Declares]
  | cons block outer => simp [Nest.Declares]

mutual

theorem Stmt.Placed.fits {names after : Nest Binding} {stmt : Stmt} :
    Stmt.Placed analysis area result names stmt after →
      Stmt.Fits result (names.map Binding.entry) stmt (after.map Binding.entry)
  | .declare typed isValue fresh kind _ _ _ => by
    subst kind
    rw [Nest.map_declare]
    exact .declare typed.hasType isValue (mt Nest.declares_map.mp fresh)
  | .assign found mutability _ typed => by
    refine .assign ((Nest.find?_entry found).trans ?_) typed.hasType
    rw [Binding.entry, mutability]
  | .branch condition thenBlock => .branch condition.hasType thenBlock.fits
  | .branchElse condition thenBlock elseBlock =>
    .branchElse condition.hasType thenBlock.fits elseBlock.fits
  | .ret expected => .ret expected
  | .retValue typed isValue expected => .retValue typed.hasType isValue expected
  | .call typed => .call typed.hasType
  | .print items => .print fun item member => (items item member).fits
  | .nested body => .nested body.fits

theorem Block.Placed.fits {names : Nest Binding} {block : Block} :
    Block.Placed analysis area result names block → Block.Fits result (names.map Binding.entry) block
  | .mk statements => .mk statements.fits

theorem Stmt.PlacedAll.fits {names after : Nest Binding} {stmts : List Stmt} :
    Stmt.PlacedAll analysis area result names stmts after →
      Stmt.FitAll result (names.map Binding.entry) stmts (after.map Binding.entry)
  | .nil => .nil
  | .cons first rest => .cons first.fits rest.fits

end

theorem cellsFrom_entries (base : Base) (offset : Nat) (entries : List (String × Ty)) :
    ((cellsFrom base offset entries).map fun cell => (cell.1, cell.2.entry)) =
      entries.map fun entry => (entry.1, ⟨entry.2, false⟩) := by
  induction entries generalizing offset with
  | nil => rfl
  | cons entry rest ih => rw [cellsFrom, List.map_cons, List.map_cons, ih]; rfl

theorem Function.cells_entries (functions : List Function) :
    ((Function.cells functions).reverse.map fun cell => (cell.1, cell.2.entry)) =
      Function.entries functions := by
  rw [List.map_reverse, Function.cells, cellsFrom_entries, List.map_map]
  rfl

theorem Parameter.cells_entries (parameters : List Parameter) :
    ((Parameter.cells parameters).reverse.map fun cell => (cell.1, cell.2.entry)) =
      Parameter.entries parameters := by
  rw [List.map_reverse, Parameter.cells, cellsFrom_entries, List.map_map]
  rfl

theorem Function.visible_entries (functions : List Function) (function : Function) :
    (function.visible functions).map Binding.entry =
      [Parameter.entries function.parameters, Function.entries functions] := by
  rw [Function.visible, Nest.map_cons, Nest.map_cons, Parameter.cells_entries, Function.cells_entries,
    Nest.map_nil]

theorem Function.Placed.wellFormed {functions : List Function} {function : Function}
    (placed : function.Placed analysis functions) : function.WellFormed functions := by
  refine ⟨placed.parameters, ?_, fun valued => (Block.alwaysReturns_iff _).mp (placed.returns valued)⟩
  obtain ⟨after, body⟩ := placed.body
  have fits := body.fits
  rw [Nest.map_cons, Function.visible_entries] at fits
  exact ⟨_, fits⟩

/-- A program whose tables are right obeys the rules. -/
theorem Program.Placed.wellFormed {program : Program} (placed : program.Placed analysis) :
    program.WellFormed := by
  refine ⟨placed.names, fun function member => (placed.functions function member).wellFormed, ?_⟩
  have fits := placed.main.fits
  rwa [Nest.map_cons, Function.cells_entries, Nest.map_nil] at fits

end Stackwright

import Stackwright.Proofs.Checking.Course

/-! Names that are declared more than once in a scope. The first declaration gives the name its meaning, and
each later one is reported once and gets the null binding, so declarations are either bound or reported. -/

set_option autoImplicit false

namespace Stackwright

/-- The binding is that of the declaration: it has its name and mutability, and the type that is written
down, if one is. -/
structure Declaration.Makes (item : Declaration) (binding : Binding) : Prop where
  lexeme : binding.lexeme = item.name.text
  isMutable : binding.isMutable = item.isMutable
  ty : ∀ given ∈ item.written, binding.ty = given

namespace ScopeTree

/-- How many names are bound in all scopes together. -/
def boundNames (tree : ScopeTree) : Nat := (tree.scopes.toList.map fun scope => scope.names.length).sum

/-- The name of a declaration is bound in its scope, or by an earlier declaration. -/
def Taken (tree : ScopeTree) (earlier : List Declaration) (item : Declaration) : Prop :=
  (tree.get? item.scope item.name.text).isSome = true ∨ ∃ other ∈ earlier, other.Clashes item

variable {tree next : ScopeTree} {number : Nat} {name : String} {ty : Ty} {isMutable : Bool} {binding : Binding}

theorem boundNames_push {scope : Scope} (empty : scope.names = []) (pushed : next.scopes = tree.scopes.push scope) :
    next.boundNames = tree.boundNames := by
  simp [boundNames, pushed, empty]

theorem get?_push {scope : Scope} (empty : scope.names = []) (pushed : next.scopes = tree.scopes.push scope) :
    next.get? number name = tree.get? number name := by
  rw [get?, get?, pushed, Array.getElem?_push]
  split
  · next last =>
    rw [last, Array.getElem?_eq_none (Nat.le_refl _), Option.bind_some, Scope.get?, empty]
    rfl
  · rfl

theorem boundNames_bind? (bound : tree.bind? number name ty isMutable = some (binding, next)) :
    next.boundNames = tree.boundNames + 1 := by
  obtain ⟨scope, allocator, found, _, _, scopes, _⟩ := of_bind? bound
  obtain ⟨isOpen, here⟩ := Array.getElem?_eq_some_iff.mp found
  have present : number < (tree.scopes.toList.map fun scope => scope.names.length).length := by simpa using isOpen
  have before := List.sum_take_add_sum_drop (tree.scopes.toList.map fun scope => scope.names.length) number
  rw [List.drop_eq_getElem_cons present, List.sum_cons, List.getElem_map, Array.getElem_toList, here] at before
  rw [boundNames, boundNames, scopes, Array.toList_setIfInBounds, List.map_set, List.sum_set, if_pos present,
    List.length_cons]
  omega

end ScopeTree

namespace Checker

open Analysis ScopeTree

/-- What has become of a declaration. Unless its name was taken it has given the name its meaning; else it was
refused, and got the null binding. -/
structure Outcome (apart taken : Prop) (item : Declaration) (after : Analysis) : Prop where
  kept : ¬ taken → ∃ binding, after.scopes.get? item.scope item.name.text = some binding ∧ item.Makes binding ∧
    (apart → after.bindings[item.name.node.id]? = some binding ∧ after.types[item.name.node.id]? = some binding.ty)
  refused : taken → apart → after.bindings[item.name.node.id]? = some .null

variable {apart taken : Prop} {item : Declaration} {known between after : Analysis} {ids : List Nat}

/-- A later check does not change what has become of a declaration if it concerns other nodes. -/
theorem Outcome.later {more : List Nat} (outcome : Outcome apart taken item between)
    (retains : between.scopes.Retains after.scopes) (notes : Notes more between after)
    (elsewhere : apart → item.name.node.id ∉ more) :
    Outcome apart taken item after where
  kept free := by
    obtain ⟨binding, found, makes, noted⟩ := outcome.kept free
    refine ⟨binding, retains.names found, makes, fun holds => ?_⟩
    rw [notes.same.bindings (elsewhere holds), notes.same.types (elsewhere holds)]
    exact noted holds
  refused clash holds := (notes.same.bindings (elsewhere holds)).trans (outcome.refused clash holds)

theorem Outcome.congr {taken' : Prop} (outcome : Outcome apart taken item after) (same : taken ↔ taken') :
    Outcome apart taken' item after := by
  rwa [← propext same]

section Declare

variable {scope : Nat} {name : Name} {ty : Ty} {isMutable : Bool} {written : Option Ty}

theorem declare_counts (scope : Nat) (name : Name) (ty : Ty) (isMutable : Bool) (known : Analysis) :
    (declare scope name ty isMutable known).2.redefinitions +
        (declare scope name ty isMutable known).2.scopes.boundNames =
      known.redefinitions + known.scopes.boundNames + 1 := by
  cases bound : known.scopes.bind? scope name.text ty isMutable with
  | none =>
    rw [declare_of_none bound]
    refine (congrArg (· + _) (report_redefinition _ name.text name.node.span)).trans ?_
    exact Nat.add_right_comm _ _ _
  | some made =>
    rw [declare_of_some bound]
    exact congrArg (known.redefinitions + ·) (boundNames_bind? bound)

/-- After its declaration a name is bound, whether that was the first one or not. -/
theorem declare_bound (consistent : known.scopes.Consistent) (isOpen : scope < known.scopes.scopes.size)
    (number : Nat) (text : String) :
    ((declare scope name ty isMutable known).2.scopes.get? number text).isSome = true ↔
      (known.scopes.get? number text).isSome = true ∨ scope = number ∧ name.text = text := by
  by_cases own : scope = number ∧ name.text = text
  · obtain ⟨rfl, rfl⟩ := own
    refine ⟨fun _ => .inr ⟨rfl, rfl⟩, fun _ => ?_⟩
    cases bound : known.scopes.bind? scope name.text ty isMutable with
    | none =>
      rw [declare_of_none bound]
      exact (consistent.toRooted.bind?_eq_none_iff isOpen).mp bound
    | some made =>
      rw [declare_of_some bound]
      exact Option.isSome_of_mem (adds_of_bind? bound).get?_own
  · rw [or_iff_left own]
    cases bound : known.scopes.bind? scope name.text ty isMutable with
    | none =>
      rw [declare_of_none bound]
      rfl
    | some made =>
      rw [declare_of_some bound]
      refine iff_of_eq (congrArg (Option.isSome · = true) ((adds_of_bind? bound).get?_other ?_))
      rw [not_and_or] at own
      exact own.imp Ne.symm Ne.symm

theorem declare_outcome (consistent : known.scopes.Consistent) (isOpen : scope < known.scopes.scopes.size)
    (given : ∀ other ∈ written, ty = other) :
    Outcome apart ((known.scopes.get? scope name.text).isSome = true) ⟨scope, name, isMutable, written⟩
      (declare scope name ty isMutable known).2 := by
  have free : known.scopes.bind? scope name.text ty isMutable = none ↔
      (known.scopes.get? scope name.text).isSome = true := consistent.toRooted.bind?_eq_none_iff isOpen
  cases bound : known.scopes.bind? scope name.text ty isMutable with
  | none =>
    rw [declare_of_none bound]
    exact ⟨fun fresh => absurd (free.mp bound) fresh, fun _ _ => Std.TreeMap.getElem?_insert_self⟩
  | some made =>
    obtain ⟨binding, scopes⟩ := made
    rw [declare_of_some bound]
    have adds := adds_of_bind? bound
    obtain ⟨_, allocator, _, _, rfl, _⟩ := adds.own
    refine ⟨fun _ => ⟨_, adds.get?_own, ⟨rfl, rfl, given⟩, fun _ => ?_⟩, fun clash => ?_⟩
    · exact ⟨Std.TreeMap.getElem?_insert_self, Std.TreeMap.getElem?_insert_self⟩
    · rw [free.mpr clash] at bound
      cases bound

end Declare

namespace Course

variable {scope count : Nat} {declared : List Declaration}

/-- Each declaration is bound or reported, never both. -/
theorem counts (course : Course apart scope ids count declared known after) :
    after.redefinitions + after.scopes.boundNames =
      known.redefinitions + known.scopes.boundNames + declared.length := by
  induction course with
  | note remarks => rw [remarks.redefinitions, remarks.scopes, List.length_nil, Nat.add_zero]
  | declare => exact declare_counts _ _ _ _ _
  | @enclose scope ids count declared known after opening _ ih =>
    obtain ⟨added, empty, pushed⟩ := opened_scopes opening scope known
    refine Eq.trans ih ?_
    rw [boundNames_push empty pushed]
    rfl
  | append _ _ _ one two =>
    rw [two, one, List.length_append]
    omega
  | widen _ _ ih => exact ih

/-- What is bound in the end was bound before or has been declared. -/
theorem bound_iff (course : Course apart scope ids count declared known after)
    (isOpen : scope < known.scopes.scopes.size) (consistent : known.scopes.Consistent) (number : Nat)
    (text : String) :
    (after.scopes.get? number text).isSome = true ↔ (known.scopes.get? number text).isSome = true ∨
      ∃ item ∈ declared, item.scope = number ∧ item.name.text = text := by
  induction course with
  | note remarks => simp [remarks.scopes]
  | declare => simpa using declare_bound consistent isOpen number text
  | @enclose scope ids count declared known after opening _ ih =>
    obtain ⟨added, empty, pushed⟩ := opened_scopes opening scope known
    have below := (consistent.perform (opened_perform opening scope known isOpen)).1
    refine (ih (opened_isOpen opening scope known) below).trans ?_
    rw [get?_push empty pushed]
  | append first _ _ one two =>
    rw [two (first.isOpen isOpen) (first.consistent isOpen consistent), one isOpen consistent, or_assoc]
    simp only [List.mem_append, or_and_right, exists_or]
  | widen _ _ ih => exact ih isOpen consistent

theorem taken_iff (course : Course apart scope ids count declared known after)
    (isOpen : scope < known.scopes.scopes.size) (consistent : known.scopes.Consistent)
    (earlier : List Declaration) (item : Declaration) :
    after.scopes.Taken earlier item ↔ known.scopes.Taken (declared ++ earlier) item := by
  rw [Taken, Taken, course.bound_iff isOpen consistent, or_assoc]
  simp only [List.mem_append, or_and_right, exists_or]
  rfl

/-- What has become of each declaration that is met. -/
theorem outcome (course : Course apart scope ids count declared known after)
    (isOpen : scope < known.scopes.scopes.size) (consistent : known.scopes.Consistent)
    {earlier rest : List Declaration} (split : declared = earlier ++ item :: rest) :
    Outcome apart (known.scopes.Taken earlier item) item after := by
  induction course generalizing earlier rest with
  | note => simp at split
  | declare given =>
    obtain ⟨rfl, rfl, rfl⟩ : earlier = [] ∧ item = _ ∧ rest = [] := by
      simpa [List.singleton_eq_append_iff] using split
    exact (declare_outcome consistent isOpen given).congr (by simp [Taken])
  | @enclose scope ids count declared known after opening inner ih =>
    obtain ⟨added, empty, pushed⟩ := opened_scopes opening scope known
    have below := (consistent.perform (opened_perform opening scope known isOpen)).1
    have same : (opened opening scope known).scopes.Taken earlier item ↔ known.scopes.Taken earlier item := by
      rw [Taken, Taken, get?_push empty pushed]
    have made := (ih (opened_isOpen opening scope known) below split).congr same
    exact ⟨made.kept, made.refused⟩
  | @append scope ids more count _ declared others known between after first second separate one two =>
    have further := first.consistent isOpen consistent
    have stillOpen := first.isOpen isOpen
    rcases List.append_eq_append_iff.mp split with ⟨skipped, rfl, here⟩ | ⟨skipped, rfl, here⟩
    · -- The declaration is met in the second part; what the first part declares comes before it.
      exact (two stillOpen further here).congr (first.taken_iff isOpen consistent skipped item)
    · cases skipped with
      | nil =>
        have start : others = [] ++ item :: rest := here.symm
        exact (two stillOpen further start).congr (by simpa using first.taken_iff isOpen consistent [] item)
      | cons other skipped =>
        obtain ⟨rfl, rfl⟩ := List.cons.inj here
        exact (one isOpen consistent rfl).later (second.retains stillOpen further) second.notes
          fun holds => separate holds item (List.mem_append_right _ List.mem_cons_self)
  | widen _ _ ih => exact ih isOpen consistent split

end Course

end Checker

mutual

theorem Stmt.length_declared {scope next : Nat} : ∀ stmt : Stmt, (stmt.declared scope next).length = stmt.declarations
  | .declare _ _ _ _ => by
    rw [Stmt.declared, Stmt.declarations]
    rfl
  | .branch _ thenBlock none _ => by
    rw [Stmt.declared, Stmt.declarations]
    exact Block.length_declared thenBlock
  | .branch _ thenBlock (some elseBlock) _ => by
    rw [Stmt.declared, Stmt.declarations, List.length_append, Block.length_declared thenBlock,
      Block.length_declared elseBlock]
  | .nested body => by
    rw [Stmt.declared, Stmt.declarations]
    exact Block.length_declared body
  | .assign _ _ _ | .ret _ _ | .call _ _ | .print _ _ | .invalid _ => by
    rw [Stmt.declared, Stmt.declarations]
    rfl

theorem Block.length_declared {number : Nat} : ∀ block : Block, (block.declared number).length = block.declarations
  | .mk statements _ => by
    rw [Block.declared, Block.declarations]
    exact Stmt.length_declaredAll statements

theorem Stmt.length_declaredAll {scope next : Nat} : ∀ statements : List Stmt,
    (Stmt.declaredAll scope next statements).length = Stmt.declarationsAll statements
  | [] => by
    rw [Stmt.declaredAll, Stmt.declarationsAll]
    rfl
  | first :: rest => by
    rw [Stmt.declaredAll, Stmt.declarationsAll, List.length_append, Stmt.length_declared first,
      Stmt.length_declaredAll rest]

end

theorem Function.length_declaredAll {next : Nat} (functions : List Function) :
    (Function.declaredAll next functions).length =
      (functions.map fun function => function.parameters.length + function.body.declarations).sum := by
  induction functions generalizing next with
  | nil => rfl
  | cons first rest ih =>
    have body : first.body.declarations = Stmt.declarationsAll first.body.statements := by
      cases first.body
      rw [Block.declarations]
      rfl
    rw [Function.declaredAll, List.length_append, ih, List.map_cons, List.sum_cons, Function.declared,
      List.length_append, List.length_map, Stmt.length_declaredAll, body]

/-- When the program has just been opened nothing is bound. -/
theorem Checker.atStart_get? (program : Program) (number : Nat) (name : String) :
    (atStart program).scopes.get? number name = none := by
  have same : (atStart program).scopes.get? number name = ScopeTree.empty.get? number name :=
    ScopeTree.get?_push rfl rfl
  rw [same, ScopeTree.get?, ScopeTree.empty, Array.getElem?_empty, Option.bind_none]

/-- The nodes of whatever was read from a text, with faults or without, have different numbers. -/
theorem Program.distinct_of_read (source : String) : (Program.read source).1.ids.Nodup := by
  have reads := Parser.reads_program (Cursor.ofText source)
  exact reads.rising.imp Nat.ne_of_lt

open Checker

/-- Each declaration of a name that its scope has already is reported, once, and none other is: reports and
bound names together are as many as function names, parameters and declaration statements. The first
declaration of a name in a scope gives the name its binding there, all later ones get the null binding, and
nothing else is bound. That a node keeps what was noted at its declaration takes nodes with different numbers,
and all trees that are read have such nodes. -/
theorem Program.redefinitions_exact (program : Program) :
    program.analyze.redefinitions + program.analyze.scopes.boundNames =
      program.functions.length +
        (program.functions.map fun function => function.parameters.length + function.body.declarations).sum +
        program.main.declarations ∧
    (∀ earlier item rest, program.declared = earlier ++ item :: rest →
      (∀ other ∈ earlier, ¬ other.Clashes item) →
      ∃ binding, program.analyze.scopes.get? item.scope item.name.text = some binding ∧ item.Makes binding ∧
        (program.ids.Nodup → program.analyze.bindings[item.name.node.id]? = some binding ∧
          program.analyze.types[item.name.node.id]? = some binding.ty)) ∧
    (∀ earlier item rest, program.declared = earlier ++ item :: rest → (∃ other ∈ earlier, other.Clashes item) →
      program.ids.Nodup → program.analyze.bindings[item.name.node.id]? = some .null) ∧
    (∀ scope ∈ program.analyze.scopes.scopes, (scope.names.map Prod.fst).Nodup) ∧
    (∀ number name, (program.analyze.scopes.get? number name).isSome = true →
      ∃ item ∈ program.declared, item.scope = number ∧ item.name.text = name) ∧
    ∀ source, (Program.read source).1.ids.Nodup := by
  have course := program_course program
  have consistent := atStart_consistent program
  have outcome {earlier item rest} (split : program.declared = earlier ++ item :: rest) :=
    course.outcome Nat.zero_lt_one consistent split
  have taken (earlier item) : (atStart program).scopes.Taken earlier item ↔ ∃ other ∈ earlier, other.Clashes item := by
    rw [ScopeTree.Taken, atStart_get?, Option.isSome_none, or_iff_right Bool.false_ne_true]
  refine ⟨course.counts.trans ?_, fun earlier item rest split fresh => ?_, fun earlier item rest split clash => ?_,
    fun scope member => ?_, fun number name found => ?_, distinct_of_read⟩
  · rw [Program.declared, List.length_append, List.length_append, List.length_map, Function.length_declaredAll,
      Block.length_declared, ← Nat.add_assoc, ← Nat.add_assoc]
    exact congrArg (· + _ + _) (Nat.zero_add _)
  · refine (outcome split).kept fun clash => ?_
    obtain ⟨other, member, clashes⟩ := (taken earlier item).mp clash
    exact fresh other member clashes
  · exact (outcome split).refused ((taken earlier item).mpr clash)
  · obtain ⟨number, found⟩ := Array.mem_iff_getElem?.mp member
    exact (course.consistent Nat.zero_lt_one consistent).distinct found
  · have bound := (course.bound_iff Nat.zero_lt_one consistent number name).mp found
    rwa [atStart_get?, Option.isSome_none, or_iff_right Bool.false_ne_true] at bound

end Stackwright

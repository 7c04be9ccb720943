import Mathlib.Data.List.Flatten
import Mathlib.Data.List.Nodup
import Mathlib.Data.List.Pairwise
import Stackwright.Proofs.Checking.Function
import Stackwright.Proofs.Tree.Reading

/-! Checking whole programs against the rules: the names of all functions come first, then their
insides one after the other, then the main block. -/

set_option autoImplicit false

namespace Stackwright

namespace Checker

open Analysis

section Distinct

variable {α : Type}

theorem nodup_flatMap_of_subset {items : List α} {fewer more : α → List Nat}
    (distinct : (items.flatMap more).Nodup) (each : ∀ item ∈ items, (fewer item).Nodup)
    (subset : ∀ item ∈ items, fewer item ⊆ more item) : (items.flatMap fewer).Nodup := by
  rw [List.nodup_flatMap] at distinct ⊢
  refine ⟨each, distinct.2.imp_of_mem fun {one other} memberOne memberOther disjoint => ?_⟩
  intro id first second
  exact disjoint (subset one memberOne first) (subset other memberOther second)

theorem innerIds_sublist (function : Function) : (innerIds function).Sublist function.ids := by
  have parameters : (parameterIds function).Sublist (function.parameters.flatMap Parameter.ids) :=
    .flatMap_right _ fun parameter _ => .cons_cons _ (.cons _ (.refl _))
  rw [Function.ids]
  exact .cons_cons _ (.cons _ (.cons _ (.cons_cons _ (parameters.append (.refl _)))))

theorem writtenIds_sublist (function : Function) :
    (function.node.id :: function.result.node.id :: function.name.node.id ::
      function.parameters.map fun parameter => parameter.type.node.id).Sublist function.ids := by
  have types : (function.parameters.map fun parameter => parameter.type.node.id).Sublist
      (function.parameters.flatMap Parameter.ids) := by
    rw [List.map_eq_flatMap]
    exact .flatMap_right _ fun parameter _ => .cons _ (.cons_cons _ (.cons _ (.refl _)))
  rw [Function.ids]
  exact .cons_cons _ (.cons_cons _ (.cons_cons _ (.cons _ (types.trans (List.sublist_append_left _ _)))))

theorem allIds_perm (function : Function) :
    (allIds Function.name writtenIds function).Perm (function.node.id :: function.result.node.id ::
      function.name.node.id :: function.parameters.map fun parameter => parameter.type.node.id) :=
  .cons _ (.cons _ (List.perm_append_singleton _ _))

theorem allIds_nodup {function : Function} (distinct : function.ids.Nodup) :
    (allIds Function.name writtenIds function).Nodup :=
  (allIds_perm function).nodup_iff.mpr (distinct.sublist (writtenIds_sublist function))

theorem allIds_subset (function : Function) : allIds Function.name writtenIds function ⊆ function.ids :=
  List.Subset.trans (allIds_perm function).subset (writtenIds_sublist function).subset

theorem name_mem_ids (function : Function) : function.name.node.id ∈ function.ids :=
  allIds_subset function (by simp)

theorem name_not_mem_innerIds {function : Function} (distinct : function.ids.Nodup) :
    function.name.node.id ∉ innerIds function := by
  have inner : (innerIds function).Sublist (function.node.id :: function.result.node.id :: function.list.id ::
      (function.parameters.flatMap Parameter.ids ++ function.body.ids)) := by
    have parameters : (parameterIds function).Sublist (function.parameters.flatMap Parameter.ids) :=
      .flatMap_right _ fun parameter _ => .cons_cons _ (.cons _ (.refl _))
    exact .cons_cons _ (.cons _ (.cons_cons _ (parameters.append (.refl _))))
  intro member
  have elsewhere := inner.subset member
  simp only [Function.ids, List.nodup_cons, List.mem_cons, not_or] at distinct elsewhere
  tauto

/-- No name of a function is concerned when the insides of functions are checked. -/
theorem name_not_mem_inner {functions : List Function} (distinct : (functions.flatMap Function.ids).Nodup)
    {function : Function} (member : function ∈ functions) :
    function.name.node.id ∉ functions.flatMap innerIds := by
  rw [List.nodup_flatMap] at distinct
  intro inner
  obtain ⟨other, memberOther, inner⟩ := List.mem_flatMap.mp inner
  by_cases same : function = other
  · subst same
    exact name_not_mem_innerIds (distinct.1 function member) inner
  · have : Std.Symm (Function.onFun List.Disjoint Function.ids) := 
      ⟨fun _ _ apart _ one other => apart other one⟩
    have disjoint := distinct.2.forall member memberOther same
    exact disjoint (name_mem_ids function) ((innerIds_sublist other).subset inner)

end Distinct

section Functions

variable {final : Analysis} {root : Nat} {cells : List (String × Binding)} {functions : List Function}

theorem Global.keeps {tree next : ScopeTree} (globals : Global tree root cells) (keeps : tree.Keeps next) :
    Global next root cells where
  rooted := keeps.rooted
  isOpen := Nat.lt_of_lt_of_le globals.isOpen keeps.opened
  chain := (keeps.chain_eq globals.rooted globals.isOpen).trans globals.chain
  base := globals.base
  declarable := globals.declarable

theorem checkFunctions_notes (root : Nat) (functions : List Function) (known : Analysis) :
    Notes (functions.flatMap innerIds) known (functions.forM (checkFunction root) known).2 := by
  induction functions generalizing known with
  | nil => exact .refl known
  | cons first rest ih =>
    rw [forM_cons_apply, List.flatMap_cons]
    exact (checkFunction_notes root first known).append (ih _)

theorem checkFunctions_keeps :
    ∀ {functions : List Function} {known after : Analysis},
      functions.forM (checkFunction root) known = ((), after) → Global known.scopes root cells →
      Silent final (functions.flatMap innerIds) known after → known.scopes.Keeps after.scopes
  | [], known, after, step, globals, _ => by
    cases step
    exact .refl globals.rooted
  | first :: rest, known, after, step, globals, silent => by
    rcases stepFirst : checkFunction root first known with ⟨⟨⟩, between⟩
    rw [forM_cons_apply, stepFirst] at step
    have one := checkFunction_notes root first known
    have two := checkFunctions_notes root rest between
    rw [stepFirst] at one
    rw [step] at two
    rw [List.flatMap_cons] at silent
    obtain ⟨silentFirst, silentRest⟩ := silent.split one two
    obtain ⟨visible, _⟩ := parameters_of_silent stepFirst globals silentFirst
    have keeps := checkFunction_keeps globals visible
    rw [stepFirst] at keeps
    exact keeps.trans (checkFunctions_keeps step (globals.keeps keeps) silentRest)

theorem Sized.earlier {known between after : Analysis} (sized : Sized known after final)
    (rooted : between.scopes.Rooted) (keeps : between.scopes.Keeps after.scopes) :
    Sized known between final := by
  intro number isOpen owner
  rw [sized number (Nat.lt_of_lt_of_le isOpen keeps.opened) (keeps.allocatorOf_eq isOpen ▸ owner),
    keeps.allocatedSize_eq rooted isOpen]

theorem Sized.later {known between after : Analysis} (sized : Sized known after final)
    (keeps : known.scopes.Keeps between.scopes) : Sized between after final :=
  fun number isOpen owner => sized number isOpen (Nat.le_trans keeps.created owner)

/-- Functions that are checked without a diagnostic are well formed. -/
theorem checkFunctions_of_silent :
    ∀ {rest : List Function} {known after : Analysis},
      rest.forM (checkFunction root) known = ((), after) →
      Global known.scopes root (Function.cells functions).reverse → (∀ function ∈ rest, function.Legible) →
      Silent final (rest.flatMap innerIds) known after → Sized known after final →
      ∀ function ∈ rest, function.Placed final functions
  | [], _, _, _, _, _, _, _ => by simp
  | first :: rest, known, after, step, globals, legible, silent, sized => by
    rcases stepFirst : checkFunction root first known with ⟨⟨⟩, between⟩
    rw [forM_cons_apply, stepFirst] at step
    have one := checkFunction_notes root first known
    have two := checkFunctions_notes root rest between
    rw [stepFirst] at one
    rw [step] at two
    rw [List.flatMap_cons] at silent
    obtain ⟨silentFirst, silentRest⟩ := silent.split one two
    obtain ⟨visible, _⟩ := parameters_of_silent stepFirst globals silentFirst
    have keeps := checkFunction_keeps globals visible
    rw [stepFirst] at keeps
    have globalsRest := globals.keeps keeps
    have keepsRest := checkFunctions_keeps step globalsRest silentRest
    obtain ⟨legibleFirst, legibleRest⟩ := List.forall_mem_cons.mp legible
    refine List.forall_mem_cons.mpr ⟨?_, ?_⟩
    · exact checkFunction_of_silent stepFirst globals legibleFirst silentFirst
        (sized.earlier globalsRest.rooted keepsRest)
    · exact checkFunctions_of_silent step globalsRest legibleRest silentRest (sized.later keeps)

/-- Well-formed functions are checked without a diagnostic. -/
theorem checkFunctions_of_wellFormed :
    ∀ {rest : List Function} {known : Analysis},
      Global known.scopes root (Function.cells functions).reverse → (∀ function ∈ rest, function.Legible) →
      (∀ function ∈ rest, function.WellFormed functions) →
      ∃ after, rest.forM (checkFunction root) known = ((), after) ∧
        after.diagnostics = known.diagnostics ∧ known.scopes.Keeps after.scopes
  | [], known, globals, _, _ => ⟨known, rfl, rfl, .refl globals.rooted⟩
  | first :: rest, known, globals, legible, wellFormed => by
    obtain ⟨legibleFirst, legibleRest⟩ := List.forall_mem_cons.mp legible
    obtain ⟨wellFormedFirst, wellFormedRest⟩ := List.forall_mem_cons.mp wellFormed
    obtain ⟨between, step, silent, keeps⟩ := checkFunction_of_wellFormed globals legibleFirst wellFormedFirst
    obtain ⟨after, stepRest, silentRest, keepsRest⟩ :=
      checkFunctions_of_wellFormed (globals.keeps keeps) legibleRest wellFormedRest
    refine ⟨after, ?_, silentRest.trans silent, keeps.trans keepsRest⟩
    rw [forM_cons_apply, step, stepRest]

end Functions

section Program

variable (program : Program)

/-- What is known when the scope of the program has been opened. -/
abbrev atStart : Analysis := entered .empty ScopeTree.empty.openProgram.2 program.node

/-- What is known when all functions have been declared. -/
abbrev atFunctions : Analysis := (program.functions.forM (declareFunction 0) (atStart program)).2

/-- What is known when all functions have been checked. -/
abbrev atMain : Analysis := (program.functions.forM (checkFunction 0) (atFunctions program)).2

/-- What is known after the main block. -/
abbrev atEnd : Analysis := (checkNested ⟨0, none⟩ program.main (atMain program)).2

theorem analyze_eq : program.analyze = (leaveScope 0 (atEnd program)).2 := rfl

section Sound

variable {program} (legible : program.Legible) (distinct : program.ids.Nodup)
  (silent : program.analyze.diagnostics = [])

/-- The numbers of the insides of all functions. -/
abbrev insideIds (program : Program) : List Nat := program.functions.flatMap innerIds

theorem atFunctions_performs (program : Program) :
    Performs 0 (program.functions.flatMap (allIds Function.name writtenIds)) (atStart program)
      (atFunctions program) :=
  (declareFunction_declares 0).performsAll program.functions (atStart program)

include distinct in
theorem distinct_parts : (program.functions.flatMap (allIds Function.name writtenIds)).Nodup ∧
    (insideIds program ++ program.main.ids).Nodup ∧
    (∀ function ∈ program.functions, function.name.node.id ∉ insideIds program ++ program.main.ids) ∧
    program.node.id ∉ program.functions.flatMap (allIds Function.name writtenIds) ++
      (insideIds program ++ program.main.ids) := by
  rw [Program.ids, List.nodup_cons] at distinct
  obtain ⟨fresh, distinct⟩ := distinct
  obtain ⟨functions, main, apart⟩ := List.nodup_append.mp distinct
  have each := (List.nodup_flatMap.mp functions).1
  have inside : insideIds program ⊆ program.functions.flatMap Function.ids :=
    (List.Sublist.flatMap_right _ fun function _ => innerIds_sublist function).subset
  refine ⟨?_, ?_, ?_, ?_⟩
  · exact nodup_flatMap_of_subset functions (fun function member => allIds_nodup (each function member))
      fun function _ => allIds_subset function
  · refine List.nodup_append.mpr ⟨?_, main, fun id first other second => apart id (inside first) other second⟩
    exact functions.sublist (.flatMap_right _ fun function _ => innerIds_sublist function)
  · intro function member
    rw [List.mem_append, not_or]
    refine ⟨name_not_mem_inner functions member, fun twice => ?_⟩
    exact apart _ (List.mem_flatMap.mpr ⟨function, member, name_mem_ids function⟩) _ twice rfl
  · have names : program.functions.flatMap (allIds Function.name writtenIds) ⊆
        program.functions.flatMap Function.ids := by
      intro id member
      obtain ⟨function, declared, own⟩ := List.mem_flatMap.mp member
      exact List.mem_flatMap.mpr ⟨function, declared, allIds_subset function own⟩
    simp only [List.mem_append, not_or] at fresh ⊢
    exact ⟨fun member => fresh.1 (names member), fun member => fresh.1 (inside member), fresh.2⟩

include distinct silent in
/-- No stage of an analysis that found nothing wrong reported anything, and what the stages behind the
declarations of functions noted is kept to the end. -/
theorem silent_stages : (atFunctions program).diagnostics = (atStart program).diagnostics ∧
    Silent program.analyze (insideIds program) (atFunctions program) (atMain program) ∧
    Silent program.analyze program.main.ids (atMain program) (atEnd program) := by
  have one := (atFunctions_performs program).toNotes
  have two := checkFunctions_notes 0 program.functions (atFunctions program)
  have three := (checkNested_encloses ⟨0, none⟩ program.main (atMain program)).toNotes
  obtain ⟨first, rest⟩ := (one.silent_iff (two.append three)).mp silent
  have inside : Silent program.analyze (insideIds program ++ program.main.ids) (atFunctions program)
      (atEnd program) := ⟨(distinct_parts distinct).2.1, rest, fun _ => rfl, fun _ => rfl, fun _ => rfl⟩
  exact ⟨first, inside.split two three⟩

theorem signature_declarable {function : Function} (legible : function.Legible) :
    function.signature.ty.Declarable := by
  refine ⟨fun ty member => ?_, ?_⟩
  · obtain ⟨parameter, declared, rfl⟩ := List.mem_map.mp member
    have proper := legible.parameters parameter declared
    cases kind : parameter.type.primitive with
    | void => exact absurd kind proper
    | int | bool => simp [TypeMark.ty, kind, Primitive.ty, Ty.isValue]
  · cases kind : function.result.primitive with
    | void => exact .inr (by simp [Function.signature, TypeMark.ty, kind, Primitive.ty])
    | int | bool => exact .inl (by simp [Function.signature, TypeMark.ty, kind, Primitive.ty, Ty.isValue])

include legible in
theorem atFunctions_global
    (visible : (atFunctions program).scopes.chain 0 = [(Function.cells program.functions).reverse]) :
    Global (atFunctions program).scopes 0 (Function.cells program.functions).reverse := by
  have settled := (atFunctions_performs program).settled ScopeTree.root_settled
  refine ⟨settled.rooted, settled.isOpen, visible, fun entry member => ?_, fun entry member => ?_⟩
  · exact (mem_cellsFrom (List.mem_reverse.mp member)).1
  · obtain ⟨function, declared, same⟩ := List.mem_map.mp (mem_cellsFrom (List.mem_reverse.mp member)).2.2.2
    rw [← (Prod.mk.inj same).2]
    exact signature_declarable (legible.functions function declared)

theorem final_notes (program : Program) :
    Notes (insideIds program ++ program.main.ids) (atFunctions program) program.analyze :=
  ((checkFunctions_notes 0 program.functions (atFunctions program)).append
    (checkNested_encloses ⟨0, none⟩ program.main (atMain program)).toNotes).trans (leaveScope_notes 0 _)

include distinct silent

/-- The functions are declared one after the other from the start of the global block. -/
theorem declared_of_silent :
    (atFunctions program).scopes.chain 0 = [(Function.cells program.functions).reverse] ∧
      (program.functions.map fun function => function.name.text).Nodup ∧
      List.Forall₂ (fun function cell => program.analyze.bindingOf function.name.node.id = cell.2)
        program.functions (Function.cells program.functions) := by
  obtain ⟨written, _, apart, _⟩ := distinct_parts distinct
  obtain ⟨visible, unique, _, cells⟩ := (declareFunction_declares 0).all_of_silent rfl
    ScopeTree.root_settled ScopeTree.root_nextAt ScopeTree.root_chain (silent_stages distinct silent).1 written
    (fun function member => (final_notes program).same.bindings (apart function member))
  rw [List.append_nil] at visible
  exact ⟨visible, unique, cells⟩

include legible

theorem atMain_keeps : (atFunctions program).scopes.Keeps (atMain program).scopes :=
  checkFunctions_keeps rfl (atFunctions_global legible (declared_of_silent distinct silent).1)
    (silent_stages distinct silent).2.1

theorem atMain_settled : (atMain program).scopes.Settled 0 :=
  (atMain_keeps legible distinct silent).settled
    ((atFunctions_performs program).settled ScopeTree.root_settled)

theorem atEnd_returns : ScopeTree.Returns 0 (atMain program).scopes (atEnd program).scopes :=
  (checkNested_encloses ⟨0, none⟩ program.main (atMain program)).returns
    (atMain_settled legible distinct silent)

theorem atEnd_grows : ScopeTree.Grows 0 ScopeTree.root (atEnd program).scopes := by
  have declared := (atFunctions_performs program).settled ScopeTree.root_settled
  have functions := (atMain_keeps legible distinct silent).grows declared
  exact (((atFunctions_performs program).grows ScopeTree.root_settled).trans ScopeTree.root_settled
    functions).trans ScopeTree.root_settled (atEnd_returns legible distinct silent).grows

/-- Closing the scope of the program changes no storage. -/
theorem final_allocators : program.analyze.scopes.allocators = (atEnd program).scopes.allocators := by
  obtain ⟨names, here⟩ := (atEnd_grows legible distinct silent).own ScopeTree.root_scope
  exact ScopeTree.leave_allocators here (by simp)

theorem final_sized : Sized (atFunctions program) (atMain program) program.analyze := by
  intro number isOpen owner
  have keeps := atMain_keeps legible distinct silent
  have declared := (atFunctions_performs program).settled ScopeTree.root_settled
  have apart : (atMain program).scopes.allocatorOf number ≠ (atMain program).scopes.allocatorOf 0 := by
    rw [keeps.allocatorOf_eq declared.isOpen]
    exact Nat.ne_of_gt (Nat.lt_of_lt_of_le declared.allocatorOf_lt owner)
  have same := (atEnd_returns legible distinct silent).grows.allocatedSize_eq keeps.rooted isOpen
    (fun first => apart (by rw [first])) apart
  rw [← same]
  simp only [ScopeTree.allocatedSize, final_allocators legible distinct silent]
  rfl

theorem final_peak {allocator : Allocator}
    (found : (atEnd program).scopes.allocators[(atEnd program).scopes.allocatorOf 0]? = some allocator) :
    program.analyze.sizeOf program.node.id = allocator.peak := by
  have scope : program.analyze.nodeScopes[program.node.id]? = some 0 := by
    have fresh := (distinct_parts distinct).2.2.2
    have notes := (atFunctions_performs program).toNotes.append (final_notes program)
    exact (notes.same.nodeScopes fresh).trans Std.TreeMap.getElem?_insert_self
  rw [Analysis.sizeOf, scope, Option.map_some, Option.getD_some]
  exact ScopeTree.allocatedSize_eq ((final_allocators legible distinct silent) ▸ found)

theorem final_bounded :
    (atEnd program).scopes.Bounded 0 (globalArea (program.analyze.sizeOf program.node.id)) := by
  intro allocator found
  have grows := atEnd_grows legible distinct silent
  have larger := grows.extends ScopeTree.root_settled rfl found
  have peak := final_peak legible distinct silent found
  exact ⟨larger.base.symm, larger.direction.symm, larger.start.symm, Nat.le_of_eq peak.symm⟩

/-- The names of functions and the variables of the main block are all that takes global storage. -/
theorem final_size : program.analyze.sizeOf program.node.id ≤
    4 * (program.functions.length + program.main.declarations) := by
  have settled := ScopeTree.root_settled
  have declared := atFunctions_performs program
  have keeps := atMain_keeps legible distinct silent
  have names := (declareFunction_declares 0).spendsAll program.functions (atStart program) settled
  have bodies : ScopeTree.Spends 0 0 (atFunctions program).scopes (atMain program).scopes := by
    refine ⟨fun {allocator later} found found' => ?_⟩
    rw [keeps.allocators _ (declared.settled settled).allocatorOf_lt] at found'
    cases found.symm.trans found'
    omega
  have main := checkNested_spends ⟨0, none⟩ program.main (atMain program) (atMain_settled legible distinct silent)
  have grows := declared.grows settled
  have spends := ScopeTree.Spends.trans settled (grows.trans settled (keeps.grows (declared.settled settled)))
    (names.trans settled grows bodies) main
  have end_ := atEnd_grows legible distinct silent
  have begun : ScopeTree.root.allocators[ScopeTree.root.allocatorOf 0]? = some (.starting .global .upward 0) := rfl
  obtain ⟨later, found, _⟩ := end_.moved begun
  have spent := (spends.bound begun found).2
  rw [final_peak legible distinct silent ((end_.allocatorOf_eq settled).symm ▸ found), Nat.mul_add]
  simpa [Allocator.used, Allocator.starting] using spent

theorem final_covers : ∀ cell ∈ Function.cells program.functions,
    (globalArea (program.analyze.sizeOf program.node.id)).Covers cell.2 := by
  intro cell member
  have settled := (atFunctions_performs program).settled ScopeTree.root_settled
  have functions := (atMain_keeps legible distinct silent).grows settled
  have later := functions.trans settled (atEnd_returns legible distinct silent).grows
  obtain ⟨allocator, found⟩ := settled.allocated
  obtain ⟨last, found', larger⟩ := later.moved found
  have first := ((atFunctions_performs program).grows ScopeTree.root_settled).extends ScopeTree.root_settled rfl found
  obtain ⟨counted, spares⟩ := settled.free found
  obtain ⟨base, low, _, _⟩ := mem_cellsFrom member
  have visible : cell ∈ ((atFunctions program).scopes.chain 0).flatten := by
    rw [(declared_of_silent distinct silent).1, List.flatten_singleton]
    exact List.mem_reverse.mpr member
  have spared := spares cell visible (base.trans first.base.symm)
  have peak := larger.peak
  rw [final_peak legible distinct silent ((later.allocatorOf_eq settled).symm ▸ found')]
  have toward : allocator.direction = .upward := first.direction
  have start : allocator.start = 0 := first.start
  simp only [Allocator.Counted, toward, start] at counted
  simp only [toward] at spared
  refine ⟨base, low, ?_⟩
  simp only [globalArea]
  omega

/-- A program in which nothing wrong was found is well formed, and the tables are right. -/
theorem placed_of_analyze : program.Placed program.analyze := by
  obtain ⟨visible, unique, cells⟩ := declared_of_silent distinct silent
  obtain ⟨_, silentFunctions, silentMain⟩ := silent_stages distinct silent
  have globals := atFunctions_global legible visible
  have keeps := atMain_keeps legible distinct silent
  refine ⟨unique, cells, ?_, ?_, final_covers legible distinct silent, final_size legible distinct silent⟩
  · exact checkFunctions_of_silent rfl globals legible.functions silentFunctions
      (final_sized legible distinct silent)
  · have global := globals.keeps keeps
    have declarable : ((atMain program).scopes.chain 0).Declarable := by
      intro entry member
      rw [global.chain, List.flatten_singleton] at member
      exact global.declarable entry member
    have placed := blockPlaced_of_silent rfl (atMain_settled legible distinct silent) declarable legible.main
      silentMain (final_bounded legible distinct silent)
    rwa [global.chain] at placed

end Sound

/-- Nothing is reported about a program that obeys the rules. -/
theorem analyze_of_wellFormed {program : Program} (legible : program.Legible)
    (wellFormed : program.WellFormed) : program.analyze.diagnostics = [] := by
  have nextAt : (atStart program).scopes.NextAt 0 .global 0 := ScopeTree.root_nextAt
  have chain : (atStart program).scopes.chain 0 = [[]] := ScopeTree.root_chain
  obtain ⟨declared, stepNames, silentNames, visible⟩ := (declareFunction_declares 0).all_of_fresh
    ScopeTree.root_settled nextAt chain wellFormed.names (by simp)
  have here : atFunctions program = declared := congrArg Prod.snd stepNames
  rw [← here, List.append_nil] at visible
  have globals := atFunctions_global legible visible
  obtain ⟨checked, stepFunctions, silentFunctions, keeps⟩ :=
    checkFunctions_of_wellFormed globals legible.functions wellFormed.functions
  have there : atMain program = checked := congrArg Prod.snd stepFunctions
  rw [← there] at keeps silentFunctions
  have global := globals.keeps keeps
  have declarable : ((atMain program).scopes.chain 0).Declarable := by
    intro entry member
    rw [global.chain, List.flatten_singleton] at member
    exact global.declarable entry member
  have settled := keeps.settled ((atFunctions_performs program).settled ScopeTree.root_settled)
  have entries : ((atMain program).scopes.chain 0).map Binding.entry =
      [Function.entries program.functions] := by
    rw [global.chain, Nest.map_cons, Function.cells_entries, Nest.map_nil]
  have fits := wellFormed.main
  rw [← entries] at fits
  change Block.Fits (Place.mk 0 none).result _ _ at fits
  obtain ⟨ended, stepMain, silentMain, _⟩ := checkNested_of_fits fits settled declarable
  have end_ : atEnd program = ended := congrArg Prod.snd stepMain
  rw [analyze_eq]
  change (atEnd program).diagnostics = []
  rw [end_, silentMain, silentFunctions, here, silentNames]
  rfl

end Program

end Checker

/-- The analysis of a program that was read finds nothing wrong exactly if the program obeys the
static rules of the language. -/
theorem Program.analyze_eq_nil_iff_wellFormed {source : String} {program : Program}
    (parsed : Program.parse source = .ok program) :
    program.analyze.diagnostics = [] ↔ program.WellFormed := by
  obtain ⟨legible, ids⟩ := Program.legible_and_ids_of_parse parsed
  have distinct : program.ids.Nodup := ids ▸ List.nodup_range
  exact ⟨fun silent => (Checker.placed_of_analyze legible distinct silent).wellFormed,
    Checker.analyze_of_wellFormed legible⟩

/-- A way to compute with what was read. -/
theorem Program.exists_parse_of_map {α : Type} {source : String} {test : Program → α} {value : α}
    (read : (Program.parse source).toOption.map test = some value) :
    ∃ program, Program.parse source = .ok program ∧ test program = value := by
  cases parsed : Program.parse source with
  | error faults =>
    rw [parsed] at read
    cases read
  | ok program =>
    rw [parsed] at read
    exact ⟨program, rfl, Option.some.inj read⟩

/-- A program in which a local variable hides the function around it. -/
theorem Program.wellFormed_hidden_function :
    ∃ program, Program.parse "func int f(int n) \x7b imm f := n * 2; return f; \x7d main \x7b print f(4); \x7d" =
      .ok program ∧ program.WellFormed := by
  have read : ∃ program, Program.parse
      "func int f(int n) \x7b imm f := n * 2; return f; \x7d main \x7b print f(4); \x7d" = .ok program ∧
      program.analyze.diagnostics = [] := exists_parse_of_map (by decide +kernel)
  obtain ⟨program, parsed, silent⟩ := read
  exact ⟨program, parsed, (Program.analyze_eq_nil_iff_wellFormed parsed).mp silent⟩

end Stackwright

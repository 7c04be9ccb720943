import Stackwright.Proofs.Checking.Course

/-! Checking leaves every scope that it opens, whatever is wrong with the program. What was set aside on
entering a nested scope is taken up again on leaving it, so each allocator ends without a bookmark, and that
of the program ends right after the functions. -/

set_option autoImplicit false

namespace Stackwright

/-- The functions whose name is not among those seen and not that of an earlier one. -/
def Function.firsts (seen : List String) : List Function → List Function
  | [] => []
  | function :: rest =>
    if function.name.text ∈ seen then Function.firsts seen rest
    else function :: Function.firsts (seen ++ [function.name.text]) rest

/-- The functions, and nothing else, have storage in the scope of the program, one right after the other, and
the next storage lies right after them. -/
def ScopeTree.Lays (tree : ScopeTree) (functions : List Function) : Prop :=
  ∃ (root : Scope) (allocator : Allocator), tree.scopes[0]? = some root ∧ root.kind = .program ∧
    tree.allocators[root.allocator]? = some allocator ∧ allocator.base = .global ∧
    allocator.direction = .upward ∧ root.names = (Function.cells functions).reverse ∧
    allocator.current = (4 * functions.length : Nat)

namespace ScopeTree

/-- The bookmarks of the allocator of a number. -/
def marks (tree : ScopeTree) (index : Nat) : List Int :=
  (tree.allocators[index]?.map Allocator.bookmarks).getD []

/-- What is done in a scope opens and leaves the same scopes, takes back all bookmarks that it sets, and uses
no allocator that was there before but that of the scope. -/
structure Balanced (number count : Nat) (tree next : ScopeTree) : Prop where
  entered : next.entered = tree.entered + count
  left : next.left = tree.left + count
  marks : ∀ index, next.marks index = tree.marks index
  spared : ∀ index < tree.allocators.size, index ≠ tree.allocatorOf number →
    next.allocators[index]? = tree.allocators[index]?

variable {tree next last : ScopeTree} {number count more : Nat} {first allocator : Allocator}

theorem marks_eq {index : Nat} (allocated : tree.allocators[index]? = some allocator) :
    tree.marks index = allocator.bookmarks := by
  rw [marks, allocated, Option.map_some, Option.getD_some]

theorem marks_congr {index : Nat} (same : next.allocators[index]? = tree.allocators[index]?) :
    next.marks index = tree.marks index := by
  rw [marks, marks, same]

theorem Later.allocatorOf (later : tree.Later next) (isOpen : number < tree.scopes.size) :
    next.allocatorOf number = tree.allocatorOf number := by
  have found := Array.getElem?_eq_getElem isOpen
  obtain ⟨names, found'⟩ := later.scopes found
  rw [allocatorOf_eq found, allocatorOf_eq found']

theorem Later.created (later : tree.Later next) {index : Nat} (present : index < tree.allocators.size) :
    index < next.allocators.size := by
  obtain ⟨_, found, _⟩ := later.allocators (Array.getElem?_eq_getElem present)
  exact (Array.getElem?_eq_some_iff.mp found).1

theorem Balanced.refl (tree : ScopeTree) : Balanced number 0 tree tree :=
  ⟨rfl, rfl, fun _ => rfl, fun _ _ _ => rfl⟩

theorem Balanced.append (one : Balanced number count tree next) (two : Balanced number more next last)
    (later : tree.Later next) (isOpen : number < tree.scopes.size) :
    Balanced number (count + more) tree last where
  entered := by rw [two.entered, one.entered, Nat.add_assoc]
  left := by rw [two.left, one.left, Nat.add_assoc]
  marks index := (two.marks index).trans (one.marks index)
  spared index present differs :=
    (two.spared index (later.created present) (later.allocatorOf isOpen ▸ differs)).trans
      (one.spared index present differs)

theorem Adds.balanced {name : String} {ty : Ty} {isMutable : Bool} {binding : Binding}
    (adds : Adds number name ty isMutable tree next binding) : Balanced number 0 tree next where
  entered := adds.entered
  left := adds.left
  marks index := by
    by_cases own : index = tree.allocatorOf number
    · obtain ⟨scope, allocator, found, allocated, _, _, moved⟩ := adds.own
      rw [own, allocatorOf_eq found, marks_eq moved, marks_eq allocated]
      rfl
    · exact marks_congr (adds.spared index own)
  spared index _ differs := adds.spared index differs

section Own

variable {kind : Scope.Kind} {parent : Option Nat} {outer : Nat}

theorem marks_addOwner (fresh : first.bookmarks = []) (index : Nat) :
    (tree.addOwner kind parent first).2.marks index = tree.marks index := by
  rw [marks, marks, addOwner_allocators, Array.getElem?_push]
  split
  · next same =>
    rw [same, Array.getElem?_eq_none (Nat.le_refl _), Option.map_some, Option.getD_some, fresh]
    rfl
  · rfl

variable (later : (tree.addOwner kind (some outer) first).2.Later last) (owns : kind ≠ .nested)

include later owns

/-- A scope with storage of its own is left without a change to any. -/
theorem leave_own : (last.leave tree.scopes.size).allocators = last.allocators := by
  obtain ⟨names, here⟩ := later.scopes getElem?_addScope_size
  exact leave_allocators here owns

/-- What there was before such a scope is not touched. -/
theorem Balanced.spared_own {index : Nat}
    (inner : Balanced tree.scopes.size count (tree.addOwner kind (some outer) first).2 last)
    (present : index < tree.allocators.size) :
    (last.leave tree.scopes.size).allocators[index]? = tree.allocators[index]? := by
  rw [leave_own later owns, inner.spared index ?_ ?_, addOwner_allocators, Array.getElem?_push_lt present,
    Array.getElem?_eq_getElem present]
  · rw [addOwner_allocators, Array.size_push]
    omega
  · rw [addOwner_allocatorOf]
    exact Nat.ne_of_lt present

theorem Balanced.leaveOwn (fresh : first.bookmarks = [])
    (inner : Balanced tree.scopes.size count (tree.addOwner kind (some outer) first).2 last) :
    Balanced number (count + 1) tree (last.leave tree.scopes.size) where
  entered := by
    refine inner.entered.trans ?_
    simp only [addOwner, addScope]
    omega
  left := congrArg (· + 1) inner.left
  marks index :=
    (marks_congr (by rw [leave_own later owns])).trans ((inner.marks index).trans (marks_addOwner fresh index))
  spared _ present _ := inner.spared_own later owns present

end Own

section Nested

variable (later : (tree.openNested number).2.Later last)

include later

theorem leave_nested : (last.leave tree.scopes.size).allocators =
    last.allocators.modify (tree.allocatorOf number) Allocator.restore := by
  obtain ⟨names, here⟩ := later.scopes getElem?_addScope_size
  rw [leave, here]

/-- If all bookmarks that were set in a nested scope have been taken back, leaving it returns to where its
allocator was. -/
theorem leave_returns (allocated : tree.allocators[tree.allocatorOf number]? = some allocator)
    (kept : last.marks (tree.allocatorOf number) = allocator.save.bookmarks) :
    ∃ ended, (last.leave tree.scopes.size).allocators[tree.allocatorOf number]? = some ended ∧
      ended.current = allocator.current ∧ ended.bookmarks = allocator.bookmarks := by
  obtain ⟨ended, found, _⟩ := later.allocators (openNested_allocator allocated)
  rw [marks_eq found] at kept
  refine ⟨ended.restore, ?_, ?_⟩
  · rw [leave_nested later, Array.getElem?_modify, if_pos rfl, found, Option.map_some]
  · simp only [Allocator.restore, kept, Allocator.save, and_self]

theorem Balanced.leaveNested (allocated : tree.allocators[tree.allocatorOf number]? = some allocator)
    (inner : Balanced tree.scopes.size count (tree.openNested number).2 last) :
    Balanced number (count + 1) tree (last.leave tree.scopes.size) := by
  -- What lies outside the allocator that the nested scope shares is not touched at all.
  have outside : ∀ index, index ≠ tree.allocatorOf number →
      (last.leave tree.scopes.size).allocators[index]? = last.allocators[index]? := fun index differs => by
    rw [leave_nested later, Array.getElem?_modify, if_neg (Ne.symm differs)]
  refine ⟨?_, congrArg (· + 1) inner.left, fun index => ?_, fun index present differs => ?_⟩
  · refine inner.entered.trans ?_
    simp only [openNested, addScope]
    omega
  · by_cases own : index = tree.allocatorOf number
    · obtain ⟨ended, found, _, bookmarks⟩ := leave_returns later allocated
        ((inner.marks _).trans (marks_eq (openNested_allocator allocated)))
      rw [own, marks_eq found, marks_eq allocated, bookmarks]
    · exact (marks_congr (outside index own)).trans
        ((inner.marks index).trans (marks_congr (openNested_spared own)))
  · rw [outside index differs, inner.spared index ?_ ?_, openNested_spared differs]
    · simpa [openNested, addScope] using present
    · rwa [openNested_allocatorOf]

end Nested

end ScopeTree

namespace Checker

open Analysis ScopeTree

/-- A scope is opened with storage of its own, or shares that of the scope around it. -/
theorem opened_cases (opening : Opening) (outer : Nat) (known : Analysis) :
    (opened opening outer known).scopes = (known.scopes.openNested outer).2 ∨
      ∃ kind first, kind ≠ .nested ∧ first.bookmarks = [] ∧
        (opened opening outer known).scopes = (known.scopes.addOwner kind (some outer) first).2 := by
  cases opening with
  | parameters => exact .inr ⟨.parameters, .starting .frame .upward 0, nofun, rfl, rfl⟩
  | procedure => exact .inr ⟨.procedure, .starting .frame .downward (-linkageSize), nofun, rfl, rfl⟩
  | nested => exact .inl rfl

theorem declare_balanced (scope : Nat) (name : Name) (ty : Ty) (isMutable : Bool) (known : Analysis) :
    Balanced scope 0 known.scopes (declare scope name ty isMutable known).2.scopes := by
  cases bound : known.scopes.bind? scope name.text ty isMutable with
  | none =>
    rw [declare_of_none bound]
    exact .refl known.scopes
  | some made =>
    rw [declare_of_some bound]
    exact (adds_of_bind? bound).balanced

namespace Course

variable {apart : Prop} {scope count : Nat} {ids : List Nat} {declared : List Declaration}
  {known after : Analysis}

/-- What checking does in a scope that is open is balanced. -/
theorem balanced (course : Course apart scope ids count declared known after)
    (isOpen : scope < known.scopes.scopes.size) (consistent : known.scopes.Consistent) :
    Balanced scope count known.scopes after.scopes := by
  induction course with
  | note remarks =>
    rw [remarks.scopes]
    exact .refl _
  | declare => exact declare_balanced _ _ _ _ _
  | @enclose scope ids count declared known after opening inner ih =>
    have entered := opened_isOpen opening scope known
    have below := (consistent.perform (opened_perform opening scope known isOpen)).1
    have balanced := ih entered below
    have later := (inner.retains entered below).toLater
    rcases opened_cases opening scope known with shared | ⟨kind, first, owns, fresh, own⟩
    · rw [shared] at balanced later
      have present := consistent.allocator (Array.getElem?_eq_getElem isOpen)
      rw [← allocatorOf_eq (Array.getElem?_eq_getElem isOpen)] at present
      exact .leaveNested later (Array.getElem?_eq_getElem present) balanced
    · rw [own] at balanced later
      exact .leaveOwn later owns fresh balanced
  | append first _ _ one two =>
    have between := first.consistent isOpen consistent
    exact (one isOpen consistent).append (two (first.isOpen isOpen) between)
      (first.retains isOpen consistent).toLater isOpen
  | widen _ _ ih => exact ih isOpen consistent

/-- A scope in which nothing is declared keeps the names that it has. -/
theorem unchanged {number : Nat} (course : Course apart scope ids count declared known after)
    (isOpen : number < known.scopes.scopes.size) (absent : ∀ item ∈ declared, item.scope ≠ number) :
    after.scopes.scopes[number]? = known.scopes.scopes[number]? := by
  induction course with
  | note remarks => rw [remarks.scopes]
  | @declare scope name ty isMutable written known given =>
    have other : number ≠ scope := (absent _ List.mem_cons_self).symm
    cases bound : known.scopes.bind? scope name.text ty isMutable with
    | none =>
      rw [declare_of_none bound]
      rfl
    | some made =>
      rw [declare_of_some bound]
      exact (adds_of_bind? bound).others number other
  | enclose opening _ ih =>
    obtain ⟨added, _, pushed⟩ := opened_scopes opening _ _
    refine (ih (by rw [opened_size]; omega) absent).trans ?_
    rw [pushed, Array.getElem?_push_lt isOpen, Array.getElem?_eq_getElem isOpen]
  | append first _ _ one two =>
    obtain ⟨absent, absent'⟩ := List.forall_mem_append.mp absent
    exact (two (Nat.lt_of_lt_of_le isOpen (by rw [first.size]; omega)) absent').trans (one isOpen absent)
  | widen _ _ ih => exact ih isOpen absent

/-- A scope in which nothing is declared takes no storage for good. -/
theorem cursor (course : Course apart scope ids count declared known after)
    (isOpen : scope < known.scopes.scopes.size) (consistent : known.scopes.Consistent)
    (absent : ∀ item ∈ declared, item.scope ≠ scope) {allocator : Allocator}
    (allocated : known.scopes.allocators[known.scopes.allocatorOf scope]? = some allocator) :
    ∃ ended, after.scopes.allocators[known.scopes.allocatorOf scope]? = some ended ∧
      ended.current = allocator.current := by
  induction course generalizing allocator with
  | note remarks => exact ⟨allocator, by rw [remarks.scopes, allocated], rfl⟩
  | declare => exact absurd rfl (absent _ List.mem_cons_self)
  | @enclose scope ids count declared known after opening inner ih =>
    have entered := opened_isOpen opening scope known
    have below := (consistent.perform (opened_perform opening scope known isOpen)).1
    have balanced := inner.balanced entered below
    have later := (inner.retains entered below).toLater
    rcases opened_cases opening scope known with shared | ⟨kind, first, owns, fresh, own⟩
    · rw [shared] at balanced later
      obtain ⟨ended, found, current, _⟩ := leave_returns later allocated
        ((balanced.marks _).trans (marks_eq (openNested_allocator allocated)))
      exact ⟨ended, found, current⟩
    · rw [own] at balanced later
      have present := (Array.getElem?_eq_some_iff.mp allocated).1
      exact ⟨allocator, (balanced.spared_own later owns present).trans allocated, rfl⟩
  | append first _ _ one two =>
    obtain ⟨absent, absent'⟩ := List.forall_mem_append.mp absent
    have same := (first.retains isOpen consistent).toLater.allocatorOf isOpen
    obtain ⟨between, found, current⟩ := one isOpen consistent absent allocated
    obtain ⟨ended, found', current'⟩ := two (first.isOpen isOpen) (first.consistent isOpen consistent) absent'
      (same.symm ▸ found)
    exact ⟨ended, same ▸ found', current'.trans current⟩
  | widen _ _ ih => exact ih isOpen consistent absent allocated

end Course

section Functions

theorem totalSize_signatures (functions : List Function) :
    Ty.totalSize ((functions.map fun function => (function.name.text, function.signature.ty)).map Prod.snd) =
      4 * functions.length := by
  induction functions with
  | nil => rfl
  | cons first rest ih =>
    rw [List.map_cons, List.map_cons, Ty.totalSize, ih, List.length_cons, Signature.ty, Ty.size]
    omega

theorem cells_append (functions : List Function) (function : Function) :
    Function.cells (functions ++ [function]) = Function.cells functions ++
      [(function.name.text,
        ⟨function.signature.ty, ⟨.global, (4 * functions.length : Nat)⟩, function.name.text, false⟩)] := by
  rw [Function.cells, List.map_append, cellsFrom_append, totalSize_signatures, Nat.zero_add]
  simp [Function.cells, cellsFrom]

theorem lookup_cells_isSome {functions : List Function} {name : String} :
    ((Function.cells functions).reverse.lookup name).isSome = true ↔
      name ∈ functions.map fun function => function.name.text := by
  have names : (Function.cells functions).map Prod.fst = functions.map fun function => function.name.text := by
    rw [Function.cells, cellsFrom_names, List.map_map]
    rfl
  rw [Option.isSome_iff_ne_none, Ne, Nest.lookup_eq_none_iff, not_not, List.map_reverse, List.mem_reverse, names]

variable {known : Analysis} {functions : List Function}

/-- A function takes the next storage if no earlier one has its name. -/
theorem declareFunction_lays (lays : known.scopes.Lays functions) (function : Function) :
    (declareFunction 0 function known).2.scopes.Lays
      (if function.name.text ∈ functions.map (fun function => function.name.text) then functions
        else functions ++ [function]) := by
  obtain ⟨root, allocator, found, kind, allocated, base, toward, names, current⟩ := lays
  obtain ⟨between, annotates, _, same⟩ := (declareFunction_declares 0).step function known
  rw [same]
  rw [← annotates.scopes] at found allocated
  have decided : between.scopes.bind? 0 function.name.text function.signature.ty false = _ := bind?_eq found allocated
  rw [names] at decided
  split
  · next seen =>
    rw [if_pos (lookup_cells_isSome.mpr seen)] at decided
    rw [declare_of_none decided]
    exact ⟨root, allocator, found, kind, allocated, base, toward, names, current⟩
  · next seen =>
    rw [if_neg (mt lookup_cells_isSome.mp seen)] at decided
    rw [declare_of_some decided]
    obtain ⟨root', allocator', found', allocated', handed, renamed, moved⟩ := (adds_of_bind? decided).own
    cases found.symm.trans found'
    cases allocated.symm.trans allocated'
    refine ⟨_, _, renamed, kind, moved, base, toward, ?_, ?_⟩
    · rw [cells_append, List.reverse_append, ← names]
      simp [handed, Allocator.allocate, Allocator.nextOffset, toward, base, current]
    · simp only [Allocator.allocate, Allocator.moved, toward, current, Signature.ty, Ty.size, List.length_append,
        List.length_singleton]
      omega

theorem declareFunctions_lays (lays : known.scopes.Lays functions) (more : List Function) :
    (more.forM (declareFunction 0) known).2.scopes.Lays
      (functions ++ Function.firsts (functions.map fun function => function.name.text) more) := by
  induction more generalizing known functions with
  | nil =>
    rw [Function.firsts, List.append_nil]
    exact lays
  | cons function rest ih =>
    have step := declareFunction_lays lays function
    rw [forM_cons_apply, Function.firsts]
    split at step
    · next seen =>
      rw [if_pos seen]
      exact ih step
    · next seen =>
      rw [if_neg seen]
      have whole := ih step
      rwa [List.map_append, List.map_singleton, List.append_assoc, List.singleton_append] at whole

end Functions

end Checker

mutual

theorem Stmt.scope_of_mem_declared {scope next : Nat} : ∀ (stmt : Stmt), ∀ item ∈ stmt.declared scope next,
    item.scope = scope ∨ next ≤ item.scope
  | .declare _ _ _ _ => by
    rw [Stmt.declared]
    exact fun item member => .inl (by rw [List.mem_singleton.mp member])
  | .branch _ thenBlock none _ => by
    rw [Stmt.declared]
    exact fun item member => .inr (Block.scope_of_mem_declared thenBlock item member)
  | .branch _ thenBlock (some elseBlock) _ => by
    rw [Stmt.declared, List.forall_mem_append]
    refine ⟨fun item member => .inr (Block.scope_of_mem_declared thenBlock item member), fun item member => .inr ?_⟩
    have above := Block.scope_of_mem_declared elseBlock item member
    omega
  | .nested body => by
    rw [Stmt.declared]
    exact fun item member => .inr (Block.scope_of_mem_declared body item member)
  | .assign _ _ _ | .ret _ _ | .call _ _ | .print _ _ | .invalid _ => by
    rw [Stmt.declared]
    nofun

theorem Block.scope_of_mem_declared {number : Nat} : ∀ (block : Block), ∀ item ∈ block.declared number,
    number ≤ item.scope
  | .mk statements _ => by
    rw [Block.declared]
    intro item member
    have place := Stmt.scope_of_mem_declaredAll statements item member
    omega

theorem Stmt.scope_of_mem_declaredAll {scope next : Nat} : ∀ (statements : List Stmt),
    ∀ item ∈ Stmt.declaredAll scope next statements, item.scope = scope ∨ next ≤ item.scope
  | [] => by
    rw [Stmt.declaredAll]
    nofun
  | first :: rest => by
    rw [Stmt.declaredAll, List.forall_mem_append]
    refine ⟨Stmt.scope_of_mem_declared first, fun item member => ?_⟩
    have place := Stmt.scope_of_mem_declaredAll rest item member
    omega

end

theorem Function.scope_of_mem_declaredAll {next : Nat} (functions : List Function) :
    ∀ item ∈ Function.declaredAll next functions, next ≤ item.scope := by
  induction functions generalizing next with
  | nil => nofun
  | cons first rest ih =>
    rw [Function.declaredAll, Function.declared]
    refine List.forall_mem_append.mpr ⟨List.forall_mem_append.mpr ⟨fun item member => ?_, fun item member => ?_⟩,
      fun item member => ?_⟩
    · obtain ⟨parameter, _, rfl⟩ := List.mem_map.mp member
      exact Nat.le_refl next
    · have place := Stmt.scope_of_mem_declaredAll first.body.statements item member
      omega
    · have place := ih item member
      omega

namespace Checker

open Analysis ScopeTree

section Program

variable (program : Program)

theorem atEnd_balanced : Balanced 0 (Function.scopes program.functions + program.main.blocks)
    (atStart program).scopes (atEnd program).scopes := by
  have balanced := (program_course program).balanced Nat.zero_lt_one (atStart_consistent program)
  rwa [Nat.zero_add] at balanced

theorem atFunctions_lays : (atFunctions program).scopes.Lays (Function.firsts [] program.functions) :=
  have start : (atStart program).scopes.Lays [] := ⟨_, _, root_scope, rfl, rfl, rfl, rfl, rfl, rfl⟩
  declareFunctions_lays start program.functions

/-- What is checked after the functions were declared gives back all storage that it takes in the scope of
the program. -/
theorem atEnd_lays : ∃ (root : Scope) (allocator : Allocator),
    (atEnd program).scopes.scopes[0]? = some root ∧ root.kind = .program ∧
    (atEnd program).scopes.allocators[root.allocator]? = some allocator ∧
    root.names = (Function.cells (Function.firsts [] program.functions)).reverse ∧
    allocator.current = (4 * (Function.firsts [] program.functions).length : Nat) := by
  obtain ⟨root, allocator, found, kind, allocated, _, _, names, current⟩ := atFunctions_lays program
  have isOpen : 0 < (atFunctions program).scopes.scopes.size := by
    rw [atFunctions_size]
    exact Nat.zero_lt_one
  have consistent := (atFunctions_course program).consistent Nat.zero_lt_one (atStart_consistent program)
  have course := atEnd_course program
  have absent : ∀ item ∈ Function.declaredAll (atFunctions program).scopes.scopes.size program.functions ++
      program.main.declared ((atFunctions program).scopes.scopes.size + Function.scopes program.functions),
      item.scope ≠ 0 := by
    refine List.forall_mem_append.mpr ⟨fun item member => ?_, fun item member => ?_⟩
    · have above := Function.scope_of_mem_declaredAll program.functions item member
      omega
    · have above := Block.scope_of_mem_declared program.main item member
      omega
  rw [← allocatorOf_eq found] at allocated
  obtain ⟨ended, allocated', current'⟩ := course.cursor isOpen consistent absent allocated
  rw [allocatorOf_eq found] at allocated'
  exact ⟨root, ended, (course.unchanged isOpen absent).trans found, kind, allocated', names, current'.trans current⟩

end Program

end Checker

open Checker

/-- However a program is nested and whatever is wrong with it, its analysis leaves as many scopes as it opens,
one for the program, two for each function and one for each other block; no bookmark is left, and the storage
of the program ends right after the functions, of which each name has the first. -/
theorem Program.scopes_balanced (program : Program) :
    program.analyze.scopes.entered = program.analyze.scopes.scopes.size ∧
    program.analyze.scopes.left = program.analyze.scopes.scopes.size ∧
    program.analyze.scopes.scopes.size = 1 + 2 * program.functions.length + program.blocks ∧
    (∀ allocator ∈ program.analyze.scopes.allocators, allocator.bookmarks = []) ∧
    ∃ (root : Scope) (allocator : Allocator), program.analyze.scopes.scopes[0]? = some root ∧ root.kind = .program ∧
      program.analyze.scopes.allocators[root.allocator]? = some allocator ∧
      root.names = (Function.cells (Function.firsts [] program.functions)).reverse ∧
      allocator.current = (4 * (Function.firsts [] program.functions).length : Nat) := by
  obtain ⟨root, allocator, found, kind, allocated, names, current⟩ := atEnd_lays program
  have owns : root.kind ≠ .nested := by rw [kind]; nofun
  have balanced := atEnd_balanced program
  have counted : Function.scopes program.functions + program.main.blocks =
      2 * program.functions.length + program.blocks := by
    rw [Function.scopes_eq, Program.blocks, Nat.add_assoc]
  have size : program.analyze.scopes.scopes.size = 1 + 2 * program.functions.length + program.blocks := by
    rw [Nat.add_assoc, ← counted]
    exact (program_course program).size.trans (by rw [Nat.zero_add]; rfl)
  have closed : program.analyze.scopes.allocators = (atEnd program).scopes.allocators :=
    ScopeTree.leave_allocators found owns
  refine ⟨?_, ?_, size, fun entry member => ?_, root, allocator, found, kind, closed ▸ allocated, names, current⟩
  · rw [size, Nat.add_assoc, ← counted]
    exact balanced.entered
  · rw [size, Nat.add_assoc, ← counted, Nat.add_comm 1]
    exact congrArg (· + 1) (balanced.left.trans (Nat.zero_add _))
  · obtain ⟨index, here⟩ := Array.mem_iff_getElem?.mp member
    rw [closed] at here
    rw [← ScopeTree.marks_eq here, balanced.marks index]
    exact ScopeTree.marks_addOwner rfl index

end Stackwright

import Stackwright.Proofs.Scope.Chain
import Stackwright.Proofs.Scope.Storage

/-! How the scopes of a program grow. Work in one scope changes the names of that scope and moves its
allocator; whatever it opens it leaves again, and all other scopes and allocators stay as they
were. -/

set_option autoImplicit false

namespace Stackwright

namespace ScopeTree

/-- Nothing that existed was changed. -/
structure Keeps (tree next : ScopeTree) : Prop where
  rooted : next.Rooted
  scopes : ∀ number < tree.scopes.size, next.scopes[number]? = tree.scopes[number]?
  allocators : ∀ index < tree.allocators.size, next.allocators[index]? = tree.allocators[index]?
  opened : tree.scopes.size ≤ next.scopes.size
  created : tree.allocators.size ≤ next.allocators.size

/-- The given scope got more names, its allocator may have moved, and nothing else that existed was
changed. -/
structure Grows (number : Nat) (tree next : ScopeTree) : Prop where
  rooted : next.Rooted
  others : ∀ other < tree.scopes.size, other ≠ number → next.scopes[other]? = tree.scopes[other]?
  own : ∀ {scope : Scope}, tree.scopes[number]? = some scope →
    ∃ names, next.scopes[number]? = some { scope with names := names }
  spared : ∀ index < tree.allocators.size, index ≠ tree.allocatorOf number →
    next.allocators[index]? = tree.allocators[index]?
  moved : ∀ {allocator : Allocator}, tree.allocators[tree.allocatorOf number]? = some allocator →
    ∃ later, next.allocators[tree.allocatorOf number]? = some later ∧ allocator.Extends later
  opened : tree.scopes.size ≤ next.scopes.size
  created : tree.allocators.size ≤ next.allocators.size

/-- The scope exists, and its allocator hands out nothing that a visible name occupies. -/
structure Settled (tree : ScopeTree) (number : Nat) : Prop where
  rooted : tree.Rooted
  isOpen : number < tree.scopes.size
  free : ∀ {allocator : Allocator}, tree.allocators[tree.allocatorOf number]? = some allocator →
    allocator.Counted ∧ ∀ entry ∈ (tree.chain number).flatten, allocator.Spares entry.2

variable {tree next last : ScopeTree} {number : Nat} {scope : Scope} {name : String} {ty : Ty}
  {isMutable : Bool} {binding : Binding}

theorem allocatorOf_eq (found : tree.scopes[number]? = some scope) :
    tree.allocatorOf number = scope.allocator := by
  simp [allocatorOf, found]

theorem Settled.found (settled : tree.Settled number) : ∃ scope, tree.scopes[number]? = some scope :=
  ⟨_, Array.getElem?_eq_getElem settled.isOpen⟩

theorem Settled.allocated (settled : tree.Settled number) :
    ∃ allocator, tree.allocators[tree.allocatorOf number]? = some allocator := by
  obtain ⟨scope, found⟩ := settled.found
  rw [allocatorOf_eq found]
  exact ⟨_, Array.getElem?_eq_getElem (settled.rooted.allocator found)⟩

theorem Keeps.refl (rooted : tree.Rooted) : tree.Keeps tree :=
  ⟨rooted, fun _ _ => rfl, fun _ _ => rfl, Nat.le_refl _, Nat.le_refl _⟩

theorem Keeps.trans (one : tree.Keeps next) (two : next.Keeps last) : tree.Keeps last where
  rooted := two.rooted
  scopes := fun number below =>
    (two.scopes number (Nat.lt_of_lt_of_le below one.opened)).trans (one.scopes number below)
  allocators := fun index below =>
    (two.allocators index (Nat.lt_of_lt_of_le below one.created)).trans (one.allocators index below)
  opened := Nat.le_trans one.opened two.opened
  created := Nat.le_trans one.created two.created

theorem Keeps.grows (keeps : tree.Keeps next) (settled : tree.Settled number) :
    Grows number tree next where
  rooted := keeps.rooted
  others := fun other below _ => keeps.scopes other below
  own := fun {scope} found => ⟨scope.names, by rw [keeps.scopes number settled.isOpen, found]⟩
  spared := fun index below _ => keeps.allocators index below
  moved := fun {allocator} found => by
    have below := (Array.getElem?_eq_some_iff.mp found).1
    exact ⟨allocator, by rw [keeps.allocators _ below, found], .refl allocator⟩
  opened := keeps.opened
  created := keeps.created

theorem Keeps.chain_eq (keeps : tree.Keeps next) (rooted : tree.Rooted) (isOpen : number < tree.scopes.size) :
    next.chain number = tree.chain number :=
  chain_congr rooted fun lower within => keeps.scopes lower (Nat.lt_of_le_of_lt within isOpen)

theorem Keeps.allocatorOf_eq (keeps : tree.Keeps next) (isOpen : number < tree.scopes.size) :
    next.allocatorOf number = tree.allocatorOf number := by
  simp only [allocatorOf, keeps.scopes number isOpen]

theorem Keeps.settled (keeps : tree.Keeps next) (settled : tree.Settled number) :
    next.Settled number where
  rooted := keeps.rooted
  isOpen := Nat.lt_of_lt_of_le settled.isOpen keeps.opened
  free := fun {allocator} found => by
    obtain ⟨allocator', found'⟩ := settled.allocated
    have below := (Array.getElem?_eq_some_iff.mp found').1
    rw [keeps.allocatorOf_eq settled.isOpen, keeps.allocators _ below] at found
    rw [keeps.chain_eq settled.rooted settled.isOpen]
    exact settled.free found

theorem Grows.refl (settled : tree.Settled number) : Grows number tree tree :=
  (Keeps.refl settled.rooted).grows settled

theorem Grows.allocatorOf_eq (grows : Grows number tree next) (settled : tree.Settled number) :
    next.allocatorOf number = tree.allocatorOf number := by
  obtain ⟨scope, found⟩ := settled.found
  obtain ⟨names, found'⟩ := grows.own found
  rw [ScopeTree.allocatorOf_eq found, ScopeTree.allocatorOf_eq found']

theorem Grows.trans (settled : tree.Settled number) (one : Grows number tree next)
    (two : Grows number next last) : Grows number tree last where
  rooted := two.rooted
  others := fun other below differs =>
    (two.others other (Nat.lt_of_lt_of_le below one.opened) differs).trans (one.others other below differs)
  own := fun found => by
    obtain ⟨names, found⟩ := one.own found
    obtain ⟨names', found⟩ := two.own found
    exact ⟨names', found⟩
  spared := fun index below differs => by
    rw [← one.allocatorOf_eq settled] at differs
    rw [two.spared index (Nat.lt_of_lt_of_le below one.created) differs,
      one.spared index below (one.allocatorOf_eq settled ▸ differs)]
  moved := fun found => by
    obtain ⟨between, found, first⟩ := one.moved found
    rw [← one.allocatorOf_eq settled] at found ⊢
    obtain ⟨later, found, second⟩ := two.moved found
    exact ⟨later, found, first.trans second⟩
  opened := Nat.le_trans one.opened two.opened
  created := Nat.le_trans one.created two.created

/-- The allocator of the scope as it is in the end has covered all that it covered before. -/
theorem Grows.extends {allocator later : Allocator} (grows : Grows number tree next)
    (settled : tree.Settled number)
    (before : tree.allocators[tree.allocatorOf number]? = some allocator)
    (after : next.allocators[next.allocatorOf number]? = some later) : allocator.Extends later := by
  rw [grows.allocatorOf_eq settled] at after
  obtain ⟨later', found, larger⟩ := grows.moved before
  cases after.symm.trans found
  exact larger

section Bind

theorem bind?_eq {allocator : Allocator} (found : tree.scopes[number]? = some scope)
    (allocated : tree.allocators[scope.allocator]? = some allocator) :
    tree.bind? number name ty isMutable =
      if (scope.names.lookup name).isSome then none
      else some (allocator.handedOut name ty isMutable,
        { tree with
          scopes := tree.scopes.setIfInBounds number
            { scope with names := (name, allocator.handedOut name ty isMutable) :: scope.names }
          allocators := tree.allocators.setIfInBounds scope.allocator (allocator.afterwards ty) }) := by
  rw [bind?, found]
  simp only [Scope.get?, allocated]
  cases scope.names.lookup name <;> rfl

theorem declares_chain (rooted : tree.Rooted) (found : tree.scopes[number]? = some scope) :
    (tree.chain number).Declares name ↔ (scope.names.lookup name).isSome = true := by
  rw [chain_eq rooted found, ← Option.ne_none_iff_isSome, Ne, Nest.lookup_eq_none_iff, Classical.not_not]
  simp [Nest.Declares]

/-- What binding a name does when the scope does not bind it yet. -/
structure Binds (number : Nat) (name : String) (tree next : ScopeTree) (binding : Binding) : Prop where
  grows : Grows number tree next
  settled : next.Settled number
  chain : next.chain number = (tree.chain number).declare name binding
  apart : ∀ entry ∈ (tree.chain number).flatten, entry.2.Apart binding
  covers : ∀ {allocator : Allocator}, next.allocators[next.allocatorOf number]? = some allocator →
    allocator.Covers binding

theorem bind?_none_iff (settled : tree.Settled number) :
    tree.bind? number name ty isMutable = none ↔ (tree.chain number).Declares name := by
  obtain ⟨scope, found⟩ := settled.found
  obtain ⟨allocator, allocated⟩ := settled.allocated
  rw [allocatorOf_eq found] at allocated
  rw [declares_chain settled.rooted found, bind?_eq found allocated]
  cases (scope.names.lookup name).isSome <;> simp

theorem Rooted.rename {names : List (String × Binding)} (rooted : tree.Rooted)
    (found : tree.scopes[number]? = some scope)
    (renamed : next.scopes[number]? = some { scope with names := names })
    (others : ∀ other, other ≠ number → next.scopes[other]? = tree.scopes[other]?)
    (created : next.allocators.size = tree.allocators.size) : next.Rooted := by
  refine ⟨fun {other} entry here {outer} outside => ?_, fun {other} entry here => created ▸ ?_⟩
  all_goals by_cases same : other = number
  · subst same
    cases renamed.symm.trans here
    exact rooted.parent found outside
  · exact rooted.parent ((others other same).symm.trans here) outside
  · subst same
    cases renamed.symm.trans here
    exact (rooted.allocator found : scope.allocator < _)
  · exact rooted.allocator ((others other same).symm.trans here)

theorem chain_rename (rooted : tree.Rooted) (settled : next.Rooted)
    (found : tree.scopes[number]? = some scope)
    (renamed : next.scopes[number]? = some { scope with names := (name, binding) :: scope.names })
    (others : ∀ other, other ≠ number → next.scopes[other]? = tree.scopes[other]?) :
    next.chain number = (tree.chain number).declare name binding := by
  rw [chain_eq settled renamed, chain_eq rooted found]
  cases outside : scope.parent with
  | none => simp only [Nest.declare]
  | some outer =>
    have lower := rooted.parent found outside
    simp only [Nest.declare, List.cons.injEq, true_and]
    exact chain_congr rooted fun inner within => others inner (by omega)

theorem binds_of_bind? (settled : tree.Settled number)
    (bound : tree.bind? number name ty isMutable = some (binding, next)) :
    Binds number name tree next binding := by
  obtain ⟨scope, found⟩ := settled.found
  obtain ⟨allocator, allocated⟩ := settled.allocated
  obtain ⟨counted, spares⟩ := settled.free allocated
  rw [allocatorOf_eq found] at allocated
  rw [bind?_eq found allocated] at bound
  split at bound
  · cases bound
  cases bound
  have below := settled.rooted.allocator found
  generalize grown : (ScopeTree.mk _ _ _ _) = next
  have renamed : next.scopes[number]? =
      some { scope with names := (name, allocator.handedOut name ty isMutable) :: scope.names } := by
    rw [← grown, Array.getElem?_setIfInBounds_self_of_lt settled.isOpen]
  have others : ∀ other, other ≠ number → next.scopes[other]? = tree.scopes[other]? := by
    intro other differs
    rw [← grown, Array.getElem?_setIfInBounds_ne differs.symm]
  have moved : next.allocators[scope.allocator]? = some (allocator.afterwards ty) := by
    rw [← grown, Array.getElem?_setIfInBounds_self_of_lt below]
  have spared : ∀ index, index ≠ scope.allocator → next.allocators[index]? = tree.allocators[index]? := by
    intro index differs
    rw [← grown, Array.getElem?_setIfInBounds_ne differs.symm]
  have opened : next.scopes.size = tree.scopes.size := by simp [← grown]
  have created : next.allocators.size = tree.allocators.size := by simp [← grown]
  -- Only the names of one scope and its allocator differ, so every chain keeps its scopes.
  have rooted := settled.rooted.rename found renamed others created
  have chain := chain_rename settled.rooted rooted found renamed others
  have owner : next.allocatorOf number = scope.allocator := by rw [allocatorOf_eq renamed]
  refine ⟨⟨rooted, fun other _ differs => others other differs, ?_, ?_, ?_, by omega, by omega⟩,
    ⟨rooted, opened ▸ settled.isOpen, ?_⟩, chain, fun entry member => (spares entry member).apart, ?_⟩
  · intro scope' found'
    cases found.symm.trans found'
    exact ⟨_, renamed⟩
  · intro index _ differs
    exact spared index (allocatorOf_eq found ▸ differs)
  · intro allocator' found'
    rw [allocatorOf_eq found] at found' ⊢
    cases allocated.symm.trans found'
    exact ⟨_, moved, allocator.allocate_extends ty⟩
  · intro allocator' found'
    rw [owner] at found'
    cases moved.symm.trans found'
    refine ⟨counted.allocate, fun entry member => ?_⟩
    rw [chain, Nest.mem_flatten_declare] at member
    rcases member with rfl | member
    · exact allocator.spares_handedOut
    · exact (spares entry member).allocate
  · intro allocator' found'
    rw [owner] at found'
    cases moved.symm.trans found'
    exact counted.covers

end Bind

section Nested

variable {parent : Option Nat} {kind : Scope.Kind} {index : Nat}

theorem getElem?_addScope_lt (isOpen : number < tree.scopes.size) :
    (tree.addScope kind parent index).2.scopes[number]? = tree.scopes[number]? :=
  Array.getElem?_push_lt isOpen ▸ (Array.getElem?_eq_getElem isOpen).symm

theorem getElem?_addScope_size :
    (tree.addScope kind parent index).2.scopes[tree.scopes.size]? = some ⟨kind, parent, [], index⟩ :=
  Array.getElem?_push_size

theorem Rooted.addScope (rooted : tree.Rooted) (below : ∀ {outer : Nat}, parent = some outer → outer < tree.scopes.size)
    (present : index < tree.allocators.size) : (tree.addScope kind parent index).2.Rooted := by
  refine ⟨fun {number} scope here {outer} outside => ?_, fun {number} scope here => ?_⟩
  all_goals
    have bound : number < tree.scopes.size + 1 := by
      simpa [ScopeTree.addScope] using (Array.getElem?_eq_some_iff.mp here).1
    by_cases isOpen : number < tree.scopes.size
  · exact rooted.parent ((getElem?_addScope_lt isOpen).symm.trans here) outside
  · obtain rfl : number = tree.scopes.size := by omega
    cases getElem?_addScope_size.symm.trans here
    exact below outside
  · exact rooted.allocator ((getElem?_addScope_lt isOpen).symm.trans here)
  · obtain rfl : number = tree.scopes.size := by omega
    cases getElem?_addScope_size.symm.trans here
    exact present

theorem chain_addScope {outer : Nat} (rooted : tree.Rooted) (isOpen : outer < tree.scopes.size)
    (present : index < tree.allocators.size) :
    (tree.addScope kind (some outer) index).2.chain tree.scopes.size = [] :: tree.chain outer := by
  have below : ∀ {other : Nat}, some outer = some other → other < tree.scopes.size := by
    rintro _ ⟨⟩
    exact isOpen
  rw [chain_eq (rooted.addScope below present) getElem?_addScope_size]
  simp only [List.cons.injEq, true_and]
  exact chain_congr rooted fun lower within => getElem?_addScope_lt (by omega)

theorem Rooted.congr (rooted : tree.Rooted) (scopes : next.scopes = tree.scopes)
    (created : next.allocators.size = tree.allocators.size) : next.Rooted :=
  ⟨fun here => rooted.parent (scopes ▸ here), fun here => created ▸ rooted.allocator (scopes ▸ here)⟩

/-- The tree in which a nested scope is about to be opened: its storage is marked. -/
abbrev marked (tree : ScopeTree) (number : Nat) : ScopeTree :=
  { tree with allocators := tree.allocators.modify (tree.allocatorOf number) Allocator.save }

theorem marked_rooted (rooted : tree.Rooted) (number : Nat) : (tree.marked number).Rooted :=
  rooted.congr rfl Array.size_modify

theorem openNested_eq (tree : ScopeTree) (number : Nat) :
    tree.openNested number = (tree.marked number).addScope .nested (some number) (tree.allocatorOf number) :=
  rfl

variable {allocator : Allocator}

theorem openNested_allocator (found : tree.allocators[tree.allocatorOf number]? = some allocator) :
    (tree.openNested number).2.allocators[tree.allocatorOf number]? = some allocator.save := by
  simp only [openNested_eq, ScopeTree.addScope, Array.getElem?_modify, if_true, found, Option.map_some]

theorem openNested_spared {other : Nat} (differs : other ≠ tree.allocatorOf number) :
    (tree.openNested number).2.allocators[other]? = tree.allocators[other]? := by
  simp only [openNested_eq, ScopeTree.addScope, Array.getElem?_modify, if_neg differs.symm]

theorem Settled.allocatorOf_lt (settled : tree.Settled number) :
    tree.allocatorOf number < tree.allocators.size := by
  obtain ⟨scope, found⟩ := settled.found
  exact allocatorOf_eq found ▸ settled.rooted.allocator found

theorem openNested_rooted (settled : tree.Settled number) : (tree.openNested number).2.Rooted := by
  refine (marked_rooted settled.rooted number).addScope ?_ ?_
  · rintro _ ⟨⟩
    exact settled.isOpen
  · simpa using settled.allocatorOf_lt

theorem openNested_allocatorOf (tree : ScopeTree) (number : Nat) :
    (tree.openNested number).2.allocatorOf tree.scopes.size = tree.allocatorOf number := by
  rw [allocatorOf_eq (openNested_eq tree number ▸ getElem?_addScope_size)]

theorem openNested_chain (settled : tree.Settled number) :
    (tree.openNested number).2.chain tree.scopes.size = [] :: tree.chain number := by
  have present : tree.allocatorOf number < (tree.marked number).allocators.size := by
    simpa using settled.allocatorOf_lt
  rw [openNested_eq]
  refine (chain_addScope (marked_rooted settled.rooted number) settled.isOpen present).trans ?_
  exact congrArg _ (chain_congr settled.rooted fun _ _ => rfl)

theorem openNested_settled (settled : tree.Settled number) :
    (tree.openNested number).2.Settled tree.scopes.size := by
  refine ⟨openNested_rooted settled, by simp [openNested_eq, ScopeTree.addScope], fun {saved} found => ?_⟩
  obtain ⟨allocator, allocated⟩ := settled.allocated
  rw [openNested_allocatorOf, openNested_allocator allocated] at found
  cases found
  obtain ⟨counted, spares⟩ := settled.free allocated
  refine ⟨counted, fun entry member => spares entry ?_⟩
  rwa [openNested_chain settled, List.flatten_cons, List.nil_append] at member

/-- Leaving gives back what the nested scope and everything inside it had used. -/
theorem leave_allocator (allocated : tree.allocators[tree.allocatorOf number]? = some allocator)
    (grows : Grows tree.scopes.size (tree.openNested number).2 last) :
    ∃ later, (last.leave tree.scopes.size).allocators[tree.allocatorOf number]? = some later ∧
      allocator.Extends later ∧ later.current = allocator.current := by
  obtain ⟨names, here⟩ := grows.own getElem?_addScope_size
  obtain ⟨later, found, larger⟩ := grows.moved
    ((openNested_allocatorOf tree number).symm ▸ openNested_allocator allocated)
  rw [openNested_allocatorOf] at found
  simp only [leave, here, Array.getElem?_modify, if_true, found, Option.map_some, Option.some.injEq,
    exists_eq_left', Allocator.restore, larger.bookmarks, Allocator.save]
  exact ⟨⟨⟨larger.base, larger.direction, larger.start, larger.peak⟩, rfl⟩, trivial⟩

theorem leave_spared {other : Nat} (grows : Grows tree.scopes.size (tree.openNested number).2 last)
    (present : other < tree.allocators.size) (differs : other ≠ tree.allocatorOf number) :
    (last.leave tree.scopes.size).allocators[other]? = tree.allocators[other]? := by
  obtain ⟨names, here⟩ := grows.own getElem?_addScope_size
  simp only [leave, here, Array.getElem?_modify, if_neg differs.symm]
  rw [grows.spared other (by simpa [openNested_eq, ScopeTree.addScope] using present)
    (openNested_allocatorOf tree number ▸ differs), openNested_spared differs]

theorem leave_scopes (tree : ScopeTree) (number : Nat) : (tree.leave number).scopes = tree.scopes := rfl

theorem leave_created (tree : ScopeTree) (number : Nat) :
    (tree.leave number).allocators.size = tree.allocators.size := by
  unfold leave
  split <;> simp

theorem leave_rooted (rooted : tree.Rooted) (number : Nat) : (tree.leave number).Rooted :=
  rooted.congr rfl (leave_created tree number)

/-- What is left of a nested scope: nothing but a higher peak. -/
structure Returns (number : Nat) (tree next : ScopeTree) : Prop where
  grows : Grows number tree next
  settled : next.Settled number
  chain : next.chain number = tree.chain number

theorem returns_leave (settled : tree.Settled number)
    (grows : Grows tree.scopes.size (tree.openNested number).2 last) :
    Returns number tree (last.leave tree.scopes.size) := by
  have wider : tree.scopes.size + 1 ≤ last.scopes.size := by
    simpa [openNested_eq, ScopeTree.addScope] using grows.opened
  have more : tree.allocators.size ≤ (last.leave tree.scopes.size).allocators.size := by
    rw [leave_created]
    simpa [openNested_eq, ScopeTree.addScope] using grows.created
  have rooted := leave_rooted grows.rooted tree.scopes.size
  have same : ∀ other < tree.scopes.size,
      (last.leave tree.scopes.size).scopes[other]? = tree.scopes[other]? := by
    intro other isOpen
    rw [leave_scopes, grows.others other (by simp [openNested_eq, ScopeTree.addScope]; omega) (by omega)]
    exact getElem?_addScope_lt isOpen
  have chain : (last.leave tree.scopes.size).chain number = tree.chain number :=
    chain_congr settled.rooted fun lower within => same lower (Nat.lt_of_le_of_lt within settled.isOpen)
  have owner : (last.leave tree.scopes.size).allocatorOf number = tree.allocatorOf number := by
    simp only [allocatorOf, same number settled.isOpen]
  refine ⟨⟨rooted, fun other isOpen _ => same other isOpen, ?_, ?_, ?_, ?_, more⟩, ⟨rooted, ?_, ?_⟩, chain⟩
  · intro scope found
    exact ⟨scope.names, by rw [same number settled.isOpen, found]⟩
  · exact fun index present differs => leave_spared grows present differs
  · intro allocator allocated
    obtain ⟨later, found, larger, _⟩ := leave_allocator allocated grows
    exact ⟨later, found, larger⟩
  · rw [leave_scopes]
    omega
  · have isOpen := settled.isOpen
    rw [leave_scopes]
    omega
  · intro later found
    obtain ⟨allocator, allocated⟩ := settled.allocated
    obtain ⟨later', found', larger, back⟩ := leave_allocator allocated grows
    rw [owner] at found
    cases found.symm.trans found'
    obtain ⟨counted, spares⟩ := settled.free allocated
    refine ⟨counted.again larger back, fun entry member => (spares entry (chain ▸ member)).again larger back⟩

/-- The allocator of a scope never had more in use than lies in the area. -/
def Bounded (tree : ScopeTree) (number : Nat) (area : Allocator) : Prop :=
  ∀ {allocator : Allocator}, tree.allocators[tree.allocatorOf number]? = some allocator →
    allocator.Within area

theorem Bounded.before {area : Allocator} (bounded : next.Bounded number area)
    (grows : Grows number tree next) (settled : tree.Settled number) : tree.Bounded number area := by
  intro allocator found
  obtain ⟨later, found', larger⟩ := grows.moved found
  rw [← grows.allocatorOf_eq settled] at found'
  exact larger.toWithin.trans (bounded found')

theorem Bounded.inside {area : Allocator} (settled : tree.Settled number)
    (grows : Grows tree.scopes.size (tree.openNested number).2 last)
    (bounded : (last.leave tree.scopes.size).Bounded number area) : last.Bounded tree.scopes.size area := by
  intro allocator found
  obtain ⟨names, here⟩ := grows.own getElem?_addScope_size
  have owner : last.allocatorOf tree.scopes.size = tree.allocatorOf number := by rw [allocatorOf_eq here]
  have around : (last.leave tree.scopes.size).allocatorOf number = tree.allocatorOf number :=
    (returns_leave settled grows).grows.allocatorOf_eq settled
  rw [owner] at found
  apply Allocator.within_of_restore
  apply bounded
  rw [around]
  simp only [leave, here, Array.getElem?_modify, if_true, found, Option.map_some]

end Nested

section Owner

variable {outer : Nat} {kind : Scope.Kind} {allocator : Allocator}

/-- The tree with one more allocator, which no scope uses yet. -/
abbrev supplied (tree : ScopeTree) (allocator : Allocator) : ScopeTree :=
  { tree with allocators := tree.allocators.push allocator }

theorem addOwner_eq (tree : ScopeTree) (kind : Scope.Kind) (outer : Nat) (allocator : Allocator) :
    tree.addOwner kind (some outer) allocator =
      (tree.supplied allocator).addScope kind (some outer) tree.allocators.size := rfl

theorem supplied_rooted (rooted : tree.Rooted) (allocator : Allocator) : (tree.supplied allocator).Rooted :=
  ⟨rooted.parent, fun here => by
    have present := rooted.allocator here
    simp only [Array.size_push]
    omega⟩

theorem addOwner_rooted (rooted : tree.Rooted) (isOpen : outer < tree.scopes.size) :
    (tree.addOwner kind (some outer) allocator).2.Rooted := by
  refine (supplied_rooted rooted allocator).addScope ?_ (by simp)
  rintro _ ⟨⟩
  exact isOpen

theorem addOwner_chain (rooted : tree.Rooted) (isOpen : outer < tree.scopes.size) :
    (tree.addOwner kind (some outer) allocator).2.chain tree.scopes.size = [] :: tree.chain outer := by
  rw [addOwner_eq]
  refine (chain_addScope (supplied_rooted rooted allocator) isOpen (by simp)).trans ?_
  exact congrArg _ (chain_congr rooted fun _ _ => rfl)

theorem addOwner_allocatorOf (tree : ScopeTree) (kind : Scope.Kind) (outer : Nat) (allocator : Allocator) :
    (tree.addOwner kind (some outer) allocator).2.allocatorOf tree.scopes.size = tree.allocators.size := by
  rw [allocatorOf_eq (addOwner_eq tree kind outer allocator ▸ getElem?_addScope_size)]

theorem addOwner_allocator (tree : ScopeTree) (kind : Scope.Kind) (outer : Nat) (allocator : Allocator) :
    (tree.addOwner kind (some outer) allocator).2.allocators[tree.allocators.size]? = some allocator := by
  simp [addOwner_eq, ScopeTree.addScope]

theorem addOwner_settled (rooted : tree.Rooted) (isOpen : outer < tree.scopes.size)
    (counted : allocator.Counted) (spares : ∀ entry ∈ (tree.chain outer).flatten, allocator.Spares entry.2) :
    (tree.addOwner kind (some outer) allocator).2.Settled tree.scopes.size := by
  refine ⟨addOwner_rooted rooted isOpen, by simp [addOwner_eq, ScopeTree.addScope], fun found => ?_⟩
  rw [addOwner_allocatorOf, addOwner_allocator] at found
  cases found
  refine ⟨counted, fun entry member => spares entry ?_⟩
  rwa [addOwner_chain rooted isOpen, List.flatten_cons, List.nil_append] at member

theorem leave_allocators (here : tree.scopes[number]? = some scope) (owns : scope.kind ≠ .nested) :
    (tree.leave number).allocators = tree.allocators := by
  obtain ⟨kind, parent, names, allocator⟩ := scope
  rw [leave, here]
  cases kind with
  | nested => exact absurd rfl owns
  | _ => rfl

theorem allocatedSize_eq (found : tree.allocators[tree.allocatorOf number]? = some allocator) :
    tree.allocatedSize number = allocator.peak := by
  rw [allocatedSize, found, Option.map_some, Option.getD_some]

/-- The allocator of such a scope in the end. -/
theorem grown_allocator (owns : kind ≠ .nested)
    (grows : Grows tree.scopes.size (tree.addOwner kind (some outer) allocator).2 last) :
    ∃ later, last.allocators[last.allocatorOf tree.scopes.size]? = some later ∧ allocator.Extends later ∧
      (last.leave tree.scopes.size).allocatorOf tree.scopes.size = tree.allocators.size ∧
      (last.leave tree.scopes.size).allocatedSize tree.scopes.size = later.peak := by
  obtain ⟨names, here⟩ := grows.own getElem?_addScope_size
  have owner := addOwner_allocatorOf tree kind outer allocator
  have owned : last.allocatorOf tree.scopes.size = tree.allocators.size := by rw [allocatorOf_eq here]
  obtain ⟨later, found, larger⟩ := grows.moved
    (owner.symm ▸ addOwner_allocator tree kind outer allocator)
  rw [owner] at found
  refine ⟨later, owned ▸ found, larger, owned, allocatedSize_eq ?_⟩
  rw [leave_allocators here owns]
  exact owned ▸ found

/-- Work in a scope with an allocator of its own leaves everything older alone. -/
theorem keeps_leave (owns : kind ≠ .nested)
    (grows : Grows tree.scopes.size (tree.addOwner kind (some outer) allocator).2 last) :
    tree.Keeps (last.leave tree.scopes.size) := by
  have wider : tree.scopes.size + 1 ≤ last.scopes.size := by
    simpa [addOwner_eq, ScopeTree.addScope] using grows.opened
  have more : tree.allocators.size + 1 ≤ last.allocators.size := by
    simpa [addOwner_eq, ScopeTree.addScope] using grows.created
  have owner := addOwner_allocatorOf tree kind outer allocator
  refine ⟨leave_rooted grows.rooted _, fun number isOpen => ?_, fun index present => ?_, ?_, ?_⟩
  · rw [leave_scopes, grows.others number (by simp [addOwner_eq, ScopeTree.addScope]; omega) (by omega)]
    exact getElem?_addScope_lt isOpen
  · obtain ⟨names, here⟩ := grows.own getElem?_addScope_size
    have spared := grows.spared index (by simp [addOwner_eq, ScopeTree.addScope]; omega) (by omega)
    rw [addOwner_eq] at spared
    simp only [ScopeTree.addScope, Array.getElem?_push_lt present] at spared
    rw [leave_allocators here owns]
    exact spared.trans (Array.getElem?_eq_getElem present).symm
  · rw [leave_scopes]
    omega
  · rw [leave_created]
    omega

theorem Keeps.allocatedSize_eq (keeps : tree.Keeps next) (rooted : tree.Rooted)
    (isOpen : number < tree.scopes.size) : next.allocatedSize number = tree.allocatedSize number := by
  have found := Array.getElem?_eq_getElem isOpen
  have present := ScopeTree.allocatorOf_eq found ▸ rooted.allocator found
  simp only [allocatedSize, keeps.allocatorOf_eq isOpen, keeps.allocators _ present]

theorem Grows.allocatedSize_eq {other : Nat} (grows : Grows number tree next) (rooted : tree.Rooted)
    (isOpen : other < tree.scopes.size) (differs : other ≠ number)
    (apart : tree.allocatorOf other ≠ tree.allocatorOf number) :
    next.allocatedSize other = tree.allocatedSize other := by
  have found := Array.getElem?_eq_getElem isOpen
  have present := ScopeTree.allocatorOf_eq found ▸ rooted.allocator found
  have same : next.allocatorOf other = tree.allocatorOf other := by
    simp only [allocatorOf, grows.others other isOpen differs]
  simp only [allocatedSize, same, grows.spared _ present apart]

end Owner

end ScopeTree

end Stackwright

import Stackwright.Proofs.Scope.Cells

/-! Who owns the storage of a scope. The program, the parameters of a function and its body have
storage of their own, and a nested scope takes its from the scope around it. In whatever order scopes
are opened, added to and left, every name keeps its storage in the area of the owner. -/

set_option autoImplicit false

namespace Stackwright

/-- The allocator that a scope of the kind is opened with, if it has one of its own. -/
def Scope.Kind.allocator? : Scope.Kind → Option Allocator
  | .program => some (.starting .global .upward 0)
  | .parameters => some (.starting .frame .upward 0)
  | .procedure => some (.starting .frame .downward (-ScopeTree.linkageSize))
  | .nested => none

namespace Allocator

variable {allocator next : Allocator} {size : Nat}

/-- The current offset is counted, and so is every offset that may be gone back to. -/
def Orderly (allocator : Allocator) : Prop :=
  ∀ offset ∈ allocator.current :: allocator.bookmarks, { allocator with current := offset }.Counted

theorem Orderly.counted (orderly : allocator.Orderly) : allocator.Counted :=
  orderly allocator.current List.mem_cons_self

theorem orderly_starting (base : Base) (direction : Direction) (start : Int) :
    (Allocator.starting base direction start).Orderly := by
  intro offset member
  obtain rfl := List.mem_singleton.mp member
  cases direction <;> simp [Counted, starting]

theorem Orderly.save (orderly : allocator.Orderly) : allocator.save.Orderly := by
  intro offset member
  exact orderly offset (by simpa [Allocator.save] using member)

theorem Orderly.restore (orderly : allocator.Orderly) : allocator.restore.Orderly := by
  obtain ⟨base, direction, start, current, peak, bookmarks⟩ := allocator
  cases bookmarks with
  | nil => exact orderly
  | cons offset bookmarks => exact fun other member => orderly other (List.mem_cons_of_mem _ member)

theorem Orderly.afterwards {ty : Ty} (orderly : allocator.Orderly) : (allocator.afterwards ty).Orderly := by
  intro offset member
  rcases List.mem_cons.mp member with rfl | member
  · exact orderly.counted.allocate
  · -- An earlier offset was counted already, and the peak has only risen since.
    have earlier := orderly offset (List.mem_cons_of_mem _ member)
    have raised := (allocator.allocate_extends ty).peak
    unfold Counted at earlier ⊢
    cases toward : allocator.direction <;>
      simp only [Allocator.afterwards, Allocator.allocate, toward] at earlier raised ⊢ <;> omega

theorem within_save (allocator : Allocator) : allocator.Within allocator.save :=
  ⟨rfl, rfl, rfl, Nat.le_refl _⟩

theorem within_restore (allocator : Allocator) : allocator.Within allocator.restore := by
  unfold restore
  split <;> exact ⟨rfl, rfl, rfl, Nat.le_refl _⟩

end Allocator

namespace ScopeTree

/-- The scope whose storage a scope uses: a nested scope uses that of the scope around it. -/
inductive OwnedBy (tree : ScopeTree) : (number owner : Nat) → Prop where
  | itself {number : Nat} {scope : Scope} : tree.scopes[number]? = some scope → scope.kind ≠ .nested →
      OwnedBy tree number number
  | nested {number outer owner : Nat} {scope : Scope} : tree.scopes[number]? = some scope →
      scope.kind = .nested → scope.parent = some outer → OwnedBy tree outer owner →
      OwnedBy tree number owner

/-- The bytes of a binding lie in the area of a scope with storage of its own: global variables from
the start of the global block, parameters upward from the frame pointer, and the local variables of a
function body below the linkage. -/
def Holds (tree : ScopeTree) (owner : Nat) (own : Scope) (binding : Binding) : Prop :=
  match own.kind with
  | .program => binding.location.base = .global ∧ 0 ≤ binding.location.offset ∧
      binding.location.offset + binding.ty.size ≤ tree.allocatedSize owner
  | .parameters => binding.location.base = .frame ∧ 0 ≤ binding.location.offset ∧
      binding.location.offset + binding.ty.size ≤ Ty.totalSize (own.names.map fun entry => entry.2.ty)
  | .procedure => binding.location.base = .frame ∧
      -(linkageSize : Int) - tree.allocatedSize owner ≤ binding.location.offset ∧
      binding.location.offset + binding.ty.size ≤ -(linkageSize : Int)
  | .nested => False

/-- What there was is still there; scopes may have got more names, and allocators may have moved. -/
structure Later (tree next : ScopeTree) : Prop where
  scopes : ∀ {number : Nat} {scope : Scope}, tree.scopes[number]? = some scope →
    ∃ names, next.scopes[number]? = some { scope with names := names }
  allocators : ∀ {index : Nat} {allocator : Allocator}, tree.allocators[index]? = some allocator →
    ∃ later, next.allocators[index]? = some later ∧ allocator.Within later

/-- A scope with its owner and the allocator that both use, which has had all its names in use. -/
structure Stored (tree : ScopeTree) (number : Nat) (scope : Scope) (owner : Nat) (own : Scope)
    (allocator : Allocator) : Prop where
  owned : tree.OwnedBy number owner
  found : tree.scopes[owner]? = some own
  shared : scope.allocator = own.allocator
  allocated : tree.allocators[own.allocator]? = some allocator
  starts : ∃ first, own.kind.allocator? = some first ∧ first.Within allocator
  covers : ∀ entry ∈ scope.names, allocator.Covers entry.2
  alone : own.kind = .parameters → number = owner

/-- Every scope has an owner, no two owners share an allocator, and the parameters of a function lie
without gaps. -/
structure Orderly (tree : ScopeTree) : Prop where
  rooted : tree.Rooted
  counted : ∀ {index : Nat} {allocator : Allocator}, tree.allocators[index]? = some allocator →
    allocator.Orderly
  stored : ∀ {number : Nat} {scope : Scope}, tree.scopes[number]? = some scope →
    ∃ owner own allocator, tree.Stored number scope owner own allocator
  unique : ∀ {one other : Nat} {first second : Scope}, tree.scopes[one]? = some first →
    tree.scopes[other]? = some second → first.kind ≠ .nested → second.kind ≠ .nested →
    first.allocator = second.allocator → one = other
  tight : ∀ {number : Nat} {scope : Scope} {allocator : Allocator}, tree.scopes[number]? = some scope →
    scope.kind = .parameters → tree.allocators[scope.allocator]? = some allocator →
    allocator.current = Ty.totalSize (scope.names.map fun entry => entry.2.ty) ∧
      allocator.peak = Ty.totalSize (scope.names.map fun entry => entry.2.ty) ∧ allocator.bookmarks = []

variable {tree next : ScopeTree} {number owner : Nat} {scope own : Scope} {allocator : Allocator}

theorem Later.refl (tree : ScopeTree) : tree.Later tree :=
  ⟨fun {_ scope} found => ⟨scope.names, found⟩,
    fun {_ allocator} found => ⟨allocator, found, (Allocator.Extends.refl allocator).toWithin⟩⟩

theorem Later.trans {last : ScopeTree} (one : tree.Later next) (two : next.Later last) :
    tree.Later last := by
  constructor
  · intro number scope found
    obtain ⟨names, found⟩ := one.scopes found
    obtain ⟨names', found⟩ := two.scopes found
    exact ⟨names', found⟩
  · intro index allocator found
    obtain ⟨between, found, wider⟩ := one.allocators found
    obtain ⟨later, found, wider'⟩ := two.allocators found
    exact ⟨later, found, wider.trans wider'⟩

theorem OwnedBy.eq_of_owns (owned : tree.OwnedBy number owner) (found : tree.scopes[number]? = some scope)
    (owns : scope.kind ≠ .nested) : owner = number := by
  cases owned with
  | itself => rfl
  | nested found' kind =>
    cases found.symm.trans found'
    exact absurd kind owns

theorem OwnedBy.owns (owned : tree.OwnedBy number owner) (found : tree.scopes[owner]? = some own) :
    own.kind ≠ .nested := by
  induction owned with
  | itself found' owns =>
    cases found.symm.trans found'
    exact owns
  | nested _ _ _ _ ih => exact ih found

theorem OwnedBy.later (owned : tree.OwnedBy number owner) (later : tree.Later next) :
    next.OwnedBy number owner := by
  induction owned with
  | itself found owns =>
    obtain ⟨names, found⟩ := later.scopes found
    exact .itself found owns
  | nested found kind outside _ ih =>
    obtain ⟨names, found⟩ := later.scopes found
    exact .nested found kind outside ih

theorem Stored.later (stored : tree.Stored number scope owner own allocator) (later : tree.Later next) :
    ∃ own' allocator', next.Stored number scope owner own' allocator' := by
  obtain ⟨names, found⟩ := later.scopes stored.found
  obtain ⟨allocator', allocated, wider⟩ := later.allocators stored.allocated
  obtain ⟨first, start, within⟩ := stored.starts
  exact ⟨_, allocator', stored.owned.later later, found, stored.shared, allocated,
    ⟨first, start, within.trans wider⟩, fun entry member => (stored.covers entry member).mono wider,
    stored.alone⟩

theorem Orderly.allocated (orderly : tree.Orderly) (found : tree.scopes[number]? = some scope) :
    ∃ allocator, tree.allocators[scope.allocator]? = some allocator :=
  ⟨_, Array.getElem?_eq_getElem (orderly.rooted.allocator found)⟩

/-- The parameters of a function share their storage with no other scope. -/
theorem Orderly.apart {other : Nat} {parameters : Scope} (orderly : tree.Orderly)
    (found : tree.scopes[number]? = some parameters) (kind : parameters.kind = .parameters)
    (found' : tree.scopes[other]? = some scope) (differs : other ≠ number) :
    parameters.allocator ≠ scope.allocator := by
  intro same
  obtain ⟨owner, own, allocator, stored⟩ := orderly.stored found'
  have first : number = owner := orderly.unique found stored.found (by simp [kind])
    (stored.owned.owns stored.found) (same.trans stored.shared)
  subst first
  cases found.symm.trans stored.found
  exact differs (stored.alone kind)

/-- A scope with storage of its own keeps the base, the direction and the start of that storage. -/
theorem Orderly.within_of_owns {first : Allocator} (orderly : tree.Orderly)
    (found : tree.scopes[number]? = some scope) (start : scope.kind.allocator? = some first)
    (allocated : tree.allocators[scope.allocator]? = some allocator) : first.Within allocator := by
  obtain ⟨owner, own, allocator', stored⟩ := orderly.stored found
  have owns : scope.kind ≠ .nested := fun nested => by simp [nested, Scope.Kind.allocator?] at start
  obtain rfl := stored.owned.eq_of_owns found owns
  cases found.symm.trans stored.found
  cases allocated.symm.trans stored.allocated
  obtain ⟨first', start', within⟩ := stored.starts
  cases start.symm.trans start'
  exact within

section Opening

variable {kind : Scope.Kind} {parent : Option Nat} {index outer : Nat} {first : Allocator}

theorem of_getElem?_addScope (found : (tree.addScope kind parent index).2.scopes[number]? = some scope) :
    tree.scopes[number]? = some scope ∨ number = tree.scopes.size ∧ scope = ⟨kind, parent, [], index⟩ := by
  rw [addScope, Array.getElem?_push] at found
  split at found
  · next last => exact .inr ⟨last, (Option.some.inj found).symm⟩
  · exact .inl found

theorem getElem?_addScope (found : tree.scopes[number]? = some scope) :
    (tree.addScope kind parent index).2.scopes[number]? = some scope :=
  (getElem?_addScope_lt (Array.getElem?_eq_some_iff.mp found).1).trans found

theorem addOwner_allocators (tree : ScopeTree) (kind : Scope.Kind) (parent : Option Nat) (first : Allocator) :
    (tree.addOwner kind parent first).2.allocators = tree.allocators.push first := rfl

theorem of_getElem?_push {values : Array Allocator} (found : (values.push first)[index]? = some allocator) :
    values[index]? = some allocator ∨ index = values.size ∧ allocator = first := by
  rw [Array.getElem?_push] at found
  split at found
  · next last => exact .inr ⟨last, (Option.some.inj found).symm⟩
  · exact .inl found

theorem getElem?_push {values : Array Allocator} (found : values[index]? = some allocator) :
    (values.push first)[index]? = some allocator := by
  obtain ⟨below, same⟩ := Array.getElem?_eq_some_iff.mp found
  rw [Array.getElem?_push_lt below, same]

theorem later_addOwner (tree : ScopeTree) (kind : Scope.Kind) (parent : Option Nat) (first : Allocator) :
    tree.Later (tree.addOwner kind parent first).2 := by
  constructor
  · intro number scope found
    exact ⟨scope.names, getElem?_addScope found⟩
  · intro index allocator found
    exact ⟨allocator, getElem?_push found, (Allocator.Extends.refl allocator).toWithin⟩

/-- Opening a scope with storage of its own. -/
theorem Orderly.addOwner (orderly : tree.Orderly) (below : outer < tree.scopes.size)
    (start : kind.allocator? = some first) : (tree.addOwner kind (some outer) first).2.Orderly := by
  have owns : kind ≠ .nested := fun nested => by simp [nested, Scope.Kind.allocator?] at start
  have later := later_addOwner tree kind (some outer) first
  constructor
  case rooted => exact addOwner_rooted orderly.rooted below
  case counted =>
    intro index allocator found
    rcases of_getElem?_push found with found | ⟨_, rfl⟩
    · exact orderly.counted found
    · cases kind <;> cases start
      all_goals exact Allocator.orderly_starting _ _ _
  case stored =>
    intro number scope found
    rcases of_getElem?_addScope found with older | ⟨rfl, rfl⟩
    · obtain ⟨owner, own, allocator, stored⟩ := orderly.stored older
      obtain ⟨own', allocator', stored'⟩ := stored.later later
      exact ⟨owner, own', allocator', stored'⟩
    · exact ⟨_, _, first, .itself found owns, found, rfl, Array.getElem?_push_size,
        ⟨first, start, (Allocator.Extends.refl first).toWithin⟩, nofun, fun _ => rfl⟩
  case unique =>
    intro one other scope scope' found found' kind kind' same
    rcases of_getElem?_addScope found with older | ⟨rfl, rfl⟩ <;>
      rcases of_getElem?_addScope found' with older' | ⟨rfl, rfl⟩
    · exact orderly.unique older older' kind kind' same
    · exact absurd (orderly.rooted.allocator older) (by simp [same])
    · exact absurd (orderly.rooted.allocator older') (by simp [← same])
    · rfl
  case tight =>
    intro number scope allocator found parameters allocated
    rcases of_getElem?_addScope found with older | ⟨rfl, rfl⟩
    · obtain ⟨allocator', allocated'⟩ := orderly.allocated older
      cases allocated.symm.trans (getElem?_push allocated')
      exact orderly.tight older parameters allocated'
    · cases parameters
      cases start
      cases Array.getElem?_push_size.symm.trans allocated
      exact ⟨rfl, rfl, rfl⟩

theorem later_openNested (tree : ScopeTree) (number : Nat) : tree.Later (tree.openNested number).2 := by
  constructor
  · intro other scope found
    exact ⟨scope.names, getElem?_addScope found⟩
  · intro index allocator found
    by_cases same : index = tree.allocatorOf number
    · subst same
      exact ⟨allocator.save, openNested_allocator found, allocator.within_save⟩
    · exact ⟨allocator, (openNested_spared same).trans found, (Allocator.Extends.refl allocator).toWithin⟩

/-- Opening a scope that shares the storage of the scope around it. -/
theorem Orderly.openNested (orderly : tree.Orderly) (around : tree.scopes[number]? = some scope)
    (kind : scope.kind ≠ .parameters) : (tree.openNested number).2.Orderly := by
  have shared := allocatorOf_eq around
  have later := later_openNested tree number
  have present := orderly.rooted.allocator around
  have below := (Array.getElem?_eq_some_iff.mp around).1
  constructor
  case rooted =>
    refine (marked_rooted orderly.rooted number).addScope ?_ (by simpa [shared] using present)
    rintro _ ⟨⟩
    exact below
  case counted =>
    intro index allocator found
    by_cases same : index = tree.allocatorOf number
    · obtain ⟨allocator', allocated⟩ := orderly.allocated around
      rw [same, openNested_allocator (shared ▸ allocated)] at found
      cases found
      exact (orderly.counted allocated).save
    · rw [openNested_spared same] at found
      exact orderly.counted found
  case stored =>
    intro other entry found
    rcases of_getElem?_addScope found with older | ⟨rfl, rfl⟩
    · obtain ⟨owner, own, allocator, stored⟩ := orderly.stored older
      obtain ⟨own', allocator', stored'⟩ := stored.later later
      exact ⟨owner, own', allocator', stored'⟩
    · obtain ⟨owner, own, allocator, stored⟩ := orderly.stored around
      obtain ⟨own', allocator', stored'⟩ := stored.later later
      refine ⟨owner, own', allocator', .nested found rfl rfl stored'.owned, stored'.found, ?_,
        stored'.allocated, stored'.starts, nofun, fun parameters => ?_⟩
      · exact shared.trans stored'.shared
      · obtain rfl := stored'.alone parameters
        obtain ⟨names, found⟩ := later.scopes around
        cases found.symm.trans stored'.found
        exact absurd parameters kind
  case unique =>
    intro one other first second found found' owns owns' same
    rcases of_getElem?_addScope found with older | ⟨_, rfl⟩
    · rcases of_getElem?_addScope found' with older' | ⟨_, rfl⟩
      · exact orderly.unique older older' owns owns' same
      · exact absurd rfl owns'
    · exact absurd rfl owns
  case tight =>
    intro other entry allocator found parameters allocated
    rcases of_getElem?_addScope found with older | ⟨_, rfl⟩
    · have differs : number ≠ other := by
        rintro rfl
        cases around.symm.trans older
        exact kind parameters
      rw [openNested_spared (shared ▸ orderly.apart older parameters around differs)] at allocated
      exact orderly.tight older parameters allocated
    · cases parameters

end Opening

section Leaving

theorem leave_getElem? (tree : ScopeTree) (number index : Nat) :
    (tree.leave number).allocators[index]? = tree.allocators[index]? ∨
      (tree.leave number).allocators[index]? = tree.allocators[index]?.map Allocator.restore := by
  unfold leave
  split
  · simp only [Array.getElem?_modify]
    split
    · exact .inr rfl
    · exact .inl rfl
  · exact .inl rfl

theorem later_leave (tree : ScopeTree) (number : Nat) : tree.Later (tree.leave number) := by
  constructor
  · intro other scope found
    exact ⟨scope.names, found⟩
  · intro index allocator found
    rcases tree.leave_getElem? number index with same | restored
    · exact ⟨allocator, same.trans found, (Allocator.Extends.refl allocator).toWithin⟩
    · exact ⟨allocator.restore, by rw [restored, found, Option.map_some], allocator.within_restore⟩

/-- Leaving a scope. -/
theorem Orderly.leave (orderly : tree.Orderly) (number : Nat) : (tree.leave number).Orderly := by
  refine ⟨leave_rooted orderly.rooted number, ?_, ?_, orderly.unique, ?_⟩
  · intro index allocator found
    rcases tree.leave_getElem? number index with same | restored
    · exact orderly.counted (same.symm.trans found)
    · obtain ⟨earlier, found', rfl⟩ := Option.map_eq_some_iff.mp (restored.symm.trans found)
      exact (orderly.counted found').restore
  · intro other scope found
    obtain ⟨owner, own, allocator, stored⟩ := orderly.stored found
    obtain ⟨own', allocator', stored'⟩ := stored.later (tree.later_leave number)
    exact ⟨owner, own', allocator', stored'⟩
  · intro other scope allocator found parameters allocated
    rcases tree.leave_getElem? number scope.allocator with same | restored
    · exact orderly.tight found parameters (same.symm.trans allocated)
    · -- Parameters are never marked, so there is nothing to go back to.
      obtain ⟨earlier, found', rfl⟩ := Option.map_eq_some_iff.mp (restored.symm.trans allocated)
      have tight := orderly.tight found parameters found'
      have kept : earlier.restore = earlier := by rw [Allocator.restore, tight.2.2]
      exact kept.symm ▸ tight

end Leaving

section Binding

variable {name : String} {ty : Ty} {isMutable : Bool} {binding : Binding}

/-- What binding a name changes: the names of the scope, and the allocator that it uses. -/
theorem of_bind? (bound : tree.bind? number name ty isMutable = some (binding, next)) :
    ∃ scope allocator, tree.scopes[number]? = some scope ∧ tree.allocators[scope.allocator]? = some allocator ∧
      binding = allocator.handedOut name ty isMutable ∧
      next.scopes = tree.scopes.setIfInBounds number { scope with names := (name, binding) :: scope.names } ∧
      next.allocators = tree.allocators.setIfInBounds scope.allocator (allocator.afterwards ty) ∧
      scope.names.lookup name = none ∧ next.entered = tree.entered ∧ next.left = tree.left := by
  cases found : tree.scopes[number]? with
  | none => simp [bind?, found] at bound
  | some scope =>
    cases allocated : tree.allocators[scope.allocator]? with
    | none => cases here : scope.get? name <;> simp [bind?, found, allocated, here] at bound
    | some allocator =>
      rw [bind?_eq found allocated] at bound
      split at bound
      · cases bound
      next fresh =>
        cases bound
        exact ⟨scope, allocator, rfl, allocated, rfl, rfl, rfl, Option.not_isSome_iff_eq_none.mp fresh, rfl, rfl⟩

theorem later_bind? (bound : tree.bind? number name ty isMutable = some (binding, next)) : tree.Later next := by
  obtain ⟨scope, allocator, found, allocated, rfl, scopes, allocators, -⟩ := of_bind? bound
  constructor
  · intro other entry found'
    by_cases same : other = number
    · subst same
      cases found.symm.trans found'
      exact ⟨_, scopes ▸ Array.getElem?_setIfInBounds_self_of_lt (Array.getElem?_eq_some_iff.mp found).1⟩
    · exact ⟨entry.names, by rw [scopes, Array.getElem?_setIfInBounds_ne (Ne.symm same), found']⟩
  · intro index earlier found'
    by_cases same : index = scope.allocator
    · subst same
      cases allocated.symm.trans found'
      exact ⟨_, allocators ▸ Array.getElem?_setIfInBounds_self_of_lt (Array.getElem?_eq_some_iff.mp allocated).1,
        (allocator.allocate_extends ty).toWithin⟩
    · exact ⟨earlier, by rw [allocators, Array.getElem?_setIfInBounds_ne (Ne.symm same), found'],
        (Allocator.Extends.refl earlier).toWithin⟩

/-- Binding a name. -/
theorem Orderly.bind? (orderly : tree.Orderly)
    (bound : tree.bind? number name ty isMutable = some (binding, next)) : next.Orderly := by
  have later := later_bind? bound
  obtain ⟨scope, allocator, found, allocated, rfl, scopes, allocators, -⟩ := of_bind? bound
  have isOpen := (Array.getElem?_eq_some_iff.mp found).1
  have renamed : next.scopes[number]? = some { scope with names := _ } :=
    scopes ▸ Array.getElem?_setIfInBounds_self_of_lt isOpen
  have others : ∀ other, other ≠ number → next.scopes[other]? = tree.scopes[other]? := fun other differs => by
    rw [scopes, Array.getElem?_setIfInBounds_ne differs.symm]
  have moved : next.allocators[scope.allocator]? = some (allocator.afterwards ty) :=
    allocators ▸ Array.getElem?_setIfInBounds_self_of_lt (orderly.rooted.allocator found)
  have spared : ∀ index, index ≠ scope.allocator → next.allocators[index]? = tree.allocators[index]? :=
    fun index differs => by rw [allocators, Array.getElem?_setIfInBounds_ne differs.symm]
  -- Each scope of the new tree was there before, with the same allocator and kind.
  have before : ∀ {other : Nat} {entry : Scope}, next.scopes[other]? = some entry →
      ∃ names, tree.scopes[other]? = some { entry with names := names } := fun {other entry} found' => by
    by_cases same : other = number
    · subst same
      cases renamed.symm.trans found'
      exact ⟨scope.names, found⟩
    · exact ⟨entry.names, (others other same).symm.trans found'⟩
  constructor
  case rooted => exact orderly.rooted.rename found renamed others (by simp [allocators])
  case counted =>
    intro index earlier found'
    by_cases same : index = scope.allocator
    · subst same
      cases moved.symm.trans found'
      exact (orderly.counted allocated).afterwards
    · exact orderly.counted ((spared index same).symm.trans found')
  case stored =>
    intro other entry found'
    by_cases same : other = number
    · subst same
      cases renamed.symm.trans found'
      obtain ⟨owner, own, earlier, stored⟩ := orderly.stored found
      obtain ⟨own', allocator', stored'⟩ := stored.later later
      refine ⟨owner, own', allocator', stored'.owned, stored'.found, stored'.shared, stored'.allocated,
        stored'.starts, fun entry member => ?_, stored'.alone⟩
      rcases List.mem_cons.mp member with rfl | member
      · cases moved.symm.trans (stored'.shared ▸ stored'.allocated)
        exact (orderly.counted allocated).counted.covers
      · exact stored'.covers entry member
    · obtain ⟨owner, own, earlier, stored⟩ := orderly.stored ((others other same).symm.trans found')
      obtain ⟨own', allocator', stored'⟩ := stored.later later
      exact ⟨owner, own', allocator', stored'⟩
  case unique =>
    intro one other first second found₁ found₂ owns₁ owns₂ same
    obtain ⟨names₁, earlier₁⟩ := before found₁
    obtain ⟨names₂, earlier₂⟩ := before found₂
    exact orderly.unique earlier₁ earlier₂ owns₁ owns₂ same
  case tight =>
    intro other entry last found' parameters allocated'
    by_cases same : other = number
    · subst same
      cases renamed.symm.trans found'
      cases moved.symm.trans allocated'
      replace parameters : scope.kind = .parameters := parameters
      obtain ⟨current, peak, bookmarks⟩ := orderly.tight found parameters allocated
      have within := orderly.within_of_owns found (by rw [parameters]; rfl) allocated
      have upward := within.direction
      have zero := within.start
      simp only [Allocator.starting] at upward zero
      simp only [Allocator.afterwards, Allocator.allocate, Allocator.moved, upward, zero, current, peak,
        bookmarks, List.map_cons, Ty.totalSize, and_true]
      omega
    · have older := (others other same).symm.trans found'
      rw [spared _ (orderly.apart older parameters found (Ne.symm same))] at allocated'
      exact orderly.tight older parameters allocated'

end Binding

/-- When the program is opened there is one scope, with an allocator of its own. -/
theorem root_orderly : root.Orderly := by
  have only : ∀ {number : Nat} {scope : Scope}, root.scopes[number]? = some scope →
      number = 0 ∧ scope = ⟨.program, none, [], 0⟩ := fun {number scope} found => by
    have first : number < 1 := (Array.getElem?_eq_some_iff.mp found).1
    obtain rfl : number = 0 := by omega
    exact ⟨rfl, (Option.some.inj (root_scope.symm.trans found)).symm⟩
  constructor
  case rooted => exact root_rooted
  case counted =>
    intro index allocator found
    have first : index < 1 := (Array.getElem?_eq_some_iff.mp found).1
    obtain rfl : index = 0 := by omega
    cases found
    exact Allocator.orderly_starting .global .upward 0
  case stored =>
    intro number scope found
    obtain ⟨rfl, rfl⟩ := only found
    exact ⟨0, _, _, .itself found nofun, found, rfl, rfl,
      ⟨_, rfl, (Allocator.Extends.refl _).toWithin⟩, nofun, fun _ => rfl⟩
  case unique =>
    intro one other first second found found' _ _ _
    rw [(only found).1, (only found').1]
  case tight =>
    intro number scope allocator found kind _
    obtain ⟨rfl, rfl⟩ := only found
    cases kind

/-- The storage of every name lies in the area of the owner. -/
theorem Orderly.holds (orderly : tree.Orderly) (found : tree.scopes[number]? = some scope) :
    ∃ owner own, tree.OwnedBy number owner ∧ tree.scopes[owner]? = some own ∧
      ∀ entry ∈ scope.names, tree.Holds owner own entry.2 := by
  obtain ⟨owner, own, allocator, stored⟩ := orderly.stored found
  refine ⟨owner, own, stored.owned, stored.found, fun entry member => ?_⟩
  obtain ⟨first, start, within⟩ := stored.starts
  have covers := stored.covers entry member
  have size : tree.allocatedSize owner = allocator.peak :=
    allocatedSize_eq (by rw [allocatorOf_eq stored.found, stored.allocated])
  have bounds := covers.bounds
  rw [Holds, size, covers.base, within.base]
  rw [within.direction, within.start] at bounds
  cases kind : own.kind <;> rw [kind] at start <;> cases start
  · exact ⟨rfl, by simpa [Allocator.starting] using bounds⟩
  · rw [(orderly.tight stored.found kind stored.allocated).2.1] at bounds
    exact ⟨rfl, by simpa [Allocator.starting] using bounds⟩
  · exact ⟨rfl, by simpa [Allocator.starting] using bounds⟩

end ScopeTree

end Stackwright

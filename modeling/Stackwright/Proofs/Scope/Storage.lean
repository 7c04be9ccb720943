import Stackwright.Scope.Allocator

/-! Storage without overlap. Whatever an allocator still has in use lies on one side of its current
offset, so that the next bytes it hands out have nothing in common with those. -/

set_option autoImplicit false

namespace Stackwright

/-- The storage of two bindings has no byte in common. -/
def Binding.Apart (one other : Binding) : Prop :=
  one.location.base ≠ other.location.base ∨
    one.location.offset + one.ty.size ≤ other.location.offset ∨
    other.location.offset + other.ty.size ≤ one.location.offset

theorem Binding.Apart.symm {one other : Binding} (apart : one.Apart other) : other.Apart one := by
  rcases apart with differs | before | after
  · exact .inl differs.symm
  · exact .inr (.inr before)
  · exact .inr (.inl after)

namespace Allocator

/-- The current offset is on the right side of the start, and the peak has counted it. -/
def Counted (allocator : Allocator) : Prop :=
  match allocator.direction with
  | .upward => allocator.start ≤ allocator.current ∧ allocator.current ≤ allocator.start + allocator.peak
  | .downward => allocator.current ≤ allocator.start ∧ allocator.start - allocator.peak ≤ allocator.current

/-- The storage of a binding is not among what the allocator may hand out next. -/
def Spares (allocator : Allocator) (binding : Binding) : Prop :=
  binding.location.base = allocator.base →
    match allocator.direction with
    | .upward => binding.location.offset + binding.ty.size ≤ allocator.current
    | .downward => allocator.current ≤ binding.location.offset

/-- The storage of a binding is among what the allocator ever had in use. -/
structure Covers (allocator : Allocator) (binding : Binding) : Prop where
  base : binding.location.base = allocator.base
  bounds :
    match allocator.direction with
    | .upward => allocator.start ≤ binding.location.offset ∧
        binding.location.offset + binding.ty.size ≤ allocator.start + allocator.peak
    | .downward => allocator.start - allocator.peak ≤ binding.location.offset ∧
        binding.location.offset + binding.ty.size ≤ allocator.start

/-- The storage of one allocator is part of that of another: they count from the same start, and
the peak of the other is no lower. -/
structure Within (allocator area : Allocator) : Prop where
  base : area.base = allocator.base
  direction : area.direction = allocator.direction
  start : area.start = allocator.start
  peak : allocator.peak ≤ area.peak

/-- The same allocator later: it may have moved, and its peak may have risen. -/
structure Extends (allocator next : Allocator) : Prop extends Within allocator next where
  bookmarks : next.bookmarks = allocator.bookmarks

variable {allocator next last : Allocator} {binding other : Binding}

theorem Within.trans (one : allocator.Within next) (two : next.Within last) : allocator.Within last :=
  ⟨two.base.trans one.base, two.direction.trans one.direction, two.start.trans one.start,
    Nat.le_trans one.peak two.peak⟩

theorem Extends.refl (allocator : Allocator) : allocator.Extends allocator :=
  ⟨⟨rfl, rfl, rfl, Nat.le_refl _⟩, rfl⟩

theorem Extends.trans (one : allocator.Extends next) (two : next.Extends last) :
    allocator.Extends last :=
  ⟨one.toWithin.trans two.toWithin, two.bookmarks.trans one.bookmarks⟩

theorem Covers.mono (covers : allocator.Covers binding) (wider : allocator.Within next) :
    next.Covers binding := by
  have peak := wider.peak
  refine ⟨covers.base.trans wider.base.symm, ?_⟩
  have bounds := covers.bounds
  rw [wider.direction, wider.start]
  cases toward : allocator.direction <;> simp only [toward] at bounds ⊢ <;> omega

theorem within_of_restore (wider : allocator.restore.Within next) : allocator.Within next := by
  unfold restore at wider
  split at wider
  · exact wider
  · exact ⟨wider.base, wider.direction, wider.start, wider.peak⟩

theorem Counted.again (counted : allocator.Counted) (later : allocator.Extends next)
    (back : next.current = allocator.current) : next.Counted := by
  have peak := later.peak
  unfold Counted at counted ⊢
  rw [later.direction, later.start, back]
  cases toward : allocator.direction <;> simp only [toward] at counted ⊢ <;> omega

theorem Spares.again (spares : allocator.Spares binding) (later : allocator.Extends next)
    (back : next.current = allocator.current) : next.Spares binding := by
  intro same
  rw [later.direction, back]
  exact spares (same.trans later.base)

section Allocate

variable {name : String} {ty : Ty} {isMutable : Bool}

/-- The allocator after handing out storage for a value of the type. -/
abbrev afterwards (allocator : Allocator) (ty : Ty) : Allocator := (allocator.allocate ty.size).2

/-- The binding that gets the storage. -/
abbrev handedOut (allocator : Allocator) (name : String) (ty : Ty) (isMutable : Bool) : Binding :=
  ⟨ty, (allocator.allocate ty.size).1, name, isMutable⟩

theorem allocate_extends (allocator : Allocator) (ty : Ty) :
    allocator.Extends (allocator.afterwards ty) :=
  ⟨⟨rfl, rfl, rfl, Nat.le_max_left _ _⟩, rfl⟩

theorem Counted.allocate (counted : allocator.Counted) : (allocator.afterwards ty).Counted := by
  have reached := Nat.le_max_right allocator.peak (allocator.moved ty.size - allocator.start).natAbs
  unfold Counted at counted ⊢
  simp only [afterwards, Allocator.allocate]
  cases toward : allocator.direction <;> simp only [toward, moved] at counted reached ⊢ <;> omega

theorem Counted.covers (counted : allocator.Counted) :
    (allocator.afterwards ty).Covers (allocator.handedOut name ty isMutable) := by
  have reached := Nat.le_max_right allocator.peak (allocator.moved ty.size - allocator.start).natAbs
  refine ⟨rfl, ?_⟩
  unfold Counted at counted
  simp only [afterwards, Allocator.allocate]
  cases toward : allocator.direction <;> simp only [toward, moved, nextOffset] at counted reached ⊢ <;>
    omega

theorem spares_handedOut (allocator : Allocator) :
    (allocator.afterwards ty).Spares (allocator.handedOut name ty isMutable) := by
  intro _
  simp only [afterwards, Allocator.allocate]
  cases toward : allocator.direction <;> simp only [moved, nextOffset, toward] <;> omega

theorem Spares.allocate (spares : allocator.Spares other) :
    (allocator.afterwards ty).Spares other := by
  intro same
  have bound := spares same
  simp only [afterwards, Allocator.allocate]
  cases toward : allocator.direction <;> simp only [toward, moved] at bound ⊢ <;> omega

/-- What was not free cannot be handed out. -/
theorem Spares.apart (spares : allocator.Spares other) :
    other.Apart (allocator.handedOut name ty isMutable) := by
  by_cases same : other.location.base = allocator.base
  · have bound := spares same
    refine .inr ?_
    simp only [Allocator.allocate]
    cases toward : allocator.direction <;> simp only [toward, nextOffset] at bound ⊢ <;> omega
  · exact .inl same

end Allocate

end Allocator

end Stackwright

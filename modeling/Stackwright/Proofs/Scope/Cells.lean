import Stackwright.Proofs.Scope.Growth

/-! Names that are declared one after the other in a scope whose storage grows upward: the functions
of a program and the parameters of a function. Each lies right after the one before it. -/

set_option autoImplicit false

namespace Stackwright

/-- The bindings of immutable names of the given types, from an offset upward. -/
def cellsFrom (base : Base) (offset : Nat) : List (String × Ty) → List (String × Binding)
  | [] => []
  | (name, ty) :: rest => (name, ⟨ty, ⟨base, offset⟩, name, false⟩) :: cellsFrom base (offset + ty.size) rest

variable {base : Base} {offset : Nat}

theorem cellsFrom_append (first second : List (String × Ty)) :
    cellsFrom base offset (first ++ second) =
      cellsFrom base offset first ++
        cellsFrom base (offset + Ty.totalSize (first.map Prod.snd)) second := by
  induction first generalizing offset with
  | nil => rfl
  | cons entry rest ih =>
    rw [List.cons_append, cellsFrom, cellsFrom, ih, List.cons_append, List.map_cons, Ty.totalSize,
      Nat.add_assoc]

theorem cellsFrom_names (entries : List (String × Ty)) :
    (cellsFrom base offset entries).map Prod.fst = entries.map Prod.fst := by
  induction entries generalizing offset with
  | nil => rfl
  | cons entry rest ih => rw [cellsFrom, List.map_cons, List.map_cons, ih]

/-- Where cells lie. -/
theorem mem_cellsFrom {entries : List (String × Ty)} {entry : String × Binding}
    (member : entry ∈ cellsFrom base offset entries) :
    entry.2.location.base = base ∧ (offset : Int) ≤ entry.2.location.offset ∧
      entry.2.location.offset + entry.2.ty.size ≤ offset + Ty.totalSize (entries.map Prod.snd) ∧
      (entry.1, entry.2.ty) ∈ entries := by
  induction entries generalizing offset with
  | nil => simp [cellsFrom] at member
  | cons first rest ih =>
    rw [cellsFrom] at member
    rw [List.map_cons, Ty.totalSize]
    rcases List.mem_cons.mp member with rfl | member
    · exact ⟨rfl, Int.le_refl _, by simp only []; omega, List.mem_cons_self⟩
    · obtain ⟨same, low, high, declared⟩ := ih member
      exact ⟨same, by omega, by omega, List.mem_cons_of_mem _ declared⟩

theorem isMutable_of_mem_cellsFrom {entries : List (String × Ty)} {entry : String × Binding}
    (member : entry ∈ cellsFrom base offset entries) : entry.2.isMutable = false := by
  induction entries generalizing offset with
  | nil => cases member
  | cons first rest ih =>
    rcases List.mem_cons.mp member with rfl | member
    · rfl
    · exact ih member

/-- Cells have no byte in common. -/
theorem cellsFrom_apart (entries : List (String × Ty)) :
    (cellsFrom base offset entries).Pairwise fun one two => one.2.Apart two.2 := by
  induction entries generalizing offset with
  | nil => exact .nil
  | cons entry rest ih =>
    refine .cons (fun later member => .inr (.inl ?_)) ih
    have low := (mem_cellsFrom member).2.1
    simp only
    omega

namespace ScopeTree

variable {tree next : ScopeTree} {number : Nat} {name : String} {ty : Ty} {isMutable : Bool}
  {binding : Binding}

/-- The next storage of a scope lies at the offset, and what follows lies above it. -/
def NextAt (tree : ScopeTree) (number : Nat) (base : Base) (offset : Nat) : Prop :=
  ∃ allocator, tree.allocators[tree.allocatorOf number]? = some allocator ∧
    allocator.base = base ∧ allocator.direction = .upward ∧ allocator.current = offset

theorem NextAt.bind? (nextAt : tree.NextAt number base offset) (settled : tree.Settled number)
    (bound : tree.bind? number name ty isMutable = some (binding, next)) :
    binding = ⟨ty, ⟨base, offset⟩, name, isMutable⟩ ∧ next.NextAt number base (offset + ty.size) := by
  obtain ⟨scope, found⟩ := settled.found
  obtain ⟨allocator, allocated, rfl, toward, current⟩ := nextAt
  have below := settled.allocatorOf_lt
  rw [allocatorOf_eq found] at allocated below
  rw [bind?_eq found allocated] at bound
  split at bound
  · cases bound
  cases bound
  refine ⟨?_, allocator.afterwards ty, ?_, rfl, toward, ?_⟩
  · simp only [Allocator.handedOut, Allocator.allocate, Allocator.nextOffset, toward, current]
  · rw [allocatorOf_eq (Array.getElem?_setIfInBounds_self_of_lt settled.isOpen)]
    exact Array.getElem?_setIfInBounds_self_of_lt below
  · simp only [Allocator.afterwards, Allocator.allocate, Allocator.moved, toward, current]
    exact (Int.natCast_add _ _).symm

/-- The tree in which only the scope of the program has been opened. -/
abbrev root : ScopeTree := empty.openProgram.2

theorem root_rooted : root.Rooted := by
  constructor <;> intro number scope found
  all_goals
    have first : number < 1 := (Array.getElem?_eq_some_iff.mp found).1
    obtain rfl : number = 0 := by omega
    cases found
  · intro outer outside
    cases outside
  · decide

theorem root_scope : root.scopes[0]? = some ⟨.program, none, [], 0⟩ := rfl

theorem root_chain : root.chain 0 = [[]] := rfl

theorem root_settled : root.Settled 0 := by
  refine ⟨root_rooted, by decide, fun found => ?_⟩
  cases found
  exact ⟨⟨Int.le_refl _, Int.le_refl _⟩, fun entry member => nomatch member⟩

theorem root_nextAt : root.NextAt 0 .global 0 := ⟨_, rfl, rfl, rfl, rfl⟩

end ScopeTree

end Stackwright

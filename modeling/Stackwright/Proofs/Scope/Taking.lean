import Stackwright.Proofs.Scope.Spending

/-! How much storage work in a scope takes, to the byte: what is still in use after it, and the most that
was in use on the way. -/

set_option autoImplicit false

namespace Stackwright

theorem Allocator.Counted.used_le {allocator : Allocator} (counted : allocator.Counted) :
    allocator.used ≤ allocator.peak := by
  unfold Allocator.Counted at counted
  unfold Allocator.used
  split at counted <;> omega

theorem Allocator.Counted.used_afterwards {allocator : Allocator} (counted : allocator.Counted) (ty : Ty) :
    (allocator.afterwards ty).used = allocator.used + ty.size := by
  unfold Allocator.Counted at counted
  simp only [Allocator.used, Allocator.afterwards, Allocator.allocate, Allocator.moved]
  cases toward : allocator.direction with
  | upward =>
    simp only [toward] at counted ⊢
    omega
  | downward =>
    simp only [toward] at counted ⊢
    omega

namespace ScopeTree

/-- The allocator of the scope has `amount` bytes more in use than before, and `need` bytes more is the
most that it had in use. -/
structure Takes (number amount need : Nat) (tree next : ScopeTree) : Prop where
  exactly : ∀ {allocator later : Allocator}, tree.allocators[tree.allocatorOf number]? = some allocator →
    next.allocators[tree.allocatorOf number]? = some later →
    later.used = allocator.used + amount ∧ later.peak = max allocator.peak (allocator.used + need)

variable {tree next last : ScopeTree} {number amount need more moreNeed : Nat}

/-- Work that leaves the allocator alone. -/
theorem Takes.of_same (settled : tree.Settled number)
    (same : next.allocators[tree.allocatorOf number]? = tree.allocators[tree.allocatorOf number]?) :
    Takes number 0 0 tree next := by
  constructor
  intro allocator later found found'
  rw [same] at found'
  cases found.symm.trans found'
  have counted := (settled.free found).1.used_le
  omega

theorem Takes.trans (settled : tree.Settled number) (grows : Grows number tree next)
    (one : Takes number amount need tree next) (two : Takes number more moreNeed next last) :
    Takes number (amount + more) (max need (amount + moreNeed)) tree last := by
  constructor
  intro allocator later found found'
  obtain ⟨between, here, _⟩ := grows.moved found
  have first := one.exactly found here
  -- The scope keeps its allocator, so the second piece of work goes on with what the first has left.
  rw [← grows.allocatorOf_eq settled] at here found'
  have second := two.exactly here found'
  omega

theorem takes_bind? {name : String} {ty : Ty} {isMutable : Bool} {binding : Binding} (settled : tree.Settled number)
    (bound : tree.bind? number name ty isMutable = some (binding, next)) :
    Takes number ty.size ty.size tree next := by
  constructor
  intro allocator later found found'
  have used := (settled.free found).1.used_afterwards ty
  obtain ⟨scope, here⟩ := settled.found
  rw [allocatorOf_eq here] at found found'
  rw [bind?_eq here found] at bound
  split at bound
  · cases bound
  cases bound
  rw [Array.getElem?_setIfInBounds_self_of_lt (settled.rooted.allocator here)] at found'
  cases found'
  have peak : (allocator.afterwards ty).peak = max allocator.peak (allocator.afterwards ty).used := rfl
  rw [peak, used]
  exact ⟨rfl, rfl⟩

/-- What a nested scope took is given back, but its peak stays counted. -/
theorem takes_leave (grows : Grows tree.scopes.size (tree.openNested number).2 last)
    (inner : Takes tree.scopes.size amount need (tree.openNested number).2 last) :
    Takes number 0 need tree (last.leave tree.scopes.size) := by
  constructor
  intro allocator later found found'
  obtain ⟨names, here⟩ := grows.own getElem?_addScope_size
  have opened := openNested_allocator found
  rw [← openNested_allocatorOf] at opened
  obtain ⟨between, there, _⟩ := grows.moved opened
  have taken := (inner.exactly opened there).2
  obtain ⟨later', found'', extends_, back⟩ := leave_allocator found grows
  cases found'.symm.trans found''
  rw [openNested_allocatorOf] at there
  simp only [leave, here, Array.getElem?_modify, if_true, there, Option.map_some, Option.some.injEq] at found'
  -- Going back to the bookmark moves the offset and nothing else.
  have peak : later.peak = between.peak := by
    rw [← found', Allocator.restore]
    split <;> rfl
  have start := extends_.start
  constructor
  · simp only [Allocator.used, back, start, Nat.add_zero]
  · rw [peak, taken]
    rfl

end ScopeTree

end Stackwright

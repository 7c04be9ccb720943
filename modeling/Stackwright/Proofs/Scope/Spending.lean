import Stackwright.Proofs.Scope.Growth

/-! How much storage work in a scope can take. What a nested scope used is given back when it is left,
so only the most that was in use at once counts. -/

set_option autoImplicit false

namespace Stackwright

/-- How many bytes an allocator has in use. -/
def Allocator.used (allocator : Allocator) : Nat := (allocator.current - allocator.start).natAbs

theorem Ty.size_le (ty : Ty) : ty.size ≤ 4 := by
  cases ty <;> simp [size]

namespace ScopeTree

/-- The allocator of the scope has at most so many bytes more in use than before, and never had more
than that in between. -/
structure Spends (number amount : Nat) (tree next : ScopeTree) : Prop where
  bound : ∀ {allocator later : Allocator}, tree.allocators[tree.allocatorOf number]? = some allocator →
    next.allocators[tree.allocatorOf number]? = some later →
    later.used ≤ allocator.used + amount ∧ later.peak ≤ max allocator.peak (allocator.used + amount)

variable {tree next last : ScopeTree} {number amount more : Nat}

theorem Spends.refl : Spends number amount tree tree := by
  refine ⟨fun {allocator later} found found' => ?_⟩
  cases found.symm.trans found'
  omega

theorem Spends.trans (settled : tree.Settled number) (grows : Grows number tree next)
    (one : Spends number amount tree next) (two : Spends number more next last) :
    Spends number (amount + more) tree last := by
  refine ⟨fun {allocator later} found found' => ?_⟩
  obtain ⟨between, here, _⟩ := grows.moved found
  have first := one.bound found here
  rw [← grows.allocatorOf_eq settled] at here found'
  have second := two.bound here found'
  omega

theorem spends_bind? {name : String} {ty : Ty} {isMutable : Bool} {binding : Binding}
    (settled : tree.Settled number) (bound : tree.bind? number name ty isMutable = some (binding, next)) :
    Spends number 4 tree next := by
  refine ⟨fun {allocator later} found found' => ?_⟩
  obtain ⟨scope, here⟩ := settled.found
  rw [allocatorOf_eq here] at found found'
  rw [bind?_eq here found] at bound
  split at bound
  · cases bound
  cases bound
  rw [Array.getElem?_setIfInBounds_self_of_lt (settled.rooted.allocator here)] at found'
  cases found'
  have small := ty.size_le
  simp only [Allocator.used, Allocator.afterwards, Allocator.allocate, Allocator.moved]
  cases allocator.direction <;> simp only [] <;> omega

theorem spends_leave (grows : Grows tree.scopes.size (tree.openNested number).2 last)
    (inner : Spends tree.scopes.size amount (tree.openNested number).2 last) :
    Spends number amount tree (last.leave tree.scopes.size) := by
  refine ⟨fun {allocator later} found found' => ?_⟩
  obtain ⟨names, here⟩ := grows.own getElem?_addScope_size
  have opened := openNested_allocator found
  rw [← openNested_allocatorOf] at opened
  obtain ⟨between, there, larger⟩ := grows.moved opened
  have spent := inner.bound opened there
  obtain ⟨later', found'', extends_, back⟩ := leave_allocator found grows
  cases found'.symm.trans found''
  rw [openNested_allocatorOf] at there
  simp only [leave, here, Array.getElem?_modify, if_true, there, Option.map_some, Option.some.injEq] at found'
  have peak : later.peak = between.peak := by
    rw [← found', Allocator.restore]
    split <;> rfl
  have start := extends_.start
  simp only [Allocator.used, Allocator.save] at spent ⊢
  rw [peak, back, start]
  omega

end ScopeTree

end Stackwright

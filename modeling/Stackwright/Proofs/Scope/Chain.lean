import Stackwright.Proofs.Nest
import Stackwright.Scope.Tree

/-! The names that are visible from a scope: those of the scope itself and of every scope around
it. Looking a name up is looking it up among these, and what happens in one scope leaves all
others alone. -/

set_option autoImplicit false

namespace Stackwright

namespace ScopeTree

/-- Scopes lie below earlier ones and use allocators that exist. -/
structure Rooted (tree : ScopeTree) : Prop where
  parent : ∀ {number : Nat} {scope : Scope}, tree.scopes[number]? = some scope →
    ∀ {outer : Nat}, scope.parent = some outer → outer < number
  allocator : ∀ {number : Nat} {scope : Scope}, tree.scopes[number]? = some scope →
    scope.allocator < tree.allocators.size

def chainWithin (tree : ScopeTree) : (budget : Nat) → (number : Nat) → Nest Binding
  | 0, _ => []
  | budget + 1, number =>
    match tree.scopes[number]? with
    | none => []
    | some scope =>
      scope.names ::
        match scope.parent with
        | none => []
        | some outer => tree.chainWithin budget outer

/-- The names of a scope and of the scopes around it. -/
def chain (tree : ScopeTree) (number : Nat) : Nest Binding := tree.chainWithin (number + 1) number

theorem lookupWithin_eq (tree : ScopeTree) (name : String) (budget number : Nat) :
    tree.lookupWithin name budget number = (tree.chainWithin budget number).find? name := by
  induction budget generalizing number with
  | zero => rfl
  | succ budget ih =>
    unfold lookupWithin chainWithin
    cases tree.scopes[number]? with
    | none => rfl
    | some scope =>
      simp only [Nest.find?_cons, ← Scope.get?.eq_def]
      cases here : scope.get? name with
      | some binding => simp
      | none =>
        cases scope.parent with
        | none => rfl
        | some outer => simpa using ih outer

/-- A name that is used means its nearest declaration. -/
theorem lookup_eq (tree : ScopeTree) (name : String) (number : Nat) :
    tree.lookup number name = (tree.chain number).find? name :=
  lookupWithin_eq tree name (number + 1) number

variable {tree next : ScopeTree} {number : Nat}

theorem chainWithin_eq (rooted : tree.Rooted) (budget : Nat) (enough : number < budget) :
    tree.chainWithin budget number = tree.chain number := by
  induction number using Nat.strongRecOn generalizing budget with
  | ind number ih =>
    obtain ⟨budget, rfl⟩ : ∃ less, budget = less + 1 := ⟨budget - 1, by omega⟩
    rw [chain, chainWithin, chainWithin]
    cases found : tree.scopes[number]? with
    | none => rfl
    | some scope =>
      cases outside : scope.parent with
      | none => simp only [outside]
      | some outer =>
        have below := rooted.parent found outside
        simp only [outside, List.cons.injEq, true_and]
        rw [ih outer below budget (by omega), ih outer below number below]

theorem chain_eq (rooted : tree.Rooted) {scope : Scope} (found : tree.scopes[number]? = some scope) :
    tree.chain number = scope.names ::
      match scope.parent with
      | none => []
      | some outer => tree.chain outer := by
  rw [chain, chainWithin, found]
  cases outside : scope.parent with
  | none => simp only [outside]
  | some outer =>
    simp only [outside, List.cons.injEq, true_and]
    exact chainWithin_eq rooted number (rooted.parent found outside)

theorem chainWithin_congr (rooted : tree.Rooted) (budget : Nat)
    (same : ∀ lower ≤ number, next.scopes[lower]? = tree.scopes[lower]?) :
    next.chainWithin budget number = tree.chainWithin budget number := by
  induction budget generalizing number with
  | zero => rfl
  | succ budget ih =>
    rw [chainWithin, chainWithin, same number (Nat.le_refl _)]
    cases found : tree.scopes[number]? with
    | none => rfl
    | some scope =>
      cases outside : scope.parent with
      | none => simp only [outside]
      | some outer =>
        have below := rooted.parent found outside
        simp only [outside, List.cons.injEq, true_and]
        exact ih fun lower within => same lower (by omega)

/-- What is visible depends on the scope and those around it only. -/
theorem chain_congr (rooted : tree.Rooted)
    (same : ∀ lower ≤ number, next.scopes[lower]? = tree.scopes[lower]?) :
    next.chain number = tree.chain number :=
  chainWithin_congr rooted (number + 1) same

end ScopeTree

end Stackwright

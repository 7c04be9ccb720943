import Stackwright.Proofs.Scope.Ownership

/-! The bindings in a tree of scopes, and the types of the names. A property that all bindings have is kept by
every step on the scopes, as long as newly made bindings have it. -/

set_option autoImplicit false

namespace Stackwright

/-- Every name in the scopes has a binding with the property. -/
def ScopeTree.AllBindings (good : Binding → Prop) (tree : ScopeTree) : Prop :=
  ∀ (number : Nat) (scope : Scope), tree.scopes[number]? = some scope → ∀ entry ∈ scope.names, good entry.2

/-- Every name in the scopes is of a proper type. -/
def ScopeTree.Typed (proper : Ty → Prop) (tree : ScopeTree) : Prop :=
  ∀ (number : Nat) (scope : Scope), tree.scopes[number]? = some scope → ∀ entry ∈ scope.names, proper entry.2.ty

namespace ScopeTree

section AllBindings

variable {good : Binding → Prop} {tree next : ScopeTree} {number : Nat}

theorem allBindings_empty : ScopeTree.empty.AllBindings good := by
  intro number scope found
  simp [ScopeTree.empty] at found

theorem AllBindings.congr (all : tree.AllBindings good) (same : next.scopes = tree.scopes) :
    next.AllBindings good := by
  intro number scope found
  rw [same] at found
  exact all number scope found

theorem AllBindings.lookupWithin {name : String} {binding : Binding} (all : tree.AllBindings good) {budget : Nat}
    (found : tree.lookupWithin name budget number = some binding) : good binding := by
  induction budget generalizing number with
  | zero => cases found
  | succ budget ih =>
    rw [ScopeTree.lookupWithin] at found
    cases here : tree.scopes[number]? with
    | none =>
      rw [here] at found
      cases found
    | some scope =>
      simp only [here] at found
      cases bound : scope.get? name with
      | some nearest =>
        simp only [bound] at found
        cases found
        exact all number scope here _ (Nest.mem_of_lookup bound)
      | none =>
        cases outer : scope.parent with
        | none =>
          simp only [bound, outer] at found
          cases found
        | some parent =>
          simp only [bound, outer] at found
          exact ih found

/-- What a name refers to has the property. -/
theorem AllBindings.lookup {name : String} {binding : Binding} (all : tree.AllBindings good)
    (found : tree.lookup number name = some binding) : good binding :=
  all.lookupWithin found

theorem AllBindings.addScope {kind : Scope.Kind} {parent : Option Nat} {index : Nat} (all : tree.AllBindings good) :
    (tree.addScope kind parent index).2.AllBindings good := by
  intro number scope found
  rw [ScopeTree.addScope, Array.getElem?_push] at found
  split at found
  · cases found
    exact List.forall_mem_nil _
  · exact all number scope found

theorem AllBindings.addOwner {kind : Scope.Kind} {parent : Option Nat} {allocator : Allocator}
    (all : tree.AllBindings good) : (tree.addOwner kind parent allocator).2.AllBindings good :=
  AllBindings.addScope (all.congr rfl)

theorem AllBindings.openNested (all : tree.AllBindings good) : (tree.openNested number).2.AllBindings good :=
  AllBindings.addScope (all.congr rfl)

theorem AllBindings.leave (all : tree.AllBindings good) : (tree.leave number).AllBindings good :=
  all.congr (leave_scopes tree number)

theorem AllBindings.bind? {name : String} {ty : Ty} {isMutable : Bool} {binding : Binding}
    (all : tree.AllBindings good) (isGood : good binding)
    (bound : tree.bind? number name ty isMutable = some (binding, next)) : next.AllBindings good := by
  obtain ⟨scope, allocator, here, -, rfl, scopes, -⟩ := of_bind? bound
  -- Only the scope that is worked in changes, and only by the new entry.
  intro other entry found
  rw [scopes, Array.getElem?_setIfInBounds] at found
  split at found
  next same =>
    split at found
    · cases found
      exact List.forall_mem_cons.mpr ⟨isGood, all number scope here⟩
    · cases found
  next => exact all other entry found

end AllBindings

section Typed

variable {proper weaker : Ty → Prop} {tree next : ScopeTree} {number : Nat}

theorem typed_iff : tree.Typed proper ↔ tree.AllBindings fun binding => proper binding.ty := Iff.rfl

theorem typed_empty : ScopeTree.empty.Typed proper := typed_iff.mpr allBindings_empty

theorem Typed.mono (typed : tree.Typed proper) (implies : ∀ ty, proper ty → weaker ty) : tree.Typed weaker :=
  fun number scope found entry member => implies _ (typed number scope found entry member)

/-- What a name refers to is of a proper type. -/
theorem Typed.lookup {name : String} {binding : Binding} (typed : tree.Typed proper)
    (found : tree.lookup number name = some binding) : proper binding.ty :=
  (typed_iff.mp typed).lookup found

theorem Typed.addOwner {kind : Scope.Kind} {parent : Option Nat} {allocator : Allocator} (typed : tree.Typed proper) :
    (tree.addOwner kind parent allocator).2.Typed proper :=
  (typed_iff.mp typed).addOwner

theorem Typed.openNested (typed : tree.Typed proper) : (tree.openNested number).2.Typed proper :=
  (typed_iff.mp typed).openNested

theorem Typed.leave (typed : tree.Typed proper) : (tree.leave number).Typed proper :=
  (typed_iff.mp typed).leave

theorem Typed.bind? {name : String} {ty : Ty} {isMutable : Bool} {binding : Binding} (typed : tree.Typed proper)
    (isProper : proper ty) (bound : tree.bind? number name ty isMutable = some (binding, next)) : next.Typed proper := by
  obtain ⟨_, _, _, _, made, _⟩ := of_bind? bound
  exact (typed_iff.mp typed).bind? (made ▸ isProper) bound

end Typed

end ScopeTree

end Stackwright

import Stackwright.Proofs.Scope.Ownership

/-! Scopes under any history of operations, in whatever order scopes are opened, added to and left. A scope
lies below earlier ones only, so that the way outward from it ends; a name that a scope binds stays bound
to the same; and binding a name touches one scope and one allocator. -/

set_option autoImplicit false

namespace Stackwright

namespace ScopeTree

/-- What can be done with the scopes of a program. -/
inductive Operation where
  | openProgram
  | openParameters (program : Nat)
  | openProcedure (parameters : Nat)
  | openNested (outer : Nat)
  | leave (scope : Nat)
  | bind (scope : Nat) (name : String) (ty : Ty) (isMutable : Bool)
  deriving DecidableEq, Repr

/-- The scope that an operation works on, or opens another one in. -/
def Operation.scope? : Operation → Option Nat
  | .openProgram => none
  | .openParameters scope | .openProcedure scope | .openNested scope | .leave scope
  | .bind scope _ _ _ => some scope

/-- The scopes after an operation. A name that cannot be bound changes nothing. -/
def Operation.apply (operation : Operation) (tree : ScopeTree) : ScopeTree :=
  match operation with
  | .openProgram => tree.openProgram.2
  | .openParameters program => (tree.openParameters program).2
  | .openProcedure parameters => (tree.openProcedure parameters).2
  | .openNested outer => (tree.openNested outer).2
  | .leave scope => tree.leave scope
  | .bind scope name ty isMutable =>
    match tree.bind? scope name ty isMutable with
    | some (_, next) => next
    | none => tree

/-- Carry out an operation; the scope that it names must exist. -/
def perform (tree : ScopeTree) (operation : Operation) : Option ScopeTree :=
  if operation.scope?.all (· < tree.scopes.size) then some (operation.apply tree) else none

def performAll (tree : ScopeTree) : List Operation → Option ScopeTree
  | [] => some tree
  | operation :: rest => (tree.perform operation).bind fun next => next.performAll rest

/-- The scopes that are passed on the way outward from a scope, that scope first. -/
inductive Outward (tree : ScopeTree) : (number : Nat) → (path : List Nat) → Prop where
  | last {number : Nat} {scope : Scope} : tree.scopes[number]? = some scope → scope.parent = none →
      Outward tree number [number]
  | step {number outer : Nat} {scope : Scope} {path : List Nat} : tree.scopes[number]? = some scope →
      scope.parent = some outer → Outward tree outer path → Outward tree number (number :: path)

/-- What binding a new name changes: the scope gets the name, with the next storage of its allocator, and
all other scopes and allocators and the two counters stay as they were. -/
structure Adds (number : Nat) (name : String) (ty : Ty) (isMutable : Bool) (tree next : ScopeTree)
    (binding : Binding) : Prop where
  fresh : tree.get? number name = none
  own : ∃ scope allocator, tree.scopes[number]? = some scope ∧
    tree.allocators[scope.allocator]? = some allocator ∧
    binding = ⟨ty, (allocator.allocate ty.size).1, name, isMutable⟩ ∧
    next.scopes[number]? = some { scope with names := (name, binding) :: scope.names } ∧
    next.allocators[scope.allocator]? = some (allocator.allocate ty.size).2
  others : ∀ other, other ≠ number → next.scopes[other]? = tree.scopes[other]?
  spared : ∀ index, index ≠ tree.allocatorOf number → next.allocators[index]? = tree.allocators[index]?
  opened : next.scopes.size = tree.scopes.size
  created : next.allocators.size = tree.allocators.size
  entered : next.entered = tree.entered
  left : next.left = tree.left

/-- Scopes lie below earlier ones, and none binds a name twice. -/
structure Consistent (tree : ScopeTree) : Prop extends tree.Rooted where
  distinct : ∀ {number : Nat} {scope : Scope}, tree.scopes[number]? = some scope →
    (scope.names.map Prod.fst).Nodup

/-- What there was is still there, and each name that was bound still stands for the same. -/
structure Retains (tree next : ScopeTree) : Prop extends tree.Later next where
  names : ∀ {number : Nat} {name : String} {binding : Binding}, tree.get? number name = some binding →
    next.get? number name = some binding

variable {tree next last : ScopeTree} {number : Nat} {scope : Scope} {name : String} {ty : Ty}
  {isMutable : Bool} {binding : Binding} {operation : Operation}

theorem get?_eq (found : tree.scopes[number]? = some scope) :
    tree.get? number name = scope.names.lookup name := by
  rw [get?, found, Option.bind_some, Scope.get?]

theorem get?_eq_some_iff : tree.get? number name = some binding ↔
    ∃ scope, tree.scopes[number]? = some scope ∧ scope.names.lookup name = some binding := by
  rw [get?, Option.bind_eq_some_iff]
  rfl

theorem Retains.refl (tree : ScopeTree) : tree.Retains tree := ⟨.refl tree, id⟩

theorem Retains.trans (one : tree.Retains next) (two : next.Retains last) : tree.Retains last :=
  ⟨one.toLater.trans two.toLater, two.names ∘ one.names⟩

/-- Scopes that stay as they are keep their names. -/
theorem Later.retains (later : tree.Later next)
    (same : ∀ {number : Nat} {scope : Scope}, tree.scopes[number]? = some scope →
      next.scopes[number]? = some scope) : tree.Retains next := by
  refine ⟨later, fun {number name binding} found => ?_⟩
  obtain ⟨scope, here, bound⟩ := get?_eq_some_iff.mp found
  exact get?_eq_some_iff.mpr ⟨scope, same here, bound⟩

theorem perform_eq_some_iff : tree.perform operation = some next ↔
    (∀ scope ∈ operation.scope?, scope < tree.scopes.size) ∧ operation.apply tree = next := by
  unfold perform
  cases operation.scope? with
  | none => simp
  | some scope => simp

theorem performAll_append (first rest : List Operation) :
    tree.performAll (first ++ rest) = (tree.performAll first).bind fun next => next.performAll rest := by
  induction first generalizing tree with
  | nil => rfl
  | cons operation more ih =>
    rw [List.cons_append, performAll, performAll, Option.bind_assoc]
    exact congrArg _ (funext fun next => ih)

section Opening

variable {kind : Scope.Kind} {parent : Option Nat} {index : Nat} {first : Allocator}

theorem Consistent.congr (consistent : tree.Consistent) (scopes : next.scopes = tree.scopes)
    (created : next.allocators.size = tree.allocators.size) : next.Consistent :=
  ⟨consistent.toRooted.congr scopes created, fun here => consistent.distinct (scopes ▸ here)⟩

theorem Consistent.addScope (consistent : tree.Consistent)
    (below : ∀ outer ∈ parent, outer < tree.scopes.size) (present : index < tree.allocators.size) :
    (tree.addScope kind parent index).2.Consistent := by
  refine ⟨consistent.toRooted.addScope (fun {outer} outside => below outer outside) present,
    fun {number scope} found => ?_⟩
  rcases of_getElem?_addScope found with older | ⟨_, rfl⟩
  · exact consistent.distinct older
  · exact List.nodup_nil

theorem Consistent.addOwner (consistent : tree.Consistent)
    (below : ∀ outer ∈ parent, outer < tree.scopes.size) :
    (tree.addOwner kind parent first).2.Consistent := by
  have supplied : (tree.supplied first).Consistent :=
    ⟨supplied_rooted consistent.toRooted first, consistent.distinct⟩
  exact supplied.addScope below (by simp)

theorem retains_addOwner (tree : ScopeTree) (kind : Scope.Kind) (parent : Option Nat) (first : Allocator) :
    tree.Retains (tree.addOwner kind parent first).2 :=
  (later_addOwner tree kind parent first).retains getElem?_addScope

theorem Consistent.openNested (consistent : tree.Consistent) (isOpen : number < tree.scopes.size) :
    (tree.openNested number).2.Consistent := by
  have found := Array.getElem?_eq_getElem isOpen
  have marked : (tree.marked number).Consistent := consistent.congr rfl Array.size_modify
  refine marked.addScope ?_ ?_
  · rintro _ ⟨⟩
    exact isOpen
  · simpa [allocatorOf_eq found] using consistent.allocator found

theorem retains_openNested (tree : ScopeTree) (number : Nat) : tree.Retains (tree.openNested number).2 :=
  (later_openNested tree number).retains getElem?_addScope

end Opening

section Binding

/-- A name can be bound in a scope exactly if the scope does not bind it yet. -/
theorem Rooted.bind?_eq_none_iff (rooted : tree.Rooted) (isOpen : number < tree.scopes.size) :
    tree.bind? number name ty isMutable = none ↔ (tree.get? number name).isSome = true := by
  have found := Array.getElem?_eq_getElem isOpen
  have allocated := Array.getElem?_eq_getElem (rooted.allocator found)
  rw [bind?_eq found allocated, get?_eq found]
  split <;> simp_all

theorem adds_of_bind? (bound : tree.bind? number name ty isMutable = some (binding, next)) :
    Adds number name ty isMutable tree next binding := by
  obtain ⟨scope, allocator, found, allocated, rfl, scopes, allocators, fresh, entered, left⟩ := of_bind? bound
  have isOpen := (Array.getElem?_eq_some_iff.mp found).1
  have present := (Array.getElem?_eq_some_iff.mp allocated).1
  refine ⟨(get?_eq found).trans fresh, ⟨scope, allocator, found, allocated, rfl, ?_, ?_⟩, ?_, ?_, ?_, ?_,
    entered, left⟩
  · exact scopes ▸ Array.getElem?_setIfInBounds_self_of_lt isOpen
  · exact allocators ▸ Array.getElem?_setIfInBounds_self_of_lt present
  · exact fun other differs => scopes ▸ Array.getElem?_setIfInBounds_ne differs.symm
  · rw [allocatorOf_eq found]
    exact fun index differs => allocators ▸ Array.getElem?_setIfInBounds_ne differs.symm
  · rw [scopes, Array.size_setIfInBounds]
  · rw [allocators, Array.size_setIfInBounds]

theorem Adds.get?_own (adds : Adds number name ty isMutable tree next binding) :
    next.get? number name = some binding := by
  obtain ⟨scope, _, _, _, _, renamed, _⟩ := adds.own
  rw [get?_eq renamed, List.lookup_cons_self]

/-- The one name that is new is the one that was bound. -/
theorem Adds.get?_other (adds : Adds number name ty isMutable tree next binding) {other : Nat} {other' : String}
    (differs : other ≠ number ∨ other' ≠ name) : next.get? other other' = tree.get? other other' := by
  by_cases same : other = number
  · subst same
    obtain ⟨scope, _, found, _, _, renamed, _⟩ := adds.own
    have unequal : (other' == name) = false := by simpa using differs
    rw [get?_eq renamed, get?_eq found, List.lookup_cons, unequal]
  · rw [get?, get?, adds.others other same]

theorem retains_bind? (bound : tree.bind? number name ty isMutable = some (binding, next)) :
    tree.Retains next := by
  have adds := adds_of_bind? bound
  refine ⟨later_bind? bound, fun {other other' kept} found => ?_⟩
  rw [adds.get?_other ?_, found]
  by_contra both
  obtain ⟨rfl, rfl⟩ : other = number ∧ other' = name := by simpa [not_or] using both
  rw [adds.fresh] at found
  cases found

theorem Adds.consistent (adds : Adds number name ty isMutable tree next binding)
    (consistent : tree.Consistent) : next.Consistent := by
  obtain ⟨scope, allocator, found, allocated, _, renamed, moved⟩ := adds.own
  refine ⟨consistent.toRooted.rename found renamed adds.others adds.created, fun {other entry} here => ?_⟩
  by_cases same : other = number
  · subst same
    cases renamed.symm.trans here
    have fresh := adds.fresh
    rw [get?_eq found, Nest.lookup_eq_none_iff] at fresh
    exact List.nodup_cons.mpr ⟨fresh, consistent.distinct found⟩
  · exact consistent.distinct ((adds.others other same).symm.trans here)

end Binding

/-- Opening, leaving and binding, in a scope that exists, keep all that there was. -/
theorem Consistent.perform (consistent : tree.Consistent) (done : tree.perform operation = some next) :
    next.Consistent ∧ tree.Retains next := by
  obtain ⟨present, rfl⟩ := perform_eq_some_iff.mp done
  cases operation with
  | openProgram => exact ⟨consistent.addOwner nofun, retains_addOwner tree _ _ _⟩
  | openParameters | openProcedure => exact ⟨consistent.addOwner present, retains_addOwner tree _ _ _⟩
  | openNested outer => exact ⟨consistent.openNested (present outer rfl), retains_openNested tree outer⟩
  | leave scope =>
    exact ⟨consistent.congr rfl (leave_created tree scope), (later_leave tree scope).retains id⟩
  | bind scope name ty isMutable =>
    cases bound : tree.bind? scope name ty isMutable with
    | none =>
      simp only [Operation.apply, bound]
      exact ⟨consistent, .refl tree⟩
    | some made =>
      simp only [Operation.apply, bound]
      exact ⟨(adds_of_bind? bound).consistent consistent, retains_bind? bound⟩

theorem Consistent.performAll {operations : List Operation} (consistent : tree.Consistent)
    (done : tree.performAll operations = some last) : last.Consistent ∧ tree.Retains last := by
  induction operations generalizing tree with
  | nil =>
    cases done
    exact ⟨consistent, .refl _⟩
  | cons operation rest ih =>
    obtain ⟨next, first, others⟩ := Option.bind_eq_some_iff.mp done
    obtain ⟨between, retains⟩ := consistent.perform first
    obtain ⟨final, later⟩ := ih between others
    exact ⟨final, retains.trans later⟩

theorem consistent_empty : empty.Consistent := by
  constructor
  · constructor <;> exact fun {number scope} found => by simp [empty] at found
  · exact fun {number scope} found => by simp [empty] at found

section Walk

variable {path : List Nat}

/-- Each scope on the way outward has a lower number, so that the way ends. -/
theorem Rooted.exists_outward (rooted : tree.Rooted) (isOpen : number < tree.scopes.size) :
    ∃ path, tree.Outward number path := by
  induction number using Nat.strongRecOn with
  | ind number ih =>
    have found := Array.getElem?_eq_getElem isOpen
    cases outside : tree.scopes[number].parent with
    | none => exact ⟨[number], .last found outside⟩
    | some outer =>
      have below := rooted.parent found outside
      obtain ⟨path, walk⟩ := ih outer below (Nat.lt_trans below isOpen)
      exact ⟨number :: path, .step found outside walk⟩

theorem Outward.length_le (walk : tree.Outward number path) (rooted : tree.Rooted) : path.length ≤ number + 1 := by
  induction walk with
  | last => simp
  | step found outside _ ih =>
    have below := rooted.parent found outside
    rw [List.length_cons]
    omega

theorem Outward.lookupWithin (walk : tree.Outward number path) (name : String) {budget : Nat}
    (enough : path.length ≤ budget) :
    tree.lookupWithin name budget number = path.findSome? fun scope => tree.get? scope name := by
  induction walk generalizing budget with
  | @last number scope found outside =>
    obtain ⟨budget, rfl⟩ : ∃ less, budget = less + 1 := ⟨budget - 1, by simp at enough; omega⟩
    rw [ScopeTree.lookupWithin, found, List.findSome?_singleton, get?_eq found]
    simp only [Scope.get?, outside]
    cases scope.names.lookup name <;> rfl
  | @step number outer scope path found outside _ ih =>
    obtain ⟨budget, rfl⟩ : ∃ less, budget = less + 1 := ⟨budget - 1, by simp at enough; omega⟩
    rw [ScopeTree.lookupWithin, found, List.findSome?_cons, get?_eq found, ← ih (by simpa using enough)]
    simp only [Scope.get?, outside]
    cases scope.names.lookup name <;> rfl

/-- Looking a name up finds what the first scope on the way outward that binds it binds it to. -/
theorem Outward.lookup (walk : tree.Outward number path) (rooted : tree.Rooted) (name : String) :
    tree.lookup number name = path.findSome? fun scope => tree.get? scope name :=
  walk.lookupWithin name (walk.length_le rooted)

end Walk

/-- Whatever was done with the scopes of a program: each lies below earlier ones, looking a name up finds
the nearest scope that binds it, a name once bound stays bound to the same, and binding a name fails only
if the scope binds it already, which changes nothing, and else changes that scope and its allocator only. -/
theorem names_written_once {operations : List Operation} (reached : empty.performAll operations = some tree) :
    (∀ (number : Nat) (scope : Scope) (outer : Nat), tree.scopes[number]? = some scope →
      scope.parent = some outer → outer < number) ∧
    (∀ number < tree.scopes.size, ∃ path, tree.Outward number path ∧
      ∀ name, tree.lookup number name = path.findSome? fun scope => tree.get? scope name) ∧
    (∀ more last, tree.performAll more = some last → ∀ number name binding,
      tree.get? number name = some binding → last.get? number name = some binding) ∧
    ∀ number < tree.scopes.size, ∀ name ty isMutable,
      (tree.bind? number name ty isMutable = none ↔ (tree.get? number name).isSome = true) ∧
      (tree.bind? number name ty isMutable = none →
        tree.perform (.bind number name ty isMutable) = some tree) ∧
      ∀ binding next, tree.bind? number name ty isMutable = some (binding, next) →
        tree.perform (.bind number name ty isMutable) = some next ∧
        Adds number name ty isMutable tree next binding := by
  have consistent := (consistent_empty.performAll reached).1
  have rooted := consistent.toRooted
  refine ⟨fun _ _ _ found outside => rooted.parent found outside, fun number isOpen => ?_,
    fun more last done _ _ _ found => (consistent.performAll done).2.names found,
    fun number isOpen name ty isMutable => ⟨rooted.bind?_eq_none_iff isOpen, fun refused => ?_,
      fun binding next bound => ⟨?_, adds_of_bind? bound⟩⟩⟩
  · obtain ⟨path, walk⟩ := rooted.exists_outward isOpen
    exact ⟨path, walk, walk.lookup rooted⟩
  · refine perform_eq_some_iff.mpr ⟨?_, by simp [Operation.apply, refused]⟩
    rintro _ ⟨⟩
    exact isOpen
  · refine perform_eq_some_iff.mpr ⟨?_, by simp [Operation.apply, bound]⟩
    rintro _ ⟨⟩
    exact isOpen

/-- A name that hides another one, is declared again and is used after the scope around it was left. -/
theorem names_written_once_hidden :
    ∃ tree, empty.performAll [.openProgram, .bind 0 "x" .int false, .openNested 0, .bind 1 "x" .bool true,
        .bind 0 "y" .int false, .leave 0, .bind 1 "x" .int false] = some tree ∧
      tree.lookup 1 "x" = some ⟨.bool, ⟨.global, 4⟩, "x", true⟩ ∧
      ∀ more last, tree.performAll more = some last →
        last.get? 1 "x" = some ⟨.bool, ⟨.global, 4⟩, "x", true⟩ := by
  have seen : ((empty.performAll [.openProgram, .bind 0 "x" .int false, .openNested 0, .bind 1 "x" .bool true,
      .bind 0 "y" .int false, .leave 0, .bind 1 "x" .int false]).map fun tree =>
        (tree.lookup 1 "x", tree.get? 1 "x")) =
      some (some ⟨.bool, ⟨.global, 4⟩, "x", true⟩, some ⟨.bool, ⟨.global, 4⟩, "x", true⟩) := by decide
  obtain ⟨tree, reached, both⟩ := Option.map_eq_some_iff.mp seen
  obtain ⟨found, here⟩ := Prod.mk.inj both
  exact ⟨tree, reached, found, fun more last done => (names_written_once reached).2.2.1 more last done 1 "x" _ here⟩

end ScopeTree

end Stackwright

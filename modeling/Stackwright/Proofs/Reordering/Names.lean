import Stackwright.Proofs.Nest

/-! Names that mean the same in whatever order they are declared. Names in nested blocks are only ever
looked up, declared and assigned, so the order within a block plays no part as long as no block declares
a name twice. -/

set_option autoImplicit false

namespace Stackwright

namespace Nest

variable {α β : Type} {related : α → β → Prop}

/-- What is found under a name in one block is related to what is found under it in the other. -/
def AlikeBlock (related : α → β → Prop) (block : List (String × α)) (other : List (String × β)) : Prop :=
  ∀ name, Option.Rel related (block.lookup name) (other.lookup name)

/-- Block by block, what is found under a name is related. -/
def Alike (related : α → β → Prop) (nest : Nest α) (other : Nest β) : Prop :=
  List.Forall₂ (AlikeBlock related) nest other

variable {nest outer : Nest α} {other : Nest β} {block : List (String × α)} {block' : List (String × β)}
  {name : String} {value : α} {value' : β}

theorem AlikeBlock.nil : AlikeBlock related [] [] := fun _ => .none

theorem AlikeBlock.of_forall {related : α → α → Prop} (each : ∀ entry ∈ block, related entry.2 entry.2) :
    AlikeBlock related block block := fun name => by
  cases found : block.lookup name with
  | none => exact .none
  | some value => exact .some (each _ (mem_of_lookup found))

theorem AlikeBlock.cons (alike : AlikeBlock related block block') (name : String)
    (also : related value value') : AlikeBlock related ((name, value) :: block) ((name, value') :: block') := by
  intro sought
  rw [List.lookup_cons, List.lookup_cons]
  split
  · exact .some also
  · exact alike sought

theorem AlikeBlock.isSome (alike : AlikeBlock related block block') (name : String) :
    (block.lookup name).isSome = (block'.lookup name).isSome := by
  have same := alike name
  cases here : block.lookup name <;> cases there : block'.lookup name <;> rw [here, there] at same
  · rfl
  · cases same
  · cases same
  · rfl

theorem Alike.openBlock (alike : Alike related nest other) : Alike related ([] :: nest) ([] :: other) :=
  .cons .nil alike

theorem Alike.tail (alike : Alike related nest other) : Alike related nest.tail other.tail := by
  cases alike with
  | nil => exact .nil
  | cons _ outer => exact outer

theorem Alike.find? (alike : Alike related nest other) (name : String) :
    Option.Rel related (nest.find? name) (other.find? name) := by
  induction alike with
  | nil => exact .none
  | @cons block block' _ _ here _ ih =>
    have same := here name
    rw [find?_cons, find?_cons]
    cases inner : block.lookup name <;> cases inner' : block'.lookup name <;> rw [inner, inner'] at same
    · exact ih
    · cases same
    · cases same
    · exact same

theorem Alike.find?_eq {nest' : Nest α} (alike : Alike Eq nest nest') (name : String) :
    nest.find? name = nest'.find? name := by
  have same := alike.find? name
  generalize nest.find? name = found, nest'.find? name = found' at same ⊢
  cases same with
  | none => rfl
  | some equal => rw [equal]

theorem Alike.declares_iff (alike : Alike related nest other) : nest.Declares name ↔ other.Declares name := by
  cases alike with
  | nil => simp [Declares]
  | @cons block block' _ _ here _ =>
    have same := here.isSome name
    simp only [Declares, List.head?_cons, Option.mem_def, Option.some.injEq, exists_eq_left']
    rw [← not_iff_not, ← lookup_eq_none_iff, ← lookup_eq_none_iff, ← Option.not_isSome_iff_eq_none,
      ← Option.not_isSome_iff_eq_none, same]

theorem Alike.declare (alike : Alike related nest other) (name : String) (also : related value value') :
    Alike related (nest.declare name value) (other.declare name value') := by
  cases alike with
  | nil => exact .cons (AlikeBlock.cons .nil name also) .nil
  | cons here outer => exact .cons (here.cons name also) outer

theorem lookup_replace (block : List (String × α)) (name sought : String) (value : α) :
    (assign.replace name value block).lookup sought =
      if sought = name then (block.lookup name).map fun _ => value else block.lookup sought := by
  induction block with
  | nil => simp [assign.replace]
  | cons entry rest ih =>
    obtain ⟨key, old⟩ := entry
    unfold assign.replace
    by_cases first : name = key
    · subst first
      by_cases same : sought = name
      · simp [same]
      · simp [beq_false_of_ne same, List.lookup_cons, same]
    · have skipped : (name == key) = false := beq_false_of_ne first
      by_cases same : sought = name
      · subst same
        simp [skipped, List.lookup_cons, ih]
      · simp [skipped, List.lookup_cons, ih, same]

theorem Alike.assign (alike : Alike related nest other) (name : String) (also : related value value') :
    Alike related (nest.assign name value) (other.assign name value') := by
  induction alike with
  | nil => exact .nil
  | @cons block block' outer outer' here rest ih =>
    unfold Nest.assign
    rw [← here.isSome name]
    split
    · refine .cons (fun sought => ?_) rest
      rw [lookup_replace, lookup_replace]
      split
      · have same := here name
        cases inner : block.lookup name <;> cases inner' : block'.lookup name <;> rw [inner, inner'] at same
        · exact .none
        · cases same
        · cases same
        · exact .some also
      · exact here sought
    · exact .cons here ih

theorem lookup_of_mem (distinct : (block.map Prod.fst).Nodup) (member : (name, value) ∈ block) :
    block.lookup name = some value := by
  induction block with
  | nil => cases member
  | cons entry rest ih =>
    obtain ⟨absent, distinct⟩ := List.nodup_cons.mp distinct
    rw [List.lookup_cons]
    rcases List.mem_cons.mp member with rfl | member
    · simp
    · have differs : name ≠ entry.1 := by
        rintro rfl
        exact absent (List.mem_map.mpr ⟨_, member, rfl⟩)
      simp only [beq_false_of_ne differs, ih distinct member]

/-- Blocks that declare the same names with related values; the second declares each of them once. -/
theorem alikeBlock_of_mem (distinct : (block'.map Prod.fst).Nodup)
    (there : ∀ entry ∈ block, ∃ value', (entry.1, value') ∈ block' ∧ related entry.2 value')
    (back : ∀ entry ∈ block', entry.1 ∈ block.map Prod.fst) : AlikeBlock related block block' := by
  intro name
  cases found : block.lookup name with
  | none =>
    have absent : name ∉ block'.map Prod.fst := by
      intro declared
      obtain ⟨entry, member, rfl⟩ := List.mem_map.mp declared
      exact (lookup_eq_none_iff block _).mp found (back entry member)
    rw [(lookup_eq_none_iff block' name).mpr absent]
    exact .none
  | some value =>
    obtain ⟨value', member, also⟩ := there _ (mem_of_lookup found)
    rw [lookup_of_mem distinct member]
    exact .some also

end Nest

end Stackwright

import Mathlib.Data.List.Forall2

/-! Names in nested blocks. The same structure serves for the types of names, for the places they
are stored at and for the values they have while a program runs. -/

set_option autoImplicit false

namespace Stackwright

/-- What the names of nested blocks stand for, the innermost block first and in each block the
latest declaration first. -/
abbrev Nest (α : Type) := List (List (String × α))

namespace Nest

variable {α β : Type}

/-- What the nearest declaration of a name gives it. -/
def find? (nest : Nest α) (name : String) : Option α :=
  nest.findSome? fun block => block.lookup name

/-- The innermost block declares the name. -/
def Declares (nest : Nest α) (name : String) : Prop :=
  ∃ block ∈ nest.head?, name ∈ block.map Prod.fst

/-- Declare a name in the innermost block. -/
def declare (nest : Nest α) (name : String) (value : α) : Nest α :=
  match nest with
  | [] => [[(name, value)]]
  | block :: outer => ((name, value) :: block) :: outer

/-- Replace what the nearest declaration of a name gives it. -/
def assign (nest : Nest α) (name : String) (value : α) : Nest α :=
  match nest with
  | [] => []
  | block :: outer =>
    if (block.lookup name).isSome then replace block :: outer else block :: assign outer name value
where
  replace : List (String × α) → List (String × α)
    | [] => []
    | entry :: rest => if name == entry.1 then (entry.1, value) :: rest else entry :: replace rest

def map (change : α → β) (nest : Nest α) : Nest β :=
  List.map (fun block => block.map fun entry => (entry.1, change entry.2)) nest

@[simp] theorem map_nil (change : α → β) : Nest.map change [] = [] := rfl

@[simp] theorem map_cons (change : α → β) (block : List (String × α)) (outer : Nest α) :
    Nest.map change (block :: outer) =
      (block.map fun entry => (entry.1, change entry.2)) :: Nest.map change outer := rfl

@[simp] theorem find?_nil (name : String) : find? ([] : Nest α) name = none := rfl

theorem find?_cons (block : List (String × α)) (outer : Nest α) (name : String) :
    find? (block :: outer) name = (block.lookup name).or (find? outer name) := by
  simp only [find?, List.findSome?_cons]
  cases block.lookup name <;> rfl

theorem lookup_map (change : α → β) (block : List (String × α)) (name : String) :
    (block.map fun entry => (entry.1, change entry.2)).lookup name = (block.lookup name).map change := by
  induction block with
  | nil => rfl
  | cons entry rest ih =>
    rw [List.map_cons, List.lookup_cons, List.lookup_cons, ih]
    cases name == entry.1 <;> rfl

theorem find?_map (change : α → β) (nest : Nest α) (name : String) :
    find? (nest.map change) name = (find? nest name).map change := by
  induction nest with
  | nil => rfl
  | cons block outer ih =>
    rw [map_cons, find?_cons, find?_cons, lookup_map, ih]
    cases block.lookup name <;> rfl

theorem lookup_eq_none_iff (block : List (String × α)) (name : String) :
    block.lookup name = none ↔ name ∉ block.map Prod.fst := by
  induction block with
  | nil => simp
  | cons entry rest ih =>
    rw [List.lookup_cons, List.map_cons, List.mem_cons, not_or]
    split
    next same => simp [beq_iff_eq.mp same]
    next differs =>
      have apart : name ≠ entry.1 := by simpa using differs
      rw [ih]
      exact ⟨fun absent => ⟨apart, absent⟩, And.right⟩

theorem mem_of_lookup {block : List (String × α)} {name : String} {value : α}
    (found : block.lookup name = some value) : (name, value) ∈ block := by
  induction block with
  | nil => simp at found
  | cons entry rest ih =>
    rw [List.lookup_cons] at found
    split at found
    next same =>
      cases found
      rw [beq_iff_eq.mp same]
      exact List.mem_cons_self
    · exact List.mem_cons_of_mem _ (ih found)

theorem mem_of_find? {nest : Nest α} {name : String} {value : α}
    (found : nest.find? name = some value) : ∃ block ∈ nest, (name, value) ∈ block := by
  obtain ⟨block, member, here⟩ := List.exists_of_findSome?_eq_some found
  exact ⟨block, member, mem_of_lookup here⟩

theorem flatten_declare (nest : Nest α) (name : String) (value : α) :
    (nest.declare name value).flatten = (name, value) :: nest.flatten := by
  cases nest <;> rfl

theorem mem_flatten_declare {nest : Nest α} {name : String} {value : α} {entry : String × α} :
    entry ∈ (nest.declare name value).flatten ↔ entry = (name, value) ∨ entry ∈ nest.flatten := by
  rw [flatten_declare, List.mem_cons]

/-- The same names are declared in two blocks, and what they stand for is related. -/
abbrev MatchesBlock (related : α → β → Prop) (block : List (String × α)) (other : List (String × β)) : Prop :=
  List.Forall₂ (fun entry entry' => entry.1 = entry'.1 ∧ related entry.2 entry'.2) block other

/-- The same names are declared at the same places, and what they stand for is related. -/
def Matches (related : α → β → Prop) (nest : Nest α) (other : Nest β) : Prop :=
  List.Forall₂ (MatchesBlock related) nest other

section Matches

variable {related related' : α → β → Prop} {nest : Nest α} {other : Nest β} {name : String}
  {value : α} {value' : β} {block : List (String × α)} {block' : List (String × β)}

theorem MatchesBlock.lookup (same : MatchesBlock related block block') (name : String) :
    Option.Rel related (block.lookup name) (block'.lookup name) := by
  induction same with
  | nil => exact .none
  | @cons entry entry' rest rest' first _ ih =>
    rw [List.lookup_cons, List.lookup_cons, ← first.1]
    split
    · exact .some first.2
    · exact ih

theorem MatchesBlock.imp (same : MatchesBlock related block block')
    (implies : ∀ entry ∈ block, ∀ value', related entry.2 value' → related' entry.2 value') :
    MatchesBlock related' block block' := by
  induction same with
  | nil => exact .nil
  | cons first _ ih =>
    refine .cons ⟨first.1, implies _ List.mem_cons_self _ first.2⟩ (ih fun entry member => ?_)
    exact implies entry (List.mem_cons_of_mem _ member)

theorem Matches.find (same : Matches related nest other) (found : nest.find? name = some value) :
    ∃ value', other.find? name = some value' ∧ related value value' := by
  induction same with
  | nil => cases found
  | @cons block block' outer outer' here _ ih =>
    rw [find?_cons] at found
    rw [find?_cons]
    have agree := MatchesBlock.lookup here name
    cases inner : block.lookup name <;> cases inner' : block'.lookup name <;>
      rw [inner, inner'] at agree <;> rw [inner] at found
    · exact ih found
    · cases agree
    · cases agree
    · cases agree
      cases found
      exact ⟨_, rfl, ‹_›⟩

theorem Matches.declare (same : Matches related nest other) (also : related value value') :
    Matches related (nest.declare name value) (other.declare name value') := by
  cases same with
  | nil => exact .cons (.cons ⟨rfl, also⟩ .nil) .nil
  | cons here outer => exact .cons (.cons ⟨rfl, also⟩ here) outer

theorem Matches.openBlock (same : Matches related nest other) : Matches related ([] :: nest) ([] :: other) :=
  .cons .nil same

theorem Matches.leaveBlock (same : Matches related (block :: nest) other) :
    Matches related nest other.tail := by
  cases same with
  | cons _ outer => exact outer

theorem Matches.imp (same : Matches related nest other)
    (implies : ∀ entry ∈ nest.flatten, ∀ value', related entry.2 value' → related' entry.2 value') :
    Matches related' nest other := by
  induction same with
  | nil => exact .nil
  | cons here _ ih =>
    rw [List.flatten_cons] at implies
    exact .cons (here.imp fun entry member => implies entry (List.mem_append_left _ member))
      (ih fun entry member => implies entry (List.mem_append_right _ member))

/-- A nest is related to another one if everything in it is related to something. -/
theorem exists_matches (exists_related : ∀ entry ∈ nest.flatten, ∃ value', related entry.2 value') :
    ∃ other, Matches related nest other := by
  have inBlock (block : List (String × α)) (each : ∀ entry ∈ block, ∃ value', related entry.2 value') :
      ∃ block', MatchesBlock related block block' := by
    induction block with
    | nil => exact ⟨[], .nil⟩
    | cons entry rest ih =>
      obtain ⟨value', here⟩ := each entry List.mem_cons_self
      obtain ⟨block', others⟩ := ih fun entry member => each entry (List.mem_cons_of_mem _ member)
      exact ⟨(entry.1, value') :: block', .cons ⟨rfl, here⟩ others⟩
  induction nest with
  | nil => exact ⟨[], .nil⟩
  | cons block outer ih =>
    rw [List.flatten_cons] at exists_related
    obtain ⟨block', here⟩ := inBlock block fun entry member => exists_related entry (List.mem_append_left _ member)
    obtain ⟨other, others⟩ := ih fun entry member => exists_related entry (List.mem_append_right _ member)
    exact ⟨block' :: other, .cons here others⟩

theorem Matches.map {γ : Type} {change : α → γ} {related : γ → β → Prop}
    (same : Matches (fun value => related (change value)) nest other) : Matches related (nest.map change) other :=
  List.forall₂_map_left_iff.mpr (List.Forall₂.imp (fun _ _ here => List.forall₂_map_left_iff.mpr here) same)

variable (apart : α → α → Prop) (symm : ∀ one two, apart one two → apart two one)
  (keep : ∀ entry entry', apart entry value → related entry entry' → related' entry entry')
  (hit : related' value value')

include symm keep hit

theorem MatchesBlock.replace (same : MatchesBlock related block block')
    (distinct : block.Pairwise fun one two => apart one.2 two.2) (found : block.lookup name = some value) :
    MatchesBlock related' block (assign.replace name value' block') := by
  induction same with
  | nil => cases found
  | @cons entry entry' rest rest' first others ih =>
    obtain ⟨away, distinct⟩ := List.pairwise_cons.mp distinct
    rw [List.lookup_cons] at found
    rw [assign.replace, ← first.1]
    split at found
    next here =>
      cases found
      rw [if_pos here]
      exact .cons ⟨rfl, hit⟩ (MatchesBlock.imp others fun later member _ =>
        keep _ _ (symm _ _ (away later member)))
    next elsewhere =>
      rw [elsewhere]
      exact .cons ⟨first.1, keep _ _ (away _ (mem_of_lookup found)) first.2⟩ (ih distinct found)

/-- Replacing a value keeps two nests related if every declaration that is apart from the replaced
one stays related. -/
theorem Matches.assign (same : Matches related nest other)
    (distinct : nest.flatten.Pairwise fun one two => apart one.2 two.2)
    (found : nest.find? name = some value) : Matches related' nest (other.assign name value') := by
  induction same with
  | nil => cases found
  | @cons block block' outer outer' here others ih =>
    rw [List.flatten_cons] at distinct
    obtain ⟨inside, outside, across⟩ := List.pairwise_append.mp distinct
    rw [find?_cons] at found
    rw [Nest.assign]
    have agree := MatchesBlock.lookup here name
    cases inner : block.lookup name <;> cases inner' : block'.lookup name <;>
      rw [inner, inner'] at agree <;> rw [inner] at found
    · obtain ⟨home, there, member⟩ := mem_of_find? found
      exact .cons (here.imp fun entry inBlock _ =>
        keep _ _ (across entry inBlock _ (List.mem_flatten.mpr ⟨home, there, member⟩))) (ih outside found)
    · cases agree
    · cases agree
    · cases found
      exact .cons (MatchesBlock.replace apart symm keep hit here inside inner)
        (Matches.imp others fun entry member _ =>
          keep _ _ (symm _ _ (across _ (mem_of_lookup inner) entry member)))

end Matches

end Nest

end Stackwright

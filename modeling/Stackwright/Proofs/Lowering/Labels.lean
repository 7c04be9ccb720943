import Mathlib.Data.List.Nodup
import Std.Data.String.ToNat
import Stackwright.Lowering.Program

/-! The labels of generated code. No two constructs share one, whatever is put in front of them, and
every jump goes to a label of the same piece of code or to the end of the function around it. -/

set_option autoImplicit false

namespace Stackwright

/-- What stands before and after the last dash of a text is determined by the text. -/
theorem lastDash_unique {before after before' after' : List Char}
    (same : before ++ '-' :: after = before' ++ '-' :: after') (dashless : '-' ∉ after)
    (dashless' : '-' ∉ after') : before = before' ∧ after = after' := by
  induction before generalizing before' with
  | nil =>
    cases before' with
    | nil => exact ⟨rfl, List.tail_eq_of_cons_eq same⟩
    | cons c rest =>
      injection same with _ same
      exact absurd (same ▸ List.mem_append_right rest List.mem_cons_self) dashless
  | cons c rest ih =>
    cases before' with
    | nil =>
      injection same with _ same
      exact absurd (same ▸ List.mem_append_right rest List.mem_cons_self) dashless'
    | cons c' rest' =>
      injection same with first same
      obtain ⟨rfl, here⟩ := ih same
      exact ⟨by rw [first], here⟩

theorem dash_notMem_toString (number : Nat) : '-' ∉ (toString number).toList := by
  intro member
  rw [Nat.toString_eq_repr, Nat.toList_repr] at member
  have digit := Nat.isDigit_of_mem_toDigits (by decide) (by decide) member
  exact absurd digit (by decide)

namespace Labeller

/-- The endings that labels of a family can have. -/
def endings : List String := ["arg1", "arg2", "sub", "true", "false", "join", "end", "else"]

/-- The label belongs to a family that was handed out between two labellers. -/
def Made (before after : Labeller) (label : String) : Prop :=
  ∃ name number ending, before.families ≤ number ∧ number < after.families ∧ ending ∈ endings ∧
    label = before.lead ++ "-" ++ name ++ "-" ++ toString number ++ "-" ++ ending

theorem dash_notMem_of_mem_endings {ending : String} (member : ending ∈ endings) : '-' ∉ ending.toList := by
  simp only [endings, List.mem_cons, List.not_mem_nil, or_false] at member
  rcases member with rfl | rfl | rfl | rfl | rfl | rfl | rfl | rfl <;> decide

theorem toList_label (lead name ending : String) (number : Nat) :
    (lead ++ "-" ++ name ++ "-" ++ toString number ++ "-" ++ ending).toList =
      ((lead ++ "-" ++ name).toList ++ '-' :: (toString number).toList) ++ '-' :: ending.toList := by
  simp [String.toList_append]

/-- A label tells the number of its family. -/
theorem number_unique {lead name name' ending ending' : String} {number number' : Nat}
    (member : ending ∈ endings) (member' : ending' ∈ endings)
    (same : lead ++ "-" ++ name ++ "-" ++ toString number ++ "-" ++ ending =
      lead ++ "-" ++ name' ++ "-" ++ toString number' ++ "-" ++ ending') : number = number' := by
  have chars := congrArg String.toList same
  rw [toList_label, toList_label] at chars
  obtain ⟨stems, _⟩ := lastDash_unique chars (dash_notMem_of_mem_endings member)
    (dash_notMem_of_mem_endings member')
  obtain ⟨_, digits⟩ := lastDash_unique stems (dash_notMem_toString number) (dash_notMem_toString number')
  exact Nat.repr_injective (String.toList_inj.mp digits)

variable {first second third : Labeller} {label : String}

theorem Made.mono (made : Made second third label) (lead : second.lead = first.lead)
    (le : first.families ≤ second.families) : Made first third label := by
  obtain ⟨name, number, ending, low, high, member, rfl⟩ := made
  exact ⟨name, number, ending, Nat.le_trans le low, high, member, by rw [lead]⟩

theorem Made.widen (made : Made first second label) (le : second.families ≤ third.families) :
    Made first third label := by
  obtain ⟨name, number, ending, low, high, member, rfl⟩ := made
  exact ⟨name, number, ending, low, Nat.lt_of_lt_of_le high le, member, rfl⟩

/-- What was handed out later is not what was handed out before. -/
theorem Made.not_again (made : Made first second label) (lead : second.lead = first.lead) :
    ¬ Made second third label := by
  rintro ⟨name', number', ending', low', _, member', rfl⟩
  obtain ⟨name, number, ending, _, high, member, same⟩ := made
  rw [lead] at same
  have agree := number_unique member' member same
  omega

end Labeller

namespace Code

@[simp] theorem definedLabels_nil : definedLabels [] = [] := rfl

theorem definedLabels_append (first second : Code) :
    definedLabels (first ++ second) = definedLabels first ++ definedLabels second := by
  simp [definedLabels]

theorem definedLabels_cons (instruction : Instruction) (rest : Code) :
    definedLabels (instruction :: rest) = definedLabels [instruction] ++ definedLabels rest :=
  definedLabels_append [instruction] rest

end Code

/-- Where the data that every program relies on lies in memory. -/
def Reserved.addresses : List (String × Nat) :=
  [(integerFormat, 0), (booleanFormat, 3), (newlineFormat, 6), (spaceFormat, 8), (trueString, 10),
    (falseString, 15), (stackPointer, 21), (framePointer, 25), (globalBlock, 29)]

namespace Instruction

/-- The instruction has the label it needs and no other: a jump goes to one of the given labels, and an
address is that of such a label or of reserved data. -/
def Links (labels : List String) (instruction : Instruction) : Prop :=
  match instruction.opcode with
  | .dataLabel | .dataZero | .dataString => False
  | .label => ∃ label, instruction.label? = some label
  | .pushAddress => ∃ label ∈ Reserved.addresses.map Prod.fst ++ labels, instruction.label? = some label
  | .jump | .jumpFalse | .jumpTrue | .jumpPositive => ∃ label ∈ labels, instruction.label? = some label
  | _ => instruction.label? = none

/-- The instruction neither defines a label nor jumps to one. -/
def isStraight (instruction : Instruction) : Bool :=
  match instruction.opcode with
  | .dataLabel | .dataZero | .dataString | .label | .jump | .jumpFalse | .jumpTrue | .jumpPositive => false
  | .pushAddress => instruction.label?.any fun label => (Reserved.addresses.map Prod.fst).contains label
  | _ => instruction.label?.isNone

variable {instruction : Instruction} {labels more : List String}

theorem Links.mono (links : instruction.Links labels) (wider : labels ⊆ more) : instruction.Links more := by
  unfold Links at links ⊢
  cases kind : instruction.opcode <;> rw [kind] at links <;> try exact links
  case pushAddress =>
    obtain ⟨label, member, has⟩ := links
    exact ⟨label, (List.mem_append.mp member).elim (List.mem_append_left _)
      fun known => List.mem_append_right _ (wider known), has⟩
  all_goals
    obtain ⟨label, member, has⟩ := links
    exact ⟨label, wider member, has⟩

theorem links_of_isStraight (straight : instruction.isStraight = true) : instruction.Links labels := by
  unfold isStraight at straight
  unfold Links
  cases kind : instruction.opcode <;> rw [kind] at straight <;> try cases straight
  case pushAddress =>
    obtain ⟨label, has, member⟩ := (Option.any_eq_true _ _).mp straight
    exact ⟨label, List.mem_append_left _ (List.contains_iff_mem.mp member), has⟩
  all_goals exact Option.isNone_iff_eq_none.mp straight

theorem definedLabels_of_isStraight {code : Code} (straight : code.all isStraight = true) :
    code.definedLabels = [] := by
  have none : code.filter (fun i => i.opcode == .label || i.opcode == .dataLabel) = [] := by
    rw [List.filter_eq_nil_iff]
    intro i member
    have here := List.all_eq_true.mp straight i member
    unfold isStraight at here
    split at here <;> simp_all
  rw [Code.definedLabels, none, List.filterMap_nil]

end Instruction

/-- Code that was generated between two labellers: its labels are new, it defines none of them
twice, and it jumps to no others but the given exits. -/
structure Emits (before after : Labeller) (exits : List String) (code : Code) : Prop where
  lead : after.lead = before.lead
  families : before.families ≤ after.families
  made : ∀ label ∈ code.definedLabels, Labeller.Made before after label
  nodup : code.definedLabels.Nodup
  links : ∀ instruction ∈ code, instruction.Links (code.definedLabels ++ exits)

namespace Emits

variable {first second third : Labeller} {exits : List String} {code more : Code}

theorem straight (labeller : Labeller) (isStraight : code.all Instruction.isStraight = true) :
    Emits labeller labeller exits code := by
  have none := Instruction.definedLabels_of_isStraight isStraight
  refine ⟨rfl, Nat.le_refl _, by simp [none], by simp [none], fun instruction member => ?_⟩
  exact Instruction.links_of_isStraight (List.all_eq_true.mp isStraight instruction member)

theorem append (one : Emits first second exits code) (two : Emits second third exits more) :
    Emits first third exits (code ++ more) := by
  have labels := Code.definedLabels_append code more
  refine ⟨two.lead.trans one.lead, Nat.le_trans one.families two.families, ?_, ?_, ?_⟩
  · intro label member
    rcases List.mem_append.mp (labels ▸ member) with member | member
    · exact (one.made label member).widen two.families
    · exact (two.made label member).mono one.lead one.families
  · rw [labels]
    refine List.nodup_append.mpr ⟨one.nodup, two.nodup, fun label member other again => ?_⟩
    rintro rfl
    exact (one.made label member).not_again one.lead (two.made label again)
  · intro instruction member
    rw [labels]
    rcases List.mem_append.mp member with member | member
    · refine (one.links instruction member).mono fun label known => ?_
      simp only [List.mem_append] at known ⊢
      tauto
    · refine (two.links instruction member).mono fun label known => ?_
      simp only [List.mem_append] at known ⊢
      tauto

theorem family {name : String} (own : List String) (inner : Emits (first.family name).2 second exits more)
    (labels : code.definedLabels.Perm (own.map (first.family name).1.label ++ more.definedLabels))
    (distinct : own.Nodup) (among : own ⊆ Labeller.endings)
    (links : ∀ instruction ∈ code, instruction ∈ more ∨
      instruction.Links (own.map (first.family name).1.label)) : Emits first second exits code := by
  have below : first.families + 1 ≤ second.families := inner.families
  have owned : ∀ label ∈ own.map (first.family name).1.label,
      Labeller.Made first (first.family name).2 label := by
    intro label member
    obtain ⟨ending, inside, rfl⟩ := List.mem_map.mp member
    exact ⟨name, first.families, ending, Nat.le_refl _, Nat.lt_succ_self _, among inside, rfl⟩
  refine ⟨inner.lead, Nat.le_of_succ_le below, fun label member => ?_, ?_, fun instruction member => ?_⟩
  · rcases List.mem_append.mp (labels.mem_iff.mp member) with member | member
    · exact (owned label member).widen inner.families
    · exact (inner.made label member).mono rfl (Nat.le_succ _)
  · rw [labels.nodup_iff]
    refine List.nodup_append.mpr ⟨?_, inner.nodup, fun label member other again => ?_⟩
    · exact List.Nodup.map (fun ending ending' same => (String.append_right_inj _).mp same) distinct
    · rintro rfl
      exact (owned label member).not_again rfl (inner.made label again)
  · rcases links instruction member with inside | here
    · refine (inner.links instruction inside).mono fun label known => ?_
      rw [List.mem_append, labels.mem_iff, List.mem_append]
      rcases List.mem_append.mp known with known | known <;> simp [known]
    · refine here.mono fun label known => ?_
      rw [List.mem_append, labels.mem_iff, List.mem_append]
      exact .inl (.inl known)

end Emits

end Stackwright

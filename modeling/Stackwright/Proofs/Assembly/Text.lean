import Mathlib
import Stackwright.Assembly.Instruction
import Stackwright.Proofs.Text.Lines
import Stackwright.Proofs.Token.Spacing

/-! The text of code determines the code. An operation tells what kind of operand it is written with, an operand
tells by itself where it ends, and what follows is the annotation; an instruction is one line. This holds of
instructions that have the operand of their operation, labels without blanks, and annotations that fit in a line
and do not end with a blank. -/

set_option autoImplicit false

namespace Stackwright

open Text

/-- What an operation can be written with. -/
inductive Operand.Kind where
  | int
  | label
  | string
  deriving DecidableEq, Repr

def Operand.kind : Operand → Operand.Kind
  | .int _ => .int
  | .label _ => .label
  | .string _ => .string

/-- The kind of operand that an operation is written with, if it is written with one. -/
def Opcode.operandKind (opcode : Opcode) : Option Operand.Kind :=
  match opcode with
  | .pushInt | .dataZero => some .int
  | .dataString => some .string
  | other => if other.takesLabel then some .label else none

/-- The annotation stays on its line and ends with a character that is no blank. -/
structure Text.Tidy (comment : String) : Prop where
  plain : '\n' ∉ comment.toList
  closed : Closed comment.toList

/-- The operand is one that the operation takes, and neither a label nor the annotation hides where it ends. -/
structure Instruction.WellFormed (instruction : Instruction) : Prop where
  kind : instruction.operand.map Operand.kind = instruction.opcode.operandKind
  label : ∀ name ∈ instruction.label?, Solid name
  comment : ∀ comment ∈ instruction.comment, Tidy comment

def Code.WellFormed (code : Code) : Prop := ∀ instruction ∈ code, instruction.WellFormed

namespace Instruction

section WellFormed

variable {opcode : Opcode} {instruction : Instruction}

@[simp] theorem wellFormed_plain : (plain opcode).WellFormed ↔ opcode.operandKind = none :=
  ⟨fun wellFormed => wellFormed.kind.symm, fun kind => ⟨kind.symm, nofun, nofun⟩⟩

@[simp] theorem wellFormed_withInt (value : Int32) :
    (withInt opcode value).WellFormed ↔ opcode.operandKind = some .int :=
  ⟨fun wellFormed => wellFormed.kind.symm, fun kind => ⟨kind.symm, nofun, nofun⟩⟩

@[simp] theorem wellFormed_withLabel (name : String) :
    (withLabel opcode name).WellFormed ↔ opcode.operandKind = some .label ∧ Solid name := by
  refine ⟨fun wellFormed => ⟨wellFormed.kind.symm, wellFormed.label name rfl⟩, fun ⟨kind, solid⟩ => ?_⟩
  exact ⟨kind.symm, fun other same => Option.some.inj same ▸ solid, nofun⟩

@[simp] theorem wellFormed_withString (text : String) :
    (withString opcode text).WellFormed ↔ opcode.operandKind = some .string :=
  ⟨fun wellFormed => wellFormed.kind.symm, fun kind => ⟨kind.symm, nofun, nofun⟩⟩

theorem WellFormed.annotate {comment : String} (wellFormed : instruction.WellFormed) (tidy : Tidy comment) :
    (instruction.annotate comment).WellFormed := by
  unfold Instruction.annotate
  split
  · exact wellFormed
  · exact ⟨wellFormed.kind, wellFormed.label, fun other same => Option.some.inj same ▸ tidy⟩

theorem WellFormed.stripComment (wellFormed : instruction.WellFormed) : instruction.stripComment.WellFormed :=
  ⟨wellFormed.kind, wellFormed.label, nofun⟩

end WellFormed

end Instruction

namespace Code

@[simp] theorem wellFormed_nil : Code.WellFormed [] := List.forall_mem_nil _

@[simp] theorem wellFormed_cons (instruction : Instruction) (code : Code) :
    Code.WellFormed (instruction :: code) ↔ instruction.WellFormed ∧ code.WellFormed :=
  List.forall_mem_cons

@[simp] theorem wellFormed_append (first second : Code) :
    Code.WellFormed (first ++ second) ↔ first.WellFormed ∧ second.WellFormed :=
  List.forall_mem_append

theorem wellFormed_flatMap {α : Type} {items : List α} {write : α → Code}
    (each : ∀ item ∈ items, (write item).WellFormed) : Code.WellFormed (items.flatMap write) := by
  intro instruction member
  obtain ⟨item, among, inside⟩ := List.mem_flatMap.mp member
  exact each item among instruction inside

theorem WellFormed.stripComments {code : Code} (wellFormed : code.WellFormed) : code.stripComments.WellFormed :=
  List.forall_mem_map.mpr fun instruction member => (wellFormed instruction member).stripComment

end Code

namespace Opcode

theorem ofMnemonic?_mnemonic (opcode : Opcode) : ofMnemonic? opcode.mnemonic = some opcode := by
  cases opcode <;> decide

theorem mnemonic_injective : Function.Injective mnemonic := by
  intro one other same
  have found := ofMnemonic?_mnemonic one
  rw [same, ofMnemonic?_mnemonic] at found
  exact (Option.some.inj found).symm

theorem solid_mnemonic (opcode : Opcode) : Solid opcode.mnemonic := by
  cases opcode <;> decide

/-- The column of the mnemonics is wider than each of them. -/
theorem length_mnemonic_lt (opcode : Opcode) : opcode.mnemonic.length < Instruction.mnemonicWidth := by
  cases opcode <;> decide

end Opcode

namespace Operand

/-- The characters of a quoted text are told one by one. -/
theorem escaped_append_inj {c d : Char} {rest rest' : List Char} (same : escaped c ++ rest = escaped d ++ rest') :
    c = d ∧ rest = rest' := by
  unfold escaped at same
  split at same <;> split at same <;> grind

theorem head?_escaped_ne (c : Char) (rest : List Char) : (escaped c ++ rest).head? ≠ some '"' := by
  unfold escaped
  split <;> grind

/-- A quoted text ends at the first quote that is not escaped. -/
theorem flatMap_escaped_append_inj {chars other rest rest' : List Char}
    (same : chars.flatMap escaped ++ '"' :: rest = other.flatMap escaped ++ '"' :: rest') :
    chars = other ∧ rest = rest' := by
  induction chars generalizing other with
  | nil =>
    cases other with
    | nil => exact ⟨rfl, List.tail_eq_of_cons_eq same⟩
    | cons d other =>
      rw [List.flatMap_cons, List.append_assoc] at same
      exact absurd (congrArg List.head? same).symm (head?_escaped_ne d _)
  | cons c chars ih =>
    rw [List.flatMap_cons, List.append_assoc] at same
    cases other with
    | nil => exact absurd (congrArg List.head? same) (head?_escaped_ne c _)
    | cons d other =>
      rw [List.flatMap_cons, List.append_assoc] at same
      obtain ⟨rfl, more⟩ := escaped_append_inj same
      obtain ⟨rfl, rest⟩ := ih more
      exact ⟨rfl, rest⟩

theorem newline_notMem_escaped (c : Char) : '\n' ∉ escaped c := by
  unfold escaped
  split <;> grind

theorem toList_quoted (text : String) : (quoted text).toList = '"' :: (text.toList.flatMap escaped ++ ['"']) := by
  rw [quoted, String.toList_ofList, List.cons_append]

theorem solid_digits (number : Nat) : Solid (toString number) := by
  refine ⟨fun empty => toString_ne_nil number (String.toList_eq_nil_iff.mpr empty), fun c member => ?_⟩
  have bounds := bounds_of_isDigit (isDigit_of_mem_toString member)
  exact (visible_of_ascii (by omega) (by omega)).1

theorem solid_toString (value : Int) : Solid (toString value) := by
  cases value with
  | ofNat number => exact solid_digits number
  | negSucc number =>
    have minus : Solid "-" := by decide
    exact minus.append (solid_digits (number + 1)).2

theorem closed_text {operand : Operand} (label : ∀ name, operand = .label name → Solid name) :
    Closed operand.text.toList := by
  cases operand with
  | int value => exact (solid_toString value.toInt).closed
  | label name => exact (label name rfl).closed
  | string text =>
    rw [Operand.text, toList_quoted, ← List.cons_append]
    exact Closed.append ⟨'"', rfl, by decide⟩ _

theorem newline_notMem_text {operand : Operand} (label : ∀ name, operand = .label name → Solid name) :
    '\n' ∉ operand.text.toList := by
  cases operand with
  | int value => exact (solid_toString value.toInt).newline_notMem
  | label name => exact (label name rfl).newline_notMem
  | string text =>
    rw [Operand.text, toList_quoted]
    simp [newline_notMem_escaped]

/-- Up to the end of the text or a space, an operand without blanks is told apart from what follows. -/
theorem solid_append_inj {one other : String} (solid : Solid one) (solid' : Solid other) {rest rest' : List Char}
    (ends : Ends rest) (ends' : Ends rest') (same : one.toList ++ rest = other.toList ++ rest') :
    one = other ∧ rest = rest' := by
  have visible {text : String} (solid : Solid text) : ∀ c ∈ text.toList, (!isBlank c) = true := fun c member => by
    rw [solid.2 c member, Bool.not_false]
  obtain ⟨taken, dropped⟩ := span_of_ends (visible solid) ends (by decide)
  obtain ⟨taken', dropped'⟩ := span_of_ends (visible solid') ends' (by decide)
  rw [same] at taken dropped
  exact ⟨String.toList_inj.mp (taken.symm.trans taken'), dropped.symm.trans dropped'⟩

/-- An operand of a known kind is told apart from what follows it. -/
theorem text_append_inj {one other : Operand} (kind : one.kind = other.kind)
    (label : ∀ name, one = .label name → Solid name) (label' : ∀ name, other = .label name → Solid name)
    {rest rest' : List Char} (ends : Ends rest) (ends' : Ends rest')
    (same : one.text.toList ++ rest = other.text.toList ++ rest') : one = other ∧ rest = rest' := by
  cases one with
  | int value =>
    cases other with
    | int value' =>
      obtain ⟨digits, rest⟩ := solid_append_inj (solid_toString _) (solid_toString _) ends ends' same
      exact ⟨congrArg Operand.int (Int32.toInt_inj.mp (Int.repr_injective digits)), rest⟩
    | label | string => cases kind
  | label name =>
    cases other with
    | label name' =>
      obtain ⟨rfl, rest⟩ := solid_append_inj (label name rfl) (label' name' rfl) ends ends' same
      exact ⟨rfl, rest⟩
    | int | string => cases kind
  | string text =>
    cases other with
    | string text' =>
      simp only [Operand.text, toList_quoted, List.cons_append, List.append_assoc, List.nil_append] at same
      obtain ⟨chars, rest⟩ := flatMap_escaped_append_inj (List.tail_eq_of_cons_eq same)
      exact ⟨congrArg Operand.string (String.toList_inj.mp chars), rest⟩
    | int | label => cases kind

end Operand

namespace Instruction

variable {instruction other : Instruction}

/-- What follows the operand. -/
def remark (instruction : Instruction) : List Char :=
  match instruction.comment with
  | some comment => ' ' :: comment.toList
  | none => []

/-- The operand, if there is one, and what follows it. -/
def fields (instruction : Instruction) : List Char :=
  match instruction.operand with
  | some operand => operand.text.toList ++ instruction.remark
  | none => instruction.remark

theorem ends_remark (instruction : Instruction) : Ends instruction.remark := by
  unfold remark
  split <;> simp [Ends]

theorem remark_inj (same : instruction.remark = other.remark) : instruction.comment = other.comment := by
  unfold remark at same
  split at same <;> split at same <;> simp_all [String.toList_inj]

theorem WellFormed.solid (wellFormed : instruction.WellFormed) {operand : Operand}
    (written : instruction.operand = some operand) : ∀ name, operand = .label name → Solid name := by
  rintro name rfl
  exact wellFormed.label name (by simp [label?, written])

/-- The fields of two well-formed instructions for the same operation agree only if all of them do. -/
theorem fields_inj (wellFormed : instruction.WellFormed) (wellFormed' : other.WellFormed)
    (opcode : instruction.opcode = other.opcode) (same : instruction.fields = other.fields) : instruction = other := by
  have kind : instruction.operand.map Operand.kind = other.operand.map Operand.kind := by
    rw [wellFormed.kind, wellFormed'.kind, opcode]
  obtain ⟨operand, remark⟩ : instruction.operand = other.operand ∧ instruction.remark = other.remark := by
    unfold fields at same
    cases written : instruction.operand with
    | none =>
      have absent : other.operand = none := by simpa [written] using kind.symm
      rw [written, absent] at same
      exact ⟨absent.symm, same⟩
    | some operand =>
      obtain ⟨operand', written', kind'⟩ : ∃ operand', other.operand = some operand' ∧
          operand'.kind = operand.kind := by simpa [written] using kind.symm
      rw [written, written'] at same
      obtain ⟨rfl, remark⟩ := Operand.text_append_inj kind'.symm (wellFormed.solid written)
        (wellFormed'.solid written') (ends_remark _) (ends_remark _) same
      exact ⟨written'.symm, remark⟩
  cases instruction
  cases other
  exact (mk.injEq ..).mpr ⟨opcode, operand, remark_inj remark⟩

theorem WellFormed.closed_remark (wellFormed : instruction.WellFormed) :
    instruction.remark = [] ∨ Closed instruction.remark := by
  unfold remark
  split
  next comment noted => exact .inr ((wellFormed.comment comment noted).closed.append [' '])
  next => exact .inl rfl

theorem WellFormed.closed_fields (wellFormed : instruction.WellFormed) :
    instruction.fields = [] ∨ Closed instruction.fields := by
  unfold fields
  split
  next operand written =>
    rcases wellFormed.closed_remark with empty | closed
    · rw [empty, List.append_nil]
      exact .inr (Operand.closed_text (wellFormed.solid written))
    · exact .inr (closed.append _)
  next => exact wellFormed.closed_remark

theorem WellFormed.newline_notMem_fields (wellFormed : instruction.WellFormed) : '\n' ∉ instruction.fields := by
  have remark : '\n' ∉ instruction.remark := by
    unfold remark
    split
    next comment noted => simpa using (wellFormed.comment comment noted).plain
    next => exact List.not_mem_nil
  unfold fields
  split
  next operand written =>
    rw [List.mem_append]
    exact not_or.mpr ⟨Operand.newline_notMem_text (wellFormed.solid written), remark⟩
  next => exact remark

/-- The column of the mnemonic with the blanks in front of it. -/
def column (instruction : Instruction) : List Char :=
  List.replicate indent ' ' ++ instruction.opcode.mnemonic.toList

/-- The blanks up to the column of the fields. -/
def gap (instruction : Instruction) : List Char :=
  List.replicate (mnemonicWidth - instruction.opcode.mnemonic.length) ' '

/-- What stands behind the mnemonic: the fields in their column, or nothing. -/
def tail (instruction : Instruction) : List Char :=
  if instruction.fields = [] then []
  else instruction.gap ++ instruction.fields

theorem toList_text_eq (instruction : Instruction) :
    instruction.text.toList = trimEnd (instruction.column ++ (instruction.gap ++ instruction.fields)) := by
  rw [text, String.toList_ofList]
  refine congrArg trimEnd ?_
  unfold fields remark column gap
  cases instruction.operand <;> cases instruction.comment <;> simp [repeated, padRight]

theorem closed_column (instruction : Instruction) : Closed instruction.column :=
  (Opcode.solid_mnemonic instruction.opcode).closed.append _

theorem WellFormed.toList_text (wellFormed : instruction.WellFormed) :
    instruction.text.toList = instruction.column ++ instruction.tail := by
  rw [toList_text_eq, tail]
  split
  next empty =>
    rw [empty, List.append_nil, List.append_nil]
    exact trimEnd_append instruction.closed_column fun c member => by
      rw [List.eq_of_mem_replicate member]
      decide
  next some =>
    have closed := wellFormed.closed_fields.resolve_left some
    exact trimEnd_of_closed ((closed.append _).append _)

/-- Behind the mnemonic there is a space or nothing. -/
theorem ends_tail (instruction : Instruction) : Ends instruction.tail := by
  unfold tail gap
  split
  · simp [Ends]
  · obtain ⟨more, wider⟩ := Nat.exists_eq_add_of_lt instruction.opcode.length_mnemonic_lt
    have blanks : mnemonicWidth - instruction.opcode.mnemonic.length = more + 1 := by omega
    rw [blanks, List.replicate_succ]
    simp [Ends]

theorem tail_inj (opcode : instruction.opcode = other.opcode) (same : instruction.tail = other.tail) :
    instruction.fields = other.fields := by
  unfold tail gap at same
  rw [opcode] at same
  split at same
  next empty =>
    split at same
    next empty' => rw [empty, empty']
    next some => exact absurd (List.append_eq_nil_iff.mp same.symm).2 some
  next some =>
    split at same
    next => exact absurd (List.append_eq_nil_iff.mp same).2 some
    next => exact List.append_cancel_left same

/-- Two well-formed instructions with the same text are the same. -/
theorem WellFormed.text_inj (wellFormed : instruction.WellFormed) (wellFormed' : other.WellFormed)
    (same : instruction.text = other.text) : instruction = other := by
  have chars := congrArg String.toList same
  rw [wellFormed.toList_text, wellFormed'.toList_text, column, column, List.append_assoc, List.append_assoc] at chars
  obtain ⟨mnemonic, tail⟩ := Operand.solid_append_inj instruction.opcode.solid_mnemonic other.opcode.solid_mnemonic
    instruction.ends_tail other.ends_tail (List.append_cancel_left chars)
  have opcode := Opcode.mnemonic_injective mnemonic
  exact fields_inj wellFormed wellFormed' opcode (tail_inj opcode tail)

theorem WellFormed.closed_text (wellFormed : instruction.WellFormed) : Closed instruction.text.toList := by
  rw [wellFormed.toList_text, tail]
  split
  next =>
    rw [List.append_nil]
    exact instruction.closed_column
  next some => exact ((wellFormed.closed_fields.resolve_left some).append _).append _

theorem WellFormed.newline_notMem (wellFormed : instruction.WellFormed) : '\n' ∉ instruction.text.toList := by
  have spaces (count : Nat) : '\n' ∉ List.replicate count ' ' := fun member =>
    absurd (List.eq_of_mem_replicate member) (by decide)
  have mnemonic := instruction.opcode.solid_mnemonic.newline_notMem
  have fields := wellFormed.newline_notMem_fields
  rw [wellFormed.toList_text, column, tail]
  split
  · simp [spaces, mnemonic]
  · simp [gap, spaces, mnemonic, fields]

end Instruction

namespace Code

variable {code other : Code}

theorem toList_text (code : Code) :
    code.text.toList = (code.map fun instruction => instruction.text.toList).flatMap fun line => line ++ ['\n'] := by
  simp [text, String.toList_join, List.flatMap_map]

/-- Every instruction is one line. -/
theorem WellFormed.lines_text (wellFormed : code.WellFormed) : lines code.text = code.map Instruction.text := by
  have plain : ∀ line ∈ code.map (fun instruction => instruction.text.toList),
      '\n' ∉ line ∧ line.getLast? ≠ some '\r' := by
    refine List.forall_mem_map.mpr fun instruction member => ⟨(wellFormed instruction member).newline_notMem, ?_⟩
    intro isReturn
    obtain ⟨last, found, visible⟩ := (wellFormed instruction member).closed_text
    obtain rfl := Option.some.inj (isReturn.symm.trans found)
    exact absurd visible (by decide)
  rw [lines, toList_text, splitLines_flatMap plain, List.map_map]
  exact List.map_congr_left fun instruction _ => String.ofList_toList

/-- The text of well-formed code determines the code. -/
theorem WellFormed.text_inj (wellFormed : code.WellFormed) (wellFormed' : other.WellFormed)
    (same : code.text = other.text) : code = other := by
  have texts : code.map Instruction.text = other.map Instruction.text := by
    rw [← wellFormed.lines_text, ← wellFormed'.lines_text, same]
  clear same
  induction code generalizing other with
  | nil => exact (List.map_eq_nil_iff.mp texts.symm).symm
  | cons instruction code ih =>
    cases other with
    | nil => cases texts
    | cons first other =>
      obtain ⟨here, rest⟩ := List.forall_mem_cons.mp wellFormed
      obtain ⟨here', rest'⟩ := List.forall_mem_cons.mp wellFormed'
      obtain ⟨text, texts⟩ := List.cons.inj texts
      rw [here.text_inj here' text, ih rest rest' texts]

end Code

end Stackwright

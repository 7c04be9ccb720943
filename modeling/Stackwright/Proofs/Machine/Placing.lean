import Mathlib
import Stackwright.Proofs.Machine.Loading

/-! How much data code lays out, and which names it gives to places. Code that names each place once
and refers to named places only is loaded exactly if its data fits into the memory. -/

set_option autoImplicit false

namespace Stackwright

open Machine

namespace Instruction

/-- The name that an instruction gives or refers to; a missing one counts as empty. -/
def mark (instruction : Instruction) : String := instruction.label?.getD ""

/-- The bytes that a directive adds to the data. -/
def dataSize (instruction : Instruction) : Nat :=
  match instruction.opcode with
  | .dataZero => (instruction.int?.getD 0).toInt.toNat
  | .dataString => (Memory.textBytes (instruction.string?.getD "")).length
  | _ => 0

/-- The names that an instruction gives to a place in the code. -/
def targets (instruction : Instruction) : List String :=
  match instruction.opcode with
  | .label => [instruction.mark]
  | _ => []

/-- The names that an instruction gives to a place in the code or in the data. -/
def marks (instruction : Instruction) : List String :=
  match instruction.opcode with
  | .label | .dataLabel => [instruction.mark]
  | _ => []

end Instruction

namespace Code

def dataSize (code : Code) : Nat := (code.map Instruction.dataSize).sum

/-- The names of all places in the code, in order. -/
def targets (code : Code) : List String := code.flatMap Instruction.targets

/-- The names of all places in the code and the data, in order. -/
def marks (code : Code) : List String := code.flatMap Instruction.marks

variable {instruction : Instruction} {code : Code}

theorem dataSize_cons : dataSize (instruction :: code) = instruction.dataSize + dataSize code := by
  simp [dataSize]

theorem targets_cons : targets (instruction :: code) = instruction.targets ++ targets code :=
  List.flatMap_cons

theorem marks_cons : marks (instruction :: code) = instruction.marks ++ marks code :=
  List.flatMap_cons

end Code

namespace Machine.Layout

/-- What is known after the directives of some code were noted. -/
structure Adds (layout next : Layout) (code : Code) : Prop where
  dataSize : next.dataSize = layout.dataSize + code.dataSize
  memory : next.memory.size = layout.memory.size
  targets : ∀ label, (next.target? label).isSome ↔ (layout.target? label).isSome ∨ label ∈ code.targets
  marks : ∀ label, next.isDefined label = true ↔ layout.isDefined label = true ∨ label ∈ code.marks

variable {layout next last : Layout} {index : Nat} {instruction : Instruction} {code : Code}

theorem Adds.refl (layout : Layout) : layout.Adds layout [] :=
  ⟨rfl, rfl, fun _ => by simp [Code.targets], fun _ => by simp [Code.marks]⟩

theorem Adds.cons (one : layout.Adds next [instruction]) (two : next.Adds last code) :
    layout.Adds last (instruction :: code) := by
  have single : Code.dataSize [instruction] = instruction.dataSize := by simp [Code.dataSize]
  refine ⟨?_, two.memory.trans one.memory, fun label => ?_, fun label => ?_⟩
  · rw [two.dataSize, one.dataSize, single, Code.dataSize_cons, Nat.add_assoc]
  · rw [two.targets, one.targets, Code.targets_cons, Code.targets_cons, List.mem_append, List.mem_append]
    simp [Code.targets, or_assoc]
  · rw [two.marks, one.marks, Code.marks_cons, Code.marks_cons, List.mem_append, List.mem_append]
    simp [Code.marks, or_assoc]

theorem isSome_lookup_cons {label other : String} {value : Nat} {entries : List (String × Nat)} :
    (((other, value) :: entries).lookup label).isSome ↔ label = other ∨ (entries.lookup label).isSome := by
  rw [List.lookup_cons]
  by_cases same : label = other
  · simp [same]
  · rw [beq_false_of_ne same]
    exact (or_iff_right same).symm

/-- An instruction that names no place that has a name already is noted, or there is no memory left
for its data. -/
theorem place_of_fresh (fresh : ∀ label ∈ instruction.marks, layout.isDefined label = false) :
    (∃ next, layout.place index instruction = .ok next ∧ layout.Adds next [instruction]) ∨
      layout.place index instruction =
          .error (.outOfMemory (layout.dataSize + instruction.dataSize) layout.memory.size) ∧
        layout.memory.size < layout.dataSize + instruction.dataSize := by
  cases kind : instruction.opcode
  case dataString =>
    have size : instruction.dataSize = (Memory.textBytes (instruction.string?.getD "")).length := by
      simp [Instruction.dataSize, kind]
    rw [place_string kind, size]
    split
    next fits =>
      left
      refine ⟨_, rfl, by simp [Code.dataSize, size], by simp, fun label => ?_, fun label => ?_⟩
      · simp [target?, Code.targets, Instruction.targets, kind]
      · simp [isDefined, address?, target?, Code.marks, Instruction.marks, kind]
    next full => exact .inr ⟨rfl, Nat.lt_of_not_le full⟩
  all_goals
    unfold place
    rw [kind]
  case label =>
    have new : layout.isDefined instruction.mark = false := fresh _ (by simp [Instruction.marks, kind])
    left
    refine ⟨{ layout with codeLabels := (instruction.mark, index) :: layout.codeLabels }, ?_, ?_⟩
    · dsimp only
      rw [← Instruction.mark, new]
      rfl
    · refine ⟨by simp [Code.dataSize, Instruction.dataSize, kind], rfl, fun label => ?_, fun label => ?_⟩
      · rw [target?, isSome_lookup_cons, or_comm]
        simp [target?, Code.targets, Instruction.targets, kind]
      · rw [isDefined, address?, Option.isSome_or, Bool.or_eq_true, target?, isSome_lookup_cons, or_left_comm, or_comm]
        simp [isDefined, address?, target?, Code.marks, Instruction.marks, kind]
  case dataLabel =>
    have new : layout.isDefined instruction.mark = false := fresh _ (by simp [Instruction.marks, kind])
    left
    refine ⟨{ layout with dataLabels := (instruction.mark, layout.dataSize) :: layout.dataLabels }, ?_, ?_⟩
    · dsimp only
      rw [← Instruction.mark, new]
      rfl
    · refine ⟨by simp [Code.dataSize, Instruction.dataSize, kind], rfl, fun label => ?_, fun label => ?_⟩
      · simp [target?, Code.targets, Instruction.targets, kind]
      · rw [isDefined, address?, Option.isSome_or, Bool.or_eq_true, isSome_lookup_cons, or_assoc, or_comm]
        simp [isDefined, address?, target?, Code.marks, Instruction.marks, kind]
  all_goals
    left
    refine ⟨_, rfl, by simp [Code.dataSize, Instruction.dataSize, kind], rfl, fun label => ?_, fun label => ?_⟩
    · simp [target?, Code.targets, Instruction.targets, kind]
    · simp [isDefined, address?, target?, Code.marks, Instruction.marks, kind]

/-- Code that names each place once is noted, or there is no memory left for its data. -/
theorem placeAll_of_fresh (index : Nat) (distinct : code.marks.Nodup)
    (fresh : ∀ label ∈ code.marks, layout.isDefined label = false) :
    (∃ next, layout.placeAll index code = .ok next ∧ layout.Adds next code) ∨
      ∃ required, layout.placeAll index code = .error (.outOfMemory required layout.memory.size) ∧
        layout.memory.size < required ∧ required ≤ layout.dataSize + code.dataSize := by
  induction code generalizing layout index with
  | nil => exact .inl ⟨layout, rfl, .refl layout⟩
  | cons instruction rest ih =>
    rw [Code.marks_cons] at distinct fresh
    obtain ⟨_, distinct, apart⟩ := List.nodup_append.mp distinct
    rw [placeAll, Code.dataSize_cons]
    rcases place_of_fresh fun label member => fresh label (List.mem_append_left _ member) with
      ⟨next, placed, adds⟩ | ⟨failed, full⟩
    · have later : ∀ label ∈ Code.marks rest, next.isDefined label = false := by
        intro label member
        rw [← Bool.not_eq_true, adds.marks]
        rintro (known | own)
        · rw [fresh label (List.mem_append_right _ member)] at known
          cases known
        · exact apart label (by simpa [Code.marks] using own) label member rfl
      rw [placed]
      rcases ih (index + 1) distinct later with ⟨last, rest_eq, more⟩ | ⟨required, rest_eq, exceeds, within⟩
      · exact .inl ⟨last, rest_eq, adds.cons more⟩
      · refine .inr ⟨required, ?_, ?_, ?_⟩
        · rw [← adds.memory]
          exact rest_eq
        · rwa [← adds.memory]
        · have size := adds.dataSize
          rw [Code.dataSize_cons] at size
          have empty : Code.dataSize [] = 0 := rfl
          omega
    · rw [failed]
      exact .inr ⟨_, rfl, full, by omega⟩

/-- An instruction is resolved if the place that it refers to has a name. -/
theorem resolve_of_known (jumps : instruction.opcode.isJump = true → (layout.target? instruction.mark).isSome)
    (addresses : instruction.opcode = .pushAddress → layout.isDefined instruction.mark = true) :
    ∃ op, layout.resolve instruction = .ok op := by
  unfold resolve
  cases kind : instruction.opcode <;> rw [kind] at jumps addresses <;> try exact ⟨_, rfl⟩
  case pushAddress =>
    obtain ⟨address, found⟩ := Option.isSome_iff_exists.mp (addresses rfl)
    rw [Instruction.mark] at found
    simp [addressOf, found, Except.map]
  all_goals
    obtain ⟨index, found⟩ := Option.isSome_iff_exists.mp (jumps rfl)
    rw [Instruction.mark] at found
    simp [targetOf, found, Except.map]

end Machine.Layout

/-- Code that names each place once, and refers to places that it names only, is loaded if its data
fits into the memory; if not, that is what is wrong. -/
theorem Machine.Image.load_of_marks {code : Code} (distinct : code.marks.Nodup)
    (jumps : ∀ instruction ∈ code, instruction.opcode.isJump = true → instruction.mark ∈ code.targets)
    (addresses : ∀ instruction ∈ code, instruction.opcode = .pushAddress → instruction.mark ∈ code.marks)
    (memorySize : Nat) :
    (code.dataSize ≤ memorySize ∧ ∃ image, Image.load code memorySize = .ok image) ∨
      memorySize < code.dataSize ∧ ∃ required, Image.load code memorySize = .error (.outOfMemory required memorySize) := by
  have whole : (Layout.starting memorySize).memory.size = memorySize := Memory.size_zeroed memorySize
  have empty : (Layout.starting memorySize).dataSize + code.dataSize = code.dataSize := Nat.zero_add _
  rw [Image.load_def]
  rcases Layout.placeAll_of_fresh 0 distinct
      (fun label _ => (rfl : (Layout.starting memorySize).isDefined label = false)) with
    ⟨layout, placed, adds⟩ | ⟨required, failed, exceeds, within⟩
  · have size : layout.dataSize = code.dataSize := adds.dataSize.trans empty
    rw [placed]
    dsimp only
    rw [size]
    by_cases fits : code.dataSize ≤ memorySize
    · refine .inl ⟨fits, ?_⟩
      rw [if_neg (Nat.not_lt.mpr fits), Layout.resolveAll_of_resolve fun instruction member => ?_]
      · exact ⟨_, rfl⟩
      · refine Layout.resolve_of_known (fun jump => ?_) fun address => ?_
        · exact (adds.targets _).mpr (.inr (jumps instruction member jump))
        · exact (adds.marks _).mpr (.inr (addresses instruction member address))
    · rw [if_pos (Nat.lt_of_not_le fits)]
      exact .inr ⟨Nat.lt_of_not_le fits, _, rfl⟩
  · rw [whole] at failed exceeds
    rw [empty] at within
    rw [failed]
    exact .inr ⟨by omega, required, rfl⟩

end Stackwright

import Stackwright.Proofs.Machine.Placing

/-! Names of places have no part in what is loaded. Two pieces of code that differ in names and
annotations only, each name standing for one other name, give the same image. -/

set_option autoImplicit false

namespace Stackwright

open Machine

/-- Two instructions that differ in names and annotations only. -/
structure Instruction.Renames (related : String → String → Prop) (instruction other : Instruction) : Prop where
  opcode : other.opcode = instruction.opcode
  int : other.int? = instruction.int?
  string : other.string? = instruction.string?
  mark : instruction.opcode.takesLabel = true → related instruction.mark other.mark

/-- No name stands for two others, and no two names for the same one. -/
def OneToOne (related : String → String → Prop) : Prop :=
  ∀ {one one' two two' : String}, related one one' → related two two' → (one = two ↔ one' = two')

/-- Two lists of named places with the same places. -/
abbrev SamePlaces (related : String → String → Prop) (entries others : List (String × Nat)) : Prop :=
  List.Forall₂ (fun entry other => related entry.1 other.1 ∧ entry.2 = other.2) entries others

variable {related : String → String → Prop} (oneToOne : OneToOne related)

include oneToOne in
theorem SamePlaces.lookup {entries others : List (String × Nat)} (same : SamePlaces related entries others)
    {label label' : String} (renamed : related label label') : others.lookup label' = entries.lookup label := by
  induction same with
  | nil => rfl
  | @cons entry other _ _ first _ ih =>
    have agree := oneToOne renamed first.1
    rw [List.lookup_cons, List.lookup_cons]
    by_cases here : label = entry.1
    · rw [beq_iff_eq.mpr here, beq_iff_eq.mpr (agree.mp here), first.2]
    · rw [beq_false_of_ne here, beq_false_of_ne (mt agree.mpr here)]
      exact ih

namespace Machine

/-- What comes of code, compared with what comes of the same code with other names: complaints about
names apart, it is the same. -/
def Agrees {α : Type} (same : α → α → Prop) : Except Fault α → Except Fault α → Prop
  | .ok value, .ok value' => same value value'
  | .error (.duplicateLabel _), .error (.duplicateLabel _) | .error (.unknownLabel _), .error (.unknownLabel _) => True
  | .error fault, .error fault' => fault' = fault
  | _, _ => False

theorem Agrees.bind {α β : Type} {same : α → α → Prop} {same' : β → β → Prop} {first second : Except Fault α}
    {follow follow' : α → Except Fault β} (agrees : Agrees same first second)
    (next : ∀ value value', same value value' → Agrees same' (follow value) (follow' value')) :
    Agrees same' (first.bind follow) (second.bind follow') := by
  cases first with
  | ok value =>
    cases second with
    | ok value' => exact next value value' agrees
    | error fault => exact agrees.elim
  | error fault =>
    cases second with
    | ok value => cases fault <;> exact agrees.elim
    | error fault' => cases fault <;> cases fault' <;> exact agrees

namespace Layout

/-- Two layouts that differ in names only. -/
structure Renames (related : String → String → Prop) (layout other : Layout) : Prop where
  codeLabels : SamePlaces related layout.codeLabels other.codeLabels
  dataLabels : SamePlaces related layout.dataLabels other.dataLabels
  dataSize : other.dataSize = layout.dataSize
  memory : other.memory = layout.memory

variable {layout other : Layout} {index : Nat} {instruction instruction' : Instruction} {code code' : Code}

theorem placeAll_cons : layout.placeAll index (instruction :: code) =
    (layout.place index instruction).bind fun next => next.placeAll (index + 1) code := by
  rw [placeAll]
  cases layout.place index instruction <;> rfl

theorem resolveAll_cons : layout.resolveAll (instruction :: code) =
    (layout.resolve instruction).bind fun op => (layout.resolveAll code).bind fun ops => .ok (op :: ops) := by
  rw [resolveAll]
  cases layout.resolve instruction with
  | error fault => rfl
  | ok op => cases layout.resolveAll code <;> rfl

include oneToOne

theorem Renames.target? (renames : layout.Renames related other) {label label' : String}
    (renamed : related label label') : other.target? label' = layout.target? label :=
  SamePlaces.lookup oneToOne renames.codeLabels renamed

theorem Renames.address? (renames : layout.Renames related other) {label label' : String}
    (renamed : related label label') : other.address? label' = layout.address? label := by
  rw [Layout.address?, Layout.address?, renames.target? oneToOne renamed]
  rw [SamePlaces.lookup oneToOne renames.dataLabels renamed]

theorem Renames.place (renames : layout.Renames related other)
    (renamed : instruction.Renames related instruction') :
    Agrees (Renames related) (layout.place index instruction) (other.place index instruction') := by
  have known (takes : instruction.opcode.takesLabel = true) :
      other.isDefined instruction'.mark = layout.isDefined instruction.mark := by
    rw [isDefined, isDefined, renames.address? oneToOne (renamed.mark takes)]
  cases kind : instruction.opcode
  case dataString =>
    rw [place_string kind, place_string (renamed.opcode.trans kind), renamed.string, renames.dataSize, renames.memory]
    split
    · exact ⟨renames.codeLabels, renames.dataLabels, rfl, rfl⟩
    · rfl
  all_goals
    unfold Layout.place
    rw [renamed.opcode, renamed.int, renamed.string, renames.dataSize, renames.memory, kind]
  case label =>
    have takes : instruction.opcode.takesLabel = true := by rw [kind]; rfl
    dsimp only
    rw [← Instruction.mark, ← Instruction.mark, known takes]
    cases layout.isDefined instruction.mark with
    | true => trivial
    | false =>
      exact ⟨.cons ⟨renamed.mark takes, rfl⟩ renames.codeLabels, renames.dataLabels, rfl, rfl⟩
  case dataLabel =>
    have takes : instruction.opcode.takesLabel = true := by rw [kind]; rfl
    dsimp only
    rw [← Instruction.mark, ← Instruction.mark, known takes]
    cases layout.isDefined instruction.mark with
    | true => trivial
    | false =>
      exact ⟨renames.codeLabels, .cons ⟨renamed.mark takes, rfl⟩ renames.dataLabels, rfl, rfl⟩
  case dataZero => exact ⟨renames.codeLabels, renames.dataLabels, rfl, rfl⟩
  all_goals exact renames

theorem Renames.placeAll (renames : layout.Renames related other)
    (renamed : List.Forall₂ (Instruction.Renames related) code code') :
    Agrees (Renames related) (layout.placeAll index code) (other.placeAll index code') := by
  induction renamed generalizing layout other index with
  | nil => exact renames
  | @cons instruction instruction' rest rest' first _ ih =>
    rw [placeAll_cons, placeAll_cons]
    exact (renames.place oneToOne first).bind fun _ _ here => ih here

/-- Placing goes equally far whatever the names are, so that memory is left alike also if it fails. -/
theorem Renames.memory_placed (renames : layout.Renames related other)
    (renamed : List.Forall₂ (Instruction.Renames related) code code') :
    (other.placed index code').memory = (layout.placed index code).memory := by
  induction renamed generalizing layout other index with
  | nil => exact renames.memory
  | @cons instruction instruction' rest rest' first _ ih =>
    have here : Agrees (Renames related) (layout.place index instruction) (other.place index instruction') :=
      renames.place oneToOne first
    rw [placed, placed]
    cases one : layout.place index instruction with
    | ok next =>
      cases two : other.place index instruction' with
      | ok next' =>
        rw [one, two] at here
        exact ih here
      | error fault =>
        rw [one, two] at here
        exact here.elim
    | error fault =>
      cases two : other.place index instruction' with
      | ok next' =>
        rw [one, two] at here
        cases fault <;> exact here.elim
      | error fault' => exact renames.memory

theorem Renames.resolve (renames : layout.Renames related other)
    (renamed : instruction.Renames related instruction') :
    Agrees Eq (layout.resolve instruction) (other.resolve instruction') := by
  unfold Layout.resolve
  rw [renamed.opcode, renamed.int]
  cases kind : instruction.opcode <;> try rfl
  case pushAddress =>
    have takes : instruction.opcode.takesLabel = true := by rw [kind]; rfl
    have found := renames.address? oneToOne (renamed.mark takes)
    rw [Instruction.mark, Instruction.mark] at found
    dsimp only [addressOf]
    rw [found]
    cases layout.address? (instruction.label?.getD "") <;> trivial
  all_goals
    have takes : instruction.opcode.takesLabel = true := by rw [kind]; rfl
    have found := renames.target? oneToOne (renamed.mark takes)
    rw [Instruction.mark, Instruction.mark] at found
    dsimp only [targetOf]
    rw [found]
    cases layout.target? (instruction.label?.getD "") <;> trivial

theorem Renames.resolveAll (renames : layout.Renames related other)
    (renamed : List.Forall₂ (Instruction.Renames related) code code') :
    Agrees Eq (layout.resolveAll code) (other.resolveAll code') := by
  induction renamed with
  | nil => rfl
  | @cons instruction instruction' rest rest' first _ ih =>
    rw [resolveAll_cons, resolveAll_cons]
    refine (renames.resolve oneToOne first).bind fun op op' sameOp => ih.bind fun ops ops' sameOps => ?_
    exact congrArg₂ List.cons sameOp sameOps

end Layout

theorem Image.load_eq (code : Code) (memorySize : Nat) :
    Image.load code memorySize = ((Layout.starting memorySize).placeAll 0 code).bind fun layout =>
      if memorySize < layout.dataSize then .error (.outOfMemory layout.dataSize memorySize)
      else (layout.resolveAll code).bind fun ops => .ok ⟨ops.toArray, layout.memory⟩ := by
  rw [Image.load_def]
  cases (Layout.starting memorySize).placeAll 0 code with
  | error fault => rfl
  | ok layout =>
    change (if _ then _ else _) = if _ then _ else _
    cases layout.resolveAll code <;> rfl

include oneToOne in
theorem Image.memoryAfter_renames {code code' : Code}
    (renamed : List.Forall₂ (Instruction.Renames related) code code') (memory : Memory) :
    Image.memoryAfter memory code' = Image.memoryAfter memory code :=
  have start : (Layout.empty memory).Renames related (Layout.empty memory) := ⟨.nil, .nil, rfl, rfl⟩
  start.memory_placed oneToOne renamed

include oneToOne in
/-- What is loaded does not depend on names. -/
theorem Image.load_renames {code code' : Code}
    (renamed : List.Forall₂ (Instruction.Renames related) code code') (memorySize : Nat) :
    Agrees Eq (Image.load code memorySize) (Image.load code' memorySize) := by
  rw [Image.load_eq, Image.load_eq]
  have start : (Layout.starting memorySize).Renames related (Layout.starting memorySize) :=
    ⟨.nil, .nil, rfl, rfl⟩
  refine (start.placeAll oneToOne renamed).bind fun layout layout' renames => ?_
  rw [renames.dataSize, renames.memory]
  split
  · rfl
  · exact (renames.resolveAll oneToOne renamed).bind fun ops ops' same => by rw [same]; rfl

end Machine

end Stackwright

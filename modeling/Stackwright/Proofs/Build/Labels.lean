import Stackwright.Proofs.Build.Accepted
import Stackwright.Proofs.Lowering.Families
import Stackwright.Proofs.Machine.Placing

/-! The labels of whole programs. Whatever is put in front of generated labels, no label is defined
twice and no jump goes astray, so code with the environment in front can be loaded wherever its data
fits. -/

set_option autoImplicit false

namespace Stackwright

open Machine

/-- Code that defines each of its labels once and jumps to its own labels. The addresses that it pushes
are those of its labels or of labels that are defined outside. -/
structure Code.Linked (outside : List String) (code : Code) : Prop where
  nodup : code.definedLabels.Nodup
  named : ∀ instruction ∈ code, instruction.opcode = .label ∨ instruction.opcode = .dataLabel →
    ∃ label, instruction.label? = some label
  jumps : ∀ instruction ∈ code, instruction.opcode.isJump = true → ∃ label, instruction.label? = some label ∧
    ∃ place ∈ code, place.opcode = .label ∧ place.label? = some label
  addresses : ∀ instruction ∈ code, instruction.opcode = .pushAddress → ∃ label, instruction.label? = some label ∧
    (label ∈ code.definedLabels ∨ label ∈ outside)
  others : ∀ instruction ∈ code, instruction.opcode.takesLabel = false → instruction.label? = none

namespace Instruction.Links

variable {instruction : Instruction} {labels : List String}

theorem named (links : instruction.Links labels) (marks : instruction.opcode = .label ∨ instruction.opcode = .dataLabel) :
    ∃ label, instruction.label? = some label := by
  unfold Links at links
  rcases marks with marks | marks <;> rw [marks] at links
  · exact links
  · exact links.elim

theorem target (links : instruction.Links labels) (jump : instruction.opcode.isJump = true) :
    ∃ label ∈ labels, instruction.label? = some label := by
  unfold Links at links
  cases kind : instruction.opcode <;> rw [kind] at links jump <;> first | exact links | cases jump

theorem address (links : instruction.Links labels) (address : instruction.opcode = .pushAddress) :
    ∃ label ∈ Reserved.addresses.map Prod.fst ++ labels, instruction.label? = some label := by
  unfold Links at links
  rwa [address] at links

theorem unlabelled (links : instruction.Links labels) (plain : instruction.opcode.takesLabel = false) :
    instruction.label? = none := by
  unfold Links at links
  cases kind : instruction.opcode <;> rw [kind] at links plain <;>
    first | exact links | exact links.elim | cases plain

end Instruction.Links

namespace Code

variable {outside : List String} {code : Code}

theorem definedLabels_stripComments (code : Code) : code.stripComments.definedLabels = code.definedLabels := by
  induction code with
  | nil => rfl
  | cons instruction rest ih =>
    change definedLabels (instruction.stripComment :: stripComments rest) = _
    rw [definedLabels_cons, definedLabels_cons instruction, ih]
    congr 1
    simp only [definedLabels, List.filter_cons, List.filter_nil, Instruction.stripComment]
    split <;> rfl

theorem Linked.stripComments (linked : code.Linked outside) : code.stripComments.Linked outside := by
  have from_code {instruction : Instruction} (member : instruction ∈ code.stripComments) :
      ∃ original ∈ code, instruction.opcode = original.opcode ∧ instruction.label? = original.label? := by
    obtain ⟨original, inside, rfl⟩ := List.mem_map.mp member
    exact ⟨original, inside, rfl, rfl⟩
  constructor
  case nodup =>
    rw [definedLabels_stripComments]
    exact linked.nodup
  case named =>
    intro instruction member
    obtain ⟨original, inside, kind, same⟩ := from_code member
    rw [kind, same]
    exact linked.named original inside
  case jumps =>
    intro instruction member
    obtain ⟨original, inside, kind, same⟩ := from_code member
    rw [kind, same]
    intro jump
    obtain ⟨label, has, place, stands, marks, named⟩ := linked.jumps original inside jump
    exact ⟨label, has, place.stripComment, List.mem_map_of_mem stands, marks, named⟩
  case addresses =>
    intro instruction member
    obtain ⟨original, inside, kind, same⟩ := from_code member
    rw [kind, same, definedLabels_stripComments]
    exact linked.addresses original inside
  case others =>
    intro instruction member
    obtain ⟨original, inside, kind, same⟩ := from_code member
    rw [kind, same]
    exact linked.others original inside

theorem mem_definedLabels {label : String} : label ∈ code.definedLabels ↔ ∃ instruction ∈ code,
    (instruction.opcode = .label ∨ instruction.opcode = .dataLabel) ∧ instruction.label? = some label := by
  simp [definedLabels, List.mem_filterMap, List.mem_filter, and_assoc]

/-- Where every label has its name, the names are the labels. -/
theorem marks_eq_definedLabels (named : ∀ instruction ∈ code,
    instruction.opcode = .label ∨ instruction.opcode = .dataLabel → ∃ label, instruction.label? = some label) :
    code.marks = code.definedLabels := by
  induction code with
  | nil => rfl
  | cons instruction rest ih =>
    rw [marks_cons, definedLabels_cons, ih fun other member => named other (List.mem_cons_of_mem _ member)]
    congr 1
    have here := named instruction List.mem_cons_self
    unfold Instruction.marks Instruction.mark
    cases kind : instruction.opcode <;> simp only [kind] at here <;> try simp [definedLabels, kind]
    all_goals
      obtain ⟨label, has⟩ := here (by simp)
      simp [has]

/-- Every label that linked code refers to without defining it is defined outside. -/
theorem Linked.mem_outside (linked : code.Linked outside) {instruction : Instruction} {label : String}
    (member : instruction ∈ code) (has : instruction.label? = some label) (undefined : label ∉ code.definedLabels) :
    label ∈ outside := by
  have marks (kind : instruction.opcode = .label ∨ instruction.opcode = .dataLabel) : label ∈ outside :=
    absurd (mem_definedLabels.mpr ⟨instruction, member, kind, has⟩) undefined
  have jumps (jump : instruction.opcode.isJump = true) : label ∈ outside := by
    obtain ⟨target, has', place, stands, kind, named⟩ := linked.jumps instruction member jump
    rw [has, Option.some.injEq] at has'
    subst has'
    exact absurd (mem_definedLabels.mpr ⟨place, stands, .inl kind, named⟩) undefined
  cases kind : instruction.opcode
  case label => exact marks (.inl kind)
  case dataLabel => exact marks (.inr kind)
  case jump | jumpFalse | jumpTrue | jumpPositive => exact jumps (by rw [kind]; rfl)
  case pushAddress =>
    obtain ⟨target, has', known⟩ := linked.addresses instruction member kind
    rw [has, Option.some.injEq] at has'
    subst has'
    exact known.resolve_left undefined
  all_goals
    have none := linked.others instruction member (by rw [kind]; rfl)
    rw [has] at none
    cases none

/-- Linked code is loaded exactly if its data fits. -/
theorem Linked.load (linked : code.Linked []) (memorySize : Nat) :
    ((∃ image, Image.load code memorySize = .ok image) ↔ code.dataSize ≤ memorySize) ∧
      (memorySize < code.dataSize → ∃ required, Image.load code memorySize = .error (.outOfMemory required memorySize)) := by
  have same := marks_eq_definedLabels linked.named
  have mark {instruction : Instruction} {label : String} (has : instruction.label? = some label) :
      instruction.mark = label := by rw [Instruction.mark, has]; rfl
  have loads := Image.load_of_marks (same ▸ linked.nodup) (fun instruction member jump => ?_)
    (fun instruction member address => ?_) memorySize
  · rcases loads with ⟨fits, image, loaded⟩ | ⟨exceeds, required, failed⟩
    · exact ⟨⟨fun _ => fits, fun _ => ⟨image, loaded⟩⟩, fun exceeds => by omega⟩
    · refine ⟨⟨?_, fun fits => by omega⟩, fun _ => ⟨required, failed⟩⟩
      rintro ⟨image, loaded⟩
      rw [failed] at loaded
      cases loaded
  · obtain ⟨label, has, place, stands, marks, named⟩ := linked.jumps instruction member jump
    rw [mark has]
    exact List.mem_flatMap.mpr ⟨place, stands, by simp [Instruction.targets, marks, mark named]⟩
  · obtain ⟨label, has, known | known⟩ := linked.addresses instruction member address
    · rw [mark has, same]
      exact known
    · cases known

end Code

namespace Checked

open Lowering

variable (checked : Checked)

/-- All code of the program, with the environment in front or without. -/
def codeWith (withEnvironment : Bool) : Code :=
  (Lowering.program checked.analysis withEnvironment checked.program (.starting checked.lead)).1

/-- The labels of the data that comes first in a program. -/
def frontLabels (withEnvironment : Bool) : List String :=
  if withEnvironment then Reserved.addresses.map Prod.fst else [Reserved.globalBlock]

/-- What comes before the labels of the code: the directives, and the jump over them. -/
def frontWith (withEnvironment : Bool) : Code :=
  (if withEnvironment then Environment.data else []) ++ globals checked.analysis checked.program

/-- The code behind the directives. -/
def tailWith (withEnvironment : Bool) : Code :=
  [.withLabel .label Reserved.mainLabel] ++ (if withEnvironment then Environment.stackStart else []) ++
    checked.cells ++ checked.main ++ [.plain .halt] ++ checked.bodies

theorem codeWith_eq (withEnvironment : Bool) :
    checked.codeWith withEnvironment = checked.frontWith withEnvironment ++ checked.tailWith withEnvironment := by
  change (if withEnvironment then Environment.data else []) ++ globals checked.analysis checked.program ++
    [Instruction.withLabel .label Reserved.mainLabel] ++ (if withEnvironment then Environment.stackStart else []) ++
    checked.cells ++ checked.main ++ [Instruction.plain .halt] ++ checked.bodies = _
  simp only [frontWith, tailWith, List.append_assoc]

variable {checked} in
/-- The code that is generated is all code of the program, with the annotations that are asked for. -/
theorem generate_eq_shown {options : CompileOptions} (lead : checked.lead = options.labelLead) :
    checked.program.generate checked.analysis options = options.shown (checked.codeWith options.emitEnvironment) := by
  rw [codeWith, lead]
  rfl

theorem definedLabels_tailWith (withEnvironment : Bool) :
    (checked.tailWith withEnvironment).definedLabels = checked.tail.definedLabels := by
  cases withEnvironment with
  | true => rfl
  | false =>
    have first : Code.definedLabels [.withLabel .label Reserved.mainLabel] = [Reserved.mainLabel] := rfl
    have last : Code.definedLabels [.plain .halt] = [] := rfl
    rw [definedLabels_tail, tailWith]
    simp only [Code.definedLabels_append, definedLabels_cells, first, last]
    simp

theorem tailWith_links (withEnvironment : Bool) :
    ∀ instruction ∈ checked.tailWith withEnvironment, instruction.Links checked.tail.definedLabels := by
  intro instruction member
  refine checked.tail_links instruction ?_
  cases withEnvironment with
  | true => exact member
  | false =>
    simp only [tailWith, tail, start, List.mem_append] at member ⊢
    tauto

theorem definedLabels_frontWith (withEnvironment : Bool) :
    (checked.frontWith withEnvironment).definedLabels = frontLabels withEnvironment := by
  cases withEnvironment <;> rfl

theorem frontLabels_subset (withEnvironment : Bool) : frontLabels withEnvironment ⊆ Reserved.addresses.map Prod.fst := by
  cases withEnvironment <;> decide

/-- The labels that code without the environment takes from elsewhere. -/
def outside (withEnvironment : Bool) : List String := if withEnvironment then [] else Environment.data.definedLabels

theorem reserved_known (withEnvironment : Bool) {label : String} (reserved : label ∈ Reserved.addresses.map Prod.fst) :
    label ∈ frontLabels withEnvironment ∨ label ∈ outside withEnvironment := by
  cases withEnvironment with
  | true => exact .inl reserved
  | false =>
    have split : Reserved.addresses.map Prod.fst = Environment.data.definedLabels ++ [Reserved.globalBlock] := rfl
    rw [split, List.mem_append] at reserved
    exact reserved.symm

/-- A label of the code marks a place in the code. -/
theorem exists_label {withEnvironment : Bool} {label : String} (member : label ∈ checked.tail.definedLabels) :
    ∃ place ∈ checked.codeWith withEnvironment, place.opcode = .label ∧ place.label? = some label := by
  rw [← definedLabels_tailWith checked withEnvironment, Code.mem_definedLabels] at member
  obtain ⟨place, inside, kind, has⟩ := member
  refine ⟨place, by rw [codeWith_eq]; exact List.mem_append_right _ inside, ?_, has⟩
  refine kind.resolve_right fun data => ?_
  have links := checked.tailWith_links withEnvironment place inside
  rw [Instruction.Links, data] at links
  exact links

/-- In front of the code there is nothing but directives and the jump over them. -/
theorem frontWith_links (withEnvironment : Bool) {instruction : Instruction}
    (member : instruction ∈ checked.frontWith withEnvironment) :
    (instruction.opcode = .label ∨ instruction.opcode = .dataLabel → ∃ label, instruction.label? = some label) ∧
      (instruction.opcode.isJump = true → instruction.label? = some Reserved.mainLabel) ∧
      instruction.opcode ≠ .pushAddress ∧ (instruction.opcode.takesLabel = false → instruction.label? = none) := by
  have front : (checked.frontWith withEnvironment).all (fun instruction =>
      (instruction.opcode != .label && instruction.opcode != .dataLabel || instruction.label?.isSome) &&
      (!instruction.opcode.isJump || instruction.label? == some Reserved.mainLabel) &&
      instruction.opcode != .pushAddress && (instruction.opcode.takesLabel || instruction.label?.isNone)) = true := by
    cases withEnvironment <;> rfl
  have here := List.all_eq_true.mp front instruction member
  simp only [Bool.and_eq_true, Bool.or_eq_true, bne_iff_ne, Bool.not_eq_true', beq_iff_eq,
    Option.isNone_iff_eq_none] at here
  obtain ⟨⟨⟨named, jumps⟩, address⟩, others⟩ := here
  refine ⟨fun marks => ?_, fun jump => ?_, address, fun plain => ?_⟩
  · exact Option.isSome_iff_exists.mp (named.resolve_left fun apart => marks.elim apart.1 apart.2)
  · exact jumps.resolve_left (by simp [jump])
  · exact others.resolve_left (by simp [plain])

/-- The code of a program is linked, whatever is put in front of its labels. -/
theorem linked_codeWith (withEnvironment : Bool) :
    (checked.codeWith withEnvironment).Linked (outside withEnvironment) := by
  have labels : (checked.codeWith withEnvironment).definedLabels =
      frontLabels withEnvironment ++ checked.tail.definedLabels := by
    rw [codeWith_eq, Code.definedLabels_append, definedLabels_frontWith, definedLabels_tailWith]
  have members {instruction : Instruction} (member : instruction ∈ checked.codeWith withEnvironment) :
      instruction ∈ checked.frontWith withEnvironment ∨ instruction.Links checked.tail.definedLabels := by
    rw [codeWith_eq, List.mem_append] at member
    exact member.imp_right (checked.tailWith_links withEnvironment instruction)
  constructor
  case nodup =>
    rw [labels]
    refine List.nodup_append.mpr ⟨by cases withEnvironment <;> decide, checked.tail_nodup, ?_⟩
    rintro label reserved other member rfl
    exact checked.reserved_notMem_tail (frontLabels_subset _ reserved) member
  case named =>
    intro instruction member marks
    rcases members member with inFront | links
    · obtain ⟨named, -, -, -⟩ := checked.frontWith_links withEnvironment inFront
      exact named marks
    · exact links.named marks
  case jumps =>
    intro instruction member jump
    rcases members member with inFront | links
    · obtain ⟨-, target, -, -⟩ := checked.frontWith_links withEnvironment inFront
      refine ⟨_, target jump, checked.exists_label ?_⟩
      rw [definedLabels_tail]
      exact List.mem_cons_self
    · obtain ⟨label, known, has⟩ := links.target jump
      exact ⟨label, has, checked.exists_label known⟩
  case addresses =>
    intro instruction member address
    rcases members member with inFront | links
    · obtain ⟨-, -, unaddressed, -⟩ := checked.frontWith_links withEnvironment inFront
      exact absurd address unaddressed
    · obtain ⟨label, known, has⟩ := links.address address
      refine ⟨label, has, ?_⟩
      rw [labels, List.mem_append, or_right_comm]
      rcases List.mem_append.mp known with reserved | own
      · exact .inl (reserved_known withEnvironment reserved)
      · exact .inr own
  case others =>
    intro instruction member plain
    rcases members member with inFront | links
    · obtain ⟨-, -, -, unlabelled⟩ := checked.frontWith_links withEnvironment inFront
      exact unlabelled plain
    · exact links.unlabelled plain

end Checked

/-- The labels of code that was compiled, whatever is put in front of generated labels. No label is
defined twice, one family is used for each comparison, branch and printed truth value, and every jump
goes to a label of the code. With the environment in front every address is that of a label of the code,
so that the code is loaded exactly if its data fits; without it only the labels of the environment are
missing. -/
theorem compile_linked {source : String} {options : CompileOptions} {code : Code}
    (accepted : compile source options = .ok code) :
    code.definedLabels.Nodup ∧
    (∃ program, Program.parse source = .ok program ∧
      (Lowering.program program.analyze options.emitEnvironment program (.starting options.labelLead)).2.families =
        program.choices program.analyze) ∧
    (∀ instruction ∈ code, instruction.opcode.isJump = true → ∃ label, instruction.label? = some label ∧
      ∃ place ∈ code, place.opcode = .label ∧ place.label? = some label) ∧
    (options.emitEnvironment = true →
      (∀ instruction ∈ code, instruction.opcode = .pushAddress →
        ∃ label ∈ code.definedLabels, instruction.label? = some label) ∧
      ∀ memorySize,
        ((∃ image, Image.load code memorySize = .ok image) ↔ code.dataSize ≤ memorySize) ∧
        (memorySize < code.dataSize →
          ∃ required, Image.load code memorySize = .error (.outOfMemory required memorySize))) ∧
    (options.emitEnvironment = false →
      ∀ instruction ∈ code, ∀ label, instruction.label? = some label → label ∉ code.definedLabels →
        label ∈ [Reserved.stackPointer, Reserved.framePointer, Reserved.integerFormat, Reserved.booleanFormat,
          Reserved.newlineFormat, Reserved.spaceFormat, Reserved.trueString, Reserved.falseString]) := by
  obtain ⟨checked, parsed, analysis, lead, rfl⟩ := exists_compiles accepted
  have linked : (checked.program.generate checked.analysis options).Linked
      (Checked.outside options.emitEnvironment) := by
    have plain := checked.linked_codeWith options.emitEnvironment
    rw [Checked.generate_eq_shown lead, CompileOptions.shown]
    split
    · exact plain
    · exact plain.stripComments
  refine ⟨linked.nodup, ⟨checked.program, parsed, ?_⟩, linked.jumps, fun environment => ?_, fun bare => ?_⟩
  · rw [← analysis, Lowering.program_takes checked.placed]
    exact Nat.zero_add _
  · rw [environment] at linked
    refine ⟨fun instruction member address => ?_, linked.load⟩
    obtain ⟨label, has, known | known⟩ := linked.addresses instruction member address
    · exact ⟨label, known, has⟩
    · cases known
  · rw [bare] at linked
    intro instruction member label has undefined
    have symbols : Environment.data.definedLabels ⊆ [Reserved.stackPointer, Reserved.framePointer,
      Reserved.integerFormat, Reserved.booleanFormat, Reserved.newlineFormat, Reserved.spaceFormat,
      Reserved.trueString, Reserved.falseString] := by decide
    exact symbols (linked.mem_outside member has undefined)

/-- A lead that looks like the name of a pointer. -/
theorem compile_linked_dollar_lead :
    ∃ code, compile "func bool f(int n) \x7b return n > 2; \x7d main \x7b if (f(4)) \x7b print f(1) \\s 3 > 2; \x7d \x7d"
        ⟨true, "$stack-pointer", false⟩ = .ok code ∧ code.definedLabels.Nodup ∧
      ((∃ image, Image.load code 100 = .ok image) ↔ code.dataSize ≤ 100) := by
  obtain ⟨code, accepted⟩ := exists_compile_of_isSome (by decide +kernel :
    (compile "func bool f(int n) \x7b return n > 2; \x7d main \x7b if (f(4)) \x7b print f(1) \\s 3 > 2; \x7d \x7d"
      ⟨true, "$stack-pointer", false⟩).toOption.isSome = true)
  obtain ⟨nodup, _, _, loads, _⟩ := compile_linked accepted
  exact ⟨code, accepted, nodup, ((loads rfl).2 100).1⟩

end Stackwright

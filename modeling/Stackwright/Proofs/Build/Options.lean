import Stackwright.Proofs.Build.Labels
import Stackwright.Proofs.Lowering.Renaming
import Stackwright.Proofs.Machine.Isolation

/-! What is put in front of labels and whether annotations are kept changes nothing in how a program
runs: both are gone once the program is loaded. -/

set_option autoImplicit false

namespace Stackwright

open Machine

namespace Machine

theorem Agrees.eq_of_ok {α : Type} {first second : Except Fault α} {value : α} (agrees : Agrees Eq first second)
    (same : first = .ok value) : second = first := by
  subst same
  cases second with
  | ok other => exact congrArg Except.ok agrees.symm
  | error fault => exact agrees.elim

theorem Agrees.eq_of_outOfMemory {α : Type} {first second : Except Fault α} {required available : Nat}
    (agrees : Agrees Eq first second) (same : first = .error (.outOfMemory required available)) : second = first := by
  subst same
  cases second with
  | ok other => exact agrees.elim
  | error fault => exact congrArg Except.error agrees

end Machine

/-- Code is loaded in the same way with its annotations and without. -/
theorem Machine.Image.load_shown (options : CompileOptions) (code : Code) (memorySize : Nat) :
    Image.load (options.shown code) memorySize = Image.load code memorySize := by
  unfold CompileOptions.shown
  split
  · rfl
  · exact Image.load_stripComments _ _

theorem Machine.Image.memoryAfter_shown (options : CompileOptions) (code : Code) (memory : Memory) :
    Image.memoryAfter memory (options.shown code) = Image.memoryAfter memory code := by
  unfold CompileOptions.shown
  split
  · rfl
  · exact congrArg Layout.memory Layout.placed_stripComments

/-- Codes that are loaded alike, with the same image or the same fault, and leave memory alike. -/
structure Code.LoadsLike (code other : Code) : Prop where
  load : ∀ memorySize, Image.load code memorySize = Image.load other memorySize
  memory : ∀ memory, Image.memoryAfter memory code = Image.memoryAfter memory other

namespace Code.LoadsLike

variable {code other last : Code}

theorem symm (alike : code.LoadsLike other) : other.LoadsLike code :=
  ⟨fun memorySize => (alike.load memorySize).symm, fun memory => (alike.memory memory).symm⟩

theorem trans (one : code.LoadsLike other) (two : other.LoadsLike last) : code.LoadsLike last :=
  ⟨fun memorySize => (one.load memorySize).trans (two.load memorySize),
    fun memory => (one.memory memory).trans (two.memory memory)⟩

/-- Codes that are loaded alike run alike. -/
theorem run_eq (alike : code.LoadsLike other) (machine : Machine) : machine.run code = machine.run other := by
  have same := alike.load machine.config.memorySize
  cases loaded : Image.load other machine.config.memorySize with
  | error fault =>
    rw [machine.run_of_error loaded, machine.run_of_error (same.trans loaded), alike.memory]
  | ok image => rw [machine.run_of_ok loaded, machine.run_of_ok (same.trans loaded)]

end Code.LoadsLike

theorem CompileOptions.loadsLike_shown (options : CompileOptions) (code : Code) : (options.shown code).LoadsLike code :=
  ⟨Image.load_shown options code, Image.memoryAfter_shown options code⟩

/-- Annotations apart, the code of a program is what it is lowered to. -/
theorem Program.loadsLike_generate (program : Program) (analysis : Analysis) {options : CompileOptions}
    (environment : options.emitEnvironment = true) :
    (program.generate analysis options).LoadsLike (program.lowered analysis options.labelLead) := by
  rw [Program.generate, environment]
  exact options.loadsLike_shown (program.lowered analysis options.labelLead)

/-- What is loaded does not depend on what is put in front of labels. -/
theorem Checked.loadsLike_lead (checked : Checked) (lead : String) :
    (checked.program.lowered checked.analysis lead).LoadsLike checked.code := by
  have areNames : ∀ function ∈ checked.program.functions, IsName function.name.text := fun function member =>
    (checked.legible.functions function member).name
  have renamed : Code.Releads checked.lead lead checked.code (checked.program.lowered checked.analysis lead) :=
    Lowering.program_releads areNames
  refine ⟨fun memorySize => ?_, Image.memoryAfter_renames Labeller.oneToOne_renamed renamed⟩
  have agrees : Agrees Eq (Image.load checked.code memorySize)
      (Image.load (checked.program.lowered checked.analysis lead) memorySize) :=
    Image.load_renames Labeller.oneToOne_renamed renamed memorySize
  obtain ⟨loads, fails⟩ := (checked.linked_codeWith true).load memorySize
  by_cases fits : (checked.codeWith true).dataSize ≤ memorySize
  · obtain ⟨image, loaded⟩ := loads.mpr fits
    exact agrees.eq_of_ok loaded
  · obtain ⟨required, failed⟩ := fails (Nat.lt_of_not_le fits)
    exact agrees.eq_of_outOfMemory failed

/-- A source text that compiles with the environment does so whatever is put in front of labels and
whether annotations are kept or not, and on every machine both codes end in the same way, with the same
output, memory, operand stack and number of steps. -/
theorem compile_run_eq {source : String} {options other : CompileOptions} {code : Code}
    (accepted : compile source options = .ok code) (environment : options.emitEnvironment = true)
    (environment' : other.emitEnvironment = true) (config : Machine.Config) :
    ∃ code', compile source other = .ok code' ∧
      (Machine.starting config).run code' = (Machine.starting config).run code := by
  obtain ⟨program, parsed, silent, _⟩ := compile_eq_ok_iff.mp accepted
  obtain ⟨checked, parsed', analysis, lead, rfl⟩ := exists_compiles accepted
  rw [parsed, Except.ok.injEq] at parsed'
  subst parsed'
  have lowered {options : CompileOptions} (environment : options.emitEnvironment = true) :
      (checked.program.generate checked.analysis options).LoadsLike checked.code :=
    (Program.loadsLike_generate _ _ environment).trans (checked.loadsLike_lead options.labelLead)
  rw [analysis] at lowered ⊢
  exact ⟨_, compile_eq_ok_iff.mpr ⟨checked.program, parsed, silent, rfl⟩,
    ((lowered environment').trans (lowered environment).symm).run_eq _⟩

/-- A machine whose memory is too small for the data. -/
theorem compile_run_eq_small_memory :
    ∃ code code', compile "main \x7b print 2 > 1; \x7d" ⟨true, "", true⟩ = .ok code ∧
      compile "main \x7b print 2 > 1; \x7d" ⟨true, "$", false⟩ = .ok code' ∧
      (Machine.starting ⟨20, 5⟩).run code' = (Machine.starting ⟨20, 5⟩).run code := by
  obtain ⟨code, accepted⟩ := exists_compile_of_isSome (by decide +kernel :
    (compile "main \x7b print 2 > 1; \x7d" ⟨true, "", true⟩).toOption.isSome = true)
  have kept : CompileOptions.emitEnvironment ⟨true, "$", false⟩ = true := rfl
  obtain ⟨code', accepted', same⟩ := compile_run_eq accepted rfl kept ⟨20, 5⟩
  exact ⟨code, code', accepted, accepted', same⟩

end Stackwright

import Stackwright.Compile
import Stackwright.Proofs.Build.Basic
import Stackwright.Proofs.Checking.Program

/-! What is known of a source text that compiles. -/

set_option autoImplicit false

namespace Stackwright

/-- Code as the options ask for it, with its annotations or without. -/
def CompileOptions.shown (options : CompileOptions) (code : Code) : Code :=
  if options.comments then code else code.stripComments

namespace CompileOptions

variable (options : CompileOptions)

theorem shown_append (first second : Code) :
    options.shown (first ++ second) = options.shown first ++ options.shown second := by
  unfold shown
  split
  · rfl
  · exact List.map_append

theorem length_shown (code : Code) : (options.shown code).length = code.length := by
  unfold shown
  split
  · rfl
  · exact List.length_map _

end CompileOptions

/-- A source text that compiles was read and analyzed without fault, and its code is what the program
is lowered to. -/
structure Compiles (source : String) (options : CompileOptions) (code : Code) (checked : Checked) : Prop where
  parsed : Program.parse source = .ok checked.program
  analysis : checked.analysis = checked.program.analyze
  lead : checked.lead = options.labelLead
  code : code = checked.program.generate checked.analysis options

variable {source : String} {options : CompileOptions} {code : Code}

theorem compile_eq_ok_iff : compile source options = .ok code ↔ ∃ program, Program.parse source = .ok program ∧
    program.analyze.diagnostics = [] ∧ program.generate program.analyze options = code := by
  unfold compile
  cases Program.parse source with
  | error faults => simp
  | ok program =>
    cases silent : program.analyze.diagnostics with
    | nil => simp [Program.compile, silent]
    | cons first rest => simp [Program.compile, silent]

theorem exists_compiles (accepted : compile source options = .ok code) :
    ∃ checked, Compiles source options code checked := by
  obtain ⟨program, parsed, silent, rfl⟩ := compile_eq_ok_iff.mp accepted
  obtain ⟨legible, ids⟩ := Program.legible_and_ids_of_parse parsed
  have placed := Checker.placed_of_analyze legible (ids ▸ List.nodup_range) silent
  exact ⟨⟨program, program.analyze, options.labelLead, legible, placed⟩, parsed, rfl, rfl, rfl⟩

/-- A way to compute with the code of a given source text. -/
theorem exists_compile_of_any {test : Code → Bool} (compiles : (compile source options).toOption.any test = true) :
    ∃ code, compile source options = .ok code ∧ test code = true := by
  cases compiled : compile source options with
  | ok code =>
    rw [compiled] at compiles
    exact ⟨code, rfl, compiles⟩
  | error failure =>
    rw [compiled] at compiles
    cases compiles

/-- A way to see that a given source text compiles. -/
theorem exists_compile_of_isSome (compiles : (compile source options).toOption.isSome = true) :
    ∃ code, compile source options = .ok code := by
  cases compiled : compile source options with
  | ok code => exact ⟨code, rfl⟩
  | error failure =>
    rw [compiled] at compiles
    cases compiles

end Stackwright

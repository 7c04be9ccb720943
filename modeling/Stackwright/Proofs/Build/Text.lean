import Stackwright.Proofs.Build.Accepted
import Stackwright.Proofs.Checking.Spelling
import Stackwright.Proofs.Lowering.Writing

/-! The text of compiled code. All that a source text can bring into it are names, which have no blanks, so the
text tells where each instruction and each of its parts ends. -/

set_option autoImplicit false

namespace Stackwright

open Text

variable {source source' : String} {options options' : CompileOptions} {code code' : Code}

/-- Names have no blanks in a program that is read without faults, and the name of the null binding has none. -/
theorem Program.named_of_parse {program : Program} (parsed : Program.parse source = .ok program) :
    Lowering.Named program.analyze := by
  intro id
  rcases program.lexeme_bindingOf id with null | ⟨name, member, same⟩
  · rw [null]
    decide
  · rw [same]
    exact solid_of_parse parsed name member

/-- The code of a program can be written, whatever the options are. -/
theorem Program.wellFormed_generate {program : Program} (parsed : Program.parse source = .ok program)
    (unbroken : Unbroken options.labelLead) : (program.generate program.analyze options).WellFormed := by
  have solid : ∀ function ∈ program.functions, Solid function.name.text := fun function member =>
    solid_of_parse parsed function.name (List.mem_append_left _ (List.mem_flatMap.mpr
      ⟨function, member, List.mem_cons_self⟩))
  have wellFormed : Code.WellFormed
      (Lowering.program program.analyze options.emitEnvironment program (.starting options.labelLead)).1 :=
    (Lowering.program_yields (named_of_parse parsed) solid options.emitEnvironment _ unbroken).1
  unfold Program.generate
  dsimp only
  split
  · exact wellFormed
  · exact wellFormed.stripComments

theorem wellFormed_of_compile (accepted : compile source options = .ok code) (unbroken : Unbroken options.labelLead) :
    code.WellFormed := by
  obtain ⟨program, parsed, _, rfl⟩ := compile_eq_ok_iff.mp accepted
  exact Program.wellFormed_generate parsed unbroken

/-- The text of compiled code determines the code: operations, operands and annotations, whatever the sources and
the options are, as long as no blanks are put in front of labels. Each instruction is one line of it. -/
theorem compile_text_determines (accepted : compile source options = .ok code)
    (accepted' : compile source' options' = .ok code') (unbroken : Unbroken options.labelLead)
    (unbroken' : Unbroken options'.labelLead) :
    (code.text = code'.text → code = code') ∧
      lines code.text = code.map Instruction.text ∧ lines code'.text = code'.map Instruction.text := by
  have wellFormed := wellFormed_of_compile accepted unbroken
  have wellFormed' := wellFormed_of_compile accepted' unbroken'
  exact ⟨fun same => wellFormed.text_inj wellFormed' same, wellFormed.lines_text, wellFormed'.lines_text⟩

/-- A source with a parameter of the given name, which only annotations tell. -/
def doubling (parameter : String) : String :=
  "func int twice(int " ++ parameter ++ ") \x7b return " ++ parameter ++ " + " ++ parameter ++
    "; \x7d main \x7b print twice(4) > 7; \x7d"

theorem compile_text_determines_renamed : ∃ code code',
    compile (doubling "n") ⟨true, "u7", true⟩ = .ok code ∧ compile (doubling "m") ⟨true, "u7", true⟩ = .ok code' ∧
      code[110]?.map Instruction.comment = some (some "%% n") ∧
      code'[110]?.map Instruction.comment = some (some "%% m") ∧
      code.text ≠ code'.text ∧ lines code.text = code.map Instruction.text := by
  obtain ⟨code, accepted, named⟩ := exists_compile_of_any (by decide +kernel :
    (compile (doubling "n") ⟨true, "u7", true⟩).toOption.any
      (fun code => code[110]?.map Instruction.comment = some (some "%% n")) = true)
  obtain ⟨code', accepted', named'⟩ := exists_compile_of_any (by decide +kernel :
    (compile (doubling "m") ⟨true, "u7", true⟩).toOption.any
      (fun code => code[110]?.map Instruction.comment = some (some "%% m")) = true)
  have noted := of_decide_eq_true named
  have noted' := of_decide_eq_true named'
  obtain ⟨determines, onePerLine, -⟩ := compile_text_determines accepted accepted' (by decide) (by decide)
  refine ⟨code, code', accepted, accepted', noted, noted', fun same => ?_, onePerLine⟩
  rw [determines same, noted'] at noted
  exact absurd noted (by decide)

end Stackwright

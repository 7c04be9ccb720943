import Stackwright.Proofs.Token.Lexicon
import Stackwright.Proofs.Tree.Building

/-! The parser decides the grammar. Every token that is cut from a text is sound, so the token
sequence of a text without lexical faults is a program of the grammar exactly when it is parsed
without a fault, and the tree is then the only one the grammar gives it. -/

set_option autoImplicit false

namespace Stackwright

/-- The token does not stand for the end of the file, and has a value if it is a literal. -/
def Token.Sound (token : Token) : Prop :=
  token.kind ≠ .endOfFile ∧ (token.kind.isLiteral = true → ∃ value, Literal.ofToken token = .ok value)

namespace Munch

/-- What is accepted makes a sound token wherever it stands. -/
def Sound (munch : Munch) : Prop :=
  ∀ kind span, munch.outcome = .ok kind → Token.Sound ⟨kind, String.ofList munch.taken, span⟩

theorem sound_piece (first : Char) (rest : List Char) : (piece first rest).Sound := by
  intro kind span accepted
  have listed := lexical_piece first rest kind accepted
  refine ⟨listed.kind_ne_endOfFile, fun isLiteral => ?_⟩
  obtain ⟨value, denotes⟩ := Literal.exists_denotes listed isLiteral
  exact ⟨value, denotes.ofToken span⟩

end Munch

theorem Scan.tokens_sound (text : String) : ∀ token ∈ (Scan.ofText text).tokens, token.Sound :=
  Scan.forall_tokens (fun first rest kind span accepted => Munch.sound_piece first rest kind span accepted)
    _ _ _

namespace Program

theorem parse_eq_ok_iff {source : String} {program : Program} :
    Program.parse source = .ok program ↔
      (Parser.program (Cursor.ofText source)).2.faults = [] ∧
        (Parser.program (Cursor.ofText source)).1 = program := by
  have read : Program.read source = ((Parser.program (Cursor.ofText source)).1,
    (Parser.program (Cursor.ofText source)).2.faults) := rfl
  unfold Program.parse
  rw [read]
  cases (Parser.program (Cursor.ofText source)).2.faults <;> simp

theorem faults_ofText_eq_nil_iff (source : String) :
    (Cursor.ofText source).faults = [] ↔ (Scan.ofText source).faults = [] := by
  simp [Cursor.ofText, Cursor.ofScan]

/-- A text that is read without a fault is read to its end. -/
theorem rest_eq_nil_of_clean {source : String} (clean : (Parser.program (Cursor.ofText source)).2.faults = []) :
    (Parser.program (Cursor.ofText source)).2.rest = [] := by
  obtain ⟨⟨tokens, passes, -⟩, ended⟩ := Parser.accepted_program clean
  have whole : (Scan.ofText source).tokens = tokens ++ (Parser.program (Cursor.ofText source)).2.rest :=
    passes.rest
  -- a token that is left would be the end of the file, which is never cut from a text
  cases left : (Parser.program (Cursor.ofText source)).2.rest with
  | nil => rfl
  | cons token more =>
    rw [Cursor.peek_of_rest left] at ended
    have member : token ∈ (Scan.ofText source).tokens := by simp [whole, left]
    exact absurd ended (Scan.tokens_sound source token member).1

/-- What is parsed is derivable. -/
theorem derivable_of_parse {source : String} {program : Program}
    (parsed : Program.parse source = .ok program) :
    (Scan.ofText source).faults = [] ∧ Grammar.Program (Scan.ofText source).tokens program.bare := by
  obtain ⟨clean, rfl⟩ := parse_eq_ok_iff.mp parsed
  obtain ⟨⟨tokens, passes, derived⟩, -⟩ := Parser.accepted_program clean
  refine ⟨(faults_ofText_eq_nil_iff source).mp (passes.faults.symm.trans clean), ?_⟩
  have whole : (Scan.ofText source).tokens = tokens ++ (Parser.program (Cursor.ofText source)).2.rest :=
    passes.rest
  rw [whole, rest_eq_nil_of_clean clean, List.append_nil]
  exact derived

/-- What is derivable is parsed. -/
theorem parse_of_derivable {source : String} {tree : Program}
    (clean : (Scan.ofText source).faults = [])
    (derived : Grammar.Program (Scan.ofText source).tokens tree) :
    ∃ program, Program.parse source = .ok program ∧ program.bare = tree := by
  have ahead : (Cursor.ofText source).rest = (Scan.ofText source).tokens := rfl
  obtain ⟨same, faults⟩ := derived.builds ahead
  refine ⟨_, parse_eq_ok_iff.mpr ⟨?_, rfl⟩, same⟩
  exact faults.trans ((faults_ofText_eq_nil_iff source).mpr clean)

/-- The parser accepts exactly the texts without lexical faults whose tokens the grammar derives,
and builds the one tree that the grammar gives them, in which nothing stands for text that could
not be read. Literals never stand in the way: each literal token of a text has a value. -/
theorem parse_decides_grammar (source : String) :
    ((∃ program, Program.parse source = .ok program) ↔
      (Scan.ofText source).faults = [] ∧ ∃ tree, Grammar.Program (Scan.ofText source).tokens tree) ∧
    (∀ program, Program.parse source = .ok program →
      Grammar.Program (Scan.ofText source).tokens program.bare ∧
      (∀ tree, Grammar.Program (Scan.ofText source).tokens tree → tree = program.bare) ∧
      program.Legible) ∧
    (∀ token ∈ (Scan.ofText source).tokens, token.kind.isLiteral = true →
      ∃ value, Literal.ofToken token = .ok value) := by
  refine ⟨⟨?_, ?_⟩, ?_, fun token member => (Scan.tokens_sound source token member).2⟩
  · rintro ⟨program, parsed⟩
    obtain ⟨clean, derived⟩ := derivable_of_parse parsed
    exact ⟨clean, program.bare, derived⟩
  · rintro ⟨clean, tree, derived⟩
    obtain ⟨program, parsed, -⟩ := parse_of_derivable clean derived
    exact ⟨program, parsed⟩
  · intro program parsed
    obtain ⟨clean, derived⟩ := derivable_of_parse parsed
    refine ⟨derived, fun tree other => ?_, (legible_and_ids_of_parse parsed).1⟩
    obtain ⟨again, reparsed, same⟩ := parse_of_derivable clean other
    obtain rfl : program = again := Except.ok.inj (parsed.symm.trans reparsed)
    exact same.symm

end Program

end Stackwright

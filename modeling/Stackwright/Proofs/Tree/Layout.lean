import Stackwright.Proofs.Token.Respacing
import Stackwright.Proofs.Tree.Likeness

/-! Layout and comments have no part in the tree of a source text. Writing the tokens of a text with single
spaces between them gives the same tokens, and sources of the same tokens have the same tree but for the
regions of its nodes. -/

set_option autoImplicit false

namespace Stackwright

/-- What a fault says, wherever it lies. -/
def SyntaxFault.wording (fault : SyntaxFault) : SyntaxFault.Kind × String := (fault.kind, fault.message)

namespace Respelled

variable {tokens tokens' : List Token}

theorem map_spelling (respelled : Respelled tokens tokens') :
    tokens.map Token.spelling = tokens'.map Token.spelling :=
  map_eq_of_forall₂ (fun _ _ same => Prod.ext same.kind same.lexeme) respelled

/-- Sound tokens of the same spelling have the same values. -/
theorem alike (respelled : Respelled tokens tokens') (sound : ∀ token ∈ tokens, token.Sound) :
    List.Forall₂ Token.Alike tokens tokens' := by
  induction respelled with
  | nil => exact .nil
  | cons same _ ih =>
    obtain ⟨here, others⟩ := List.forall_mem_cons.mp sound
    refine .cons ⟨same, fun isLiteral => ?_⟩ (ih others)
    obtain ⟨value, valued⟩ := here.2 isLiteral
    exact ⟨value, valued, Literal.ofToken_of_agrees same valued⟩

end Respelled

namespace Program

/-- Sources of the same tokens have the same tree but for the regions of its nodes, and the faults that are
met in reading their tokens are of the same wording. -/
theorem read_alike {source other : String}
    (respelled : Respelled (Scan.ofText source).tokens (Scan.ofText other).tokens) :
    Parser.ProgramTwins (Program.read source).1 (Program.read other).1 ∧
      List.Forall₂ SyntaxFault.Alike (Parser.program (Cursor.ofText source).clear).2.faults
        (Parser.program (Cursor.ofText other).clear).2.faults := by
  have alike : (Cursor.ofText source).clear.Alike (Cursor.ofText other).clear :=
    ⟨respelled.alike (Scan.tokens_sound source), .nil, rfl⟩
  obtain ⟨twins, ends⟩ := Parser.recoversAlike_program _ _ alike
  rw [read_eq, read_eq]
  exact ⟨twins, ends.faults⟩

end Program

namespace Scan

/-- Tokens that are written alike are of the same kind. -/
theorem respelled_of_lexemes {source other : String}
    (same : (ofText source).tokens.map Token.lexeme = (ofText other).tokens.map Token.lexeme) :
    Respelled (ofText source).tokens (ofText other).tokens := by
  have text : respaced source = respaced other := congrArg (" ".intercalate ·) same
  refine respelled_of_map_eq ?_
  rw [(ofText_respaced source).2.map_spelling, (ofText_respaced other).2.map_spelling, text]

end Scan

namespace Program

/-- The tokens of a source, written with single spaces between them, are cut again from what was written,
without a fault. So layout and comments have no part in a tree: a source whose tokens are written alike has
a tree of the same shape with the same numbers, and where neither text has a lexical fault the faults of both
say the same. -/
theorem layout_irrelevant (source : String) :
    (Scan.ofText (Scan.respaced source)).faults = [] ∧
    (Scan.ofText (Scan.respaced source)).tokens.map Token.spelling = (Scan.ofText source).tokens.map Token.spelling ∧
    ∀ other, (Scan.ofText other).tokens.map Token.lexeme = (Scan.ofText source).tokens.map Token.lexeme →
      (Program.read other).1.bare = (Program.read source).1.bare ∧
      (Program.read other).1.ids = (Program.read source).1.ids ∧
      (Program.read other).1.nodeCount = (Program.read source).1.nodeCount ∧
      ((Scan.ofText source).faults = [] → (Scan.ofText other).faults = [] →
        (Program.read other).2.map SyntaxFault.wording = (Program.read source).2.map SyntaxFault.wording) := by
  obtain ⟨clean, respelled⟩ := Scan.ofText_respaced source
  refine ⟨clean, respelled.map_spelling.symm, fun other same => ?_⟩
  obtain ⟨twins, faults⟩ := read_alike (Scan.respelled_of_lexemes same)
  refine ⟨twins.bare, twins.ids, twins.nodeCount, fun clean clean' => ?_⟩
  rw [read_eq, read_eq, clean, clean']
  exact map_eq_of_forall₂ (fun _ _ alike => Prod.ext alike.kind alike.message) faults

/-- A program without a blank that can be spared, in which a percent sign is a character. -/
def squeezed : String := "func bool g(int a)\x7breturn a>-1;\x7d%g%main\x7bprint g(007),\\s#%,\\n;\x7d"

/-- The same program on several lines, with a comment. -/
def spread : String :=
  "func bool g(int a) \x7b\n  return a > - 1;  % a comparison %\n\x7d\nmain \x7b print g(007), \\s #% , \\n; \x7d\n"

theorem layout_irrelevant_squeezed :
    Scan.respaced squeezed =
      "func bool g ( int a ) \x7b return a > - 1 ; \x7d main \x7b print g ( 007 ) , \\s #% , \\n ; \x7d" ∧
    (Scan.ofText (Scan.respaced squeezed)).faults = [] ∧
    (Scan.ofText spread).tokens.map Token.lexeme = (Scan.ofText squeezed).tokens.map Token.lexeme ∧
    (Program.read spread).1.bare = (Program.read squeezed).1.bare ∧
    (Program.read spread).1.ids = (Program.read squeezed).1.ids := by
  obtain ⟨clean, -, anyOther⟩ := layout_irrelevant squeezed
  have same : (Scan.ofText spread).tokens.map Token.lexeme = (Scan.ofText squeezed).tokens.map Token.lexeme := by
    decide +kernel
  obtain ⟨bare, ids, -⟩ := anyOther spread same
  exact ⟨by decide +kernel, clean, same, bare, ids⟩

end Program

end Stackwright

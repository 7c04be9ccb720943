import Stackwright.Proofs.Checking.Sites
import Stackwright.Proofs.Tree.Anchoring
import Stackwright.Proofs.Tree.Deciding

/-! Positions that are reported are real. The pieces of a text are told where they lie in it; every syntax
fault has the region of a piece or is at the end of the file; every node of a program that is read without
faults begins with a token of its own; and every diagnostic is about a node. -/

set_option autoImplicit false

namespace Stackwright

namespace Scan

variable (text : String)

/-- The tokens of a text begin one behind another. -/
theorem tokens_ordered : Token.Ordered (ofText text).tokens := by
  have span_of_token? {lexeme : Lexeme} {token : Token} (isToken : lexeme.token? = some token) :
      lexeme.asToken.span = token.span := by
    cases lexeme with
    | token => cases isToken; rfl
    | rejected => cases isToken
  refine (pairwise_lexemes text).filterMap _ fun one other precedes token isToken token' isToken' => ?_
  rwa [span_of_token? isToken, span_of_token? isToken'] at precedes

theorem mem_allTokens_of_token {token : Token} (member : token ∈ (ofText text).tokens) :
    token ∈ (ofText text).allTokens := by
  obtain ⟨lexeme, among, isToken⟩ := List.mem_filterMap.mp member
  refine List.mem_append_left _ (List.mem_map.mpr ⟨lexeme, among, ?_⟩)
  cases lexeme with
  | token => exact Option.some.inj isToken
  | rejected => cases isToken

theorem exists_rejected {fault : LexicalFault} (member : fault ∈ (ofText text).faults) :
    ∃ token ∈ (ofText text).allTokens, fault.span = token.span := by
  obtain ⟨lexeme, among, isFault⟩ := List.mem_filterMap.mp member
  refine ⟨lexeme.asToken, List.mem_append_left _ (List.mem_map.mpr ⟨lexeme, among, rfl⟩), ?_⟩
  cases lexeme with
  | token => cases isFault
  | rejected => cases isFault; rfl

/-- The pieces lie in the text where their regions tell, and the end of the file is at its end. -/
theorem pieces_lie : ∃ stretches, Tiles [] text.toList stretches ∧
    List.Forall₂ Lexeme.Covers (ofText text).lexemes stretches ∧
    (ofText text).endOfFile.span = Stretch.span ⟨text.toList, []⟩ := by
  obtain ⟨finish, stretches, tiles, covers⟩ := @tiles_scanFrom _ [] _ (Nat.lt_succ_self text.toList.length)
  exact ⟨stretches, tiles, covers, congrArg (Position.span · 0) (finish.trans (Position.start_after text.toList))⟩

end Scan

namespace Program

variable {source : String}

/-- Every fault is about a piece of the text or about its end. -/
theorem exists_token_of_fault {fault : SyntaxFault} (member : fault ∈ (Program.read source).2) :
    ∃ token ∈ (Scan.ofText source).allTokens, fault.span = token.span := by
  have ordered : (Cursor.ofText source).Ordered := Scan.tokens_ordered source
  obtain ⟨recorded, added, seen⟩ := (Parser.located_program ordered).1.faults
  have split : fault ∈ (Scan.ofText source).faults.map SyntaxFault.ofLexical ++ recorded := added ▸ member
  rcases List.mem_append.mp split with lexical | syntactic
  · obtain ⟨cause, among, rfl⟩ := List.mem_map.mp lexical
    exact Scan.exists_rejected source among
  · rcases seen fault syntactic with ended | ⟨token, among, same⟩
    · exact ⟨_, List.mem_append_right _ (List.mem_singleton.mpr rfl), ended⟩
    · exact ⟨token, Scan.mem_allTokens_of_token source among, same⟩

/-- A program that is read without faults is anchored in all the tokens of its text. -/
theorem anchored_of_parse {program : Program} (parsed : Program.parse source = .ok program) :
    Anchored.Program (Scan.ofText source).tokens program := by
  obtain ⟨clean, rfl⟩ := parse_eq_ok_iff.mp parsed
  have ordered : (Cursor.ofText source).Ordered := Scan.tokens_ordered source
  obtain ⟨tokens, passes, anchored⟩ := (Parser.located_program ordered).2 clean
  have whole : (Scan.ofText source).tokens = tokens ++ (Parser.program (Cursor.ofText source)).2.rest :=
    passes.rest
  rw [whole, rest_eq_nil_of_clean clean, List.append_nil]
  exact anchored

/-- Every position that is reported is one of the source text. The pieces of the text lie where their regions
tell, and what is reported when it is read, even with faults, is at one of them or at the end. If it is read
without faults then all its nodes, each with a number, are anchored in the tokens: an operation begins with
the first of its tokens that is no grouping parenthesis, every other node with its first token. So the
diagnostics of its check begin with tokens too. -/
theorem positions_real (source : String) :
    (∃ stretches, Tiles [] source.toList stretches ∧
      List.Forall₂ Lexeme.Covers (Scan.ofText source).lexemes stretches ∧
      (Scan.ofText source).endOfFile.span = Stretch.span ⟨source.toList, []⟩) ∧
    (∀ fault ∈ (Program.read source).2, ∃ token ∈ (Scan.ofText source).allTokens, fault.span = token.span) ∧
    ∀ program, Program.parse source = .ok program →
      Anchored.Program (Scan.ofText source).tokens program ∧
      program.nodes.map Node.id = List.range program.nodeCount ∧
      (∀ node ∈ program.nodes, ∃ token ∈ (Scan.ofText source).tokens, node.span.StartsAt token) ∧
      ∀ diagnostic ∈ program.analyze.diagnostics,
        ∃ token ∈ (Scan.ofText source).tokens, diagnostic.span.StartsAt token := by
  refine ⟨Scan.pieces_lie source, fun fault member => exists_token_of_fault member, fun program parsed => ?_⟩
  have anchored := anchored_of_parse parsed
  have among := anchored.allAmong
  refine ⟨anchored, program.map_id_nodes.trans (legible_and_ids_of_parse parsed).2, among, ?_⟩
  intro diagnostic member
  obtain ⟨node, inside, same⟩ := program.diagnostics_at_nodes diagnostic member
  rw [same]
  exact among node inside

/-- An addition that is refused is reported where its first operand begins, behind two parentheses and a newline. -/
example : (Program.read "main \x7b\n  imm x := ((\n    true + 1) * 2);\n\x7d").1.analyze.diagnostics.map
    Diagnostic.span = [⟨3, 5, 8⟩] := by decide +kernel

end Program

end Stackwright

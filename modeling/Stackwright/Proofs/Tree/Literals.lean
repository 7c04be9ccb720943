import Stackwright.Proofs.Token.Tiling
import Stackwright.Proofs.Tree.Layout

/-! Literals have values. Every literal that is cut from a text is read as what its spelling stands for, so
reading a program never meets text that is no token: the faults of that kind are those of the text itself, and
they come first, in the order in which they lie in the text. -/

set_option autoImplicit false

namespace Stackwright

/-- The region begins before the other one. -/
def Span.Precedes (span other : Span) : Prop :=
  span.line < other.line ∨ span.line = other.line ∧ span.column < other.column

theorem Span.Precedes.trans {first second third : Span} (one : first.Precedes second) (two : second.Precedes third) :
    first.Precedes third := by
  unfold Precedes at *
  omega

namespace Position

theorem precedes_advance (position : Position) (c : Char) (length more : Nat) :
    (position.span length).Precedes ((position.advance c).span more) := by
  unfold advance
  split
  · exact .inl (Nat.lt_succ_self _)
  · exact .inr ⟨rfl, Nat.lt_add_of_pos_right c.utf8Size_pos⟩

/-- Every text moves the position forward. -/
theorem precedes_after (position : Position) {text : List Char} (some : text ≠ []) (length more : Nat) :
    (position.span length).Precedes ((position.after text).span more) := by
  induction text generalizing position length with
  | nil => exact absurd rfl some
  | cons c rest ih =>
    by_cases last : rest = []
    · subst last
      exact position.precedes_advance c length more
    · exact (position.precedes_advance c length 0).trans (ih (position.advance c) last 0)

end Position

theorem Stretch.span_eq (stretch : Stretch) :
    stretch.span = (Position.start.after stretch.before).span (Text.Utf8.size stretch.text) := by
  rw [Position.start_after]
  rfl

namespace Tiles

variable {before chars : List Char} {stretches : List Stretch}

theorem before_isPrefix (tiles : Tiles before chars stretches) : ∀ stretch ∈ stretches, before <+: stretch.before := by
  induction tiles with
  | finish => exact List.forall_mem_nil _
  | piece _ _ _ ih =>
    refine List.forall_mem_cons.mpr ⟨List.prefix_append .., fun stretch member => ?_⟩
    have longer := ih stretch member
    rw [List.append_assoc] at longer
    exact (List.prefix_append ..).trans longer

/-- Stretches that follow one another begin one behind another. -/
theorem pairwise_span (tiles : Tiles before chars stretches) :
    stretches.Pairwise fun one other => one.span.Precedes other.span := by
  induction tiles with
  | finish => exact .nil
  | @piece before gap text rest stretches _ some tail ih =>
    refine List.pairwise_cons.mpr ⟨fun stretch member => ?_, ih⟩
    -- whatever lies between them, the later stretch begins behind this text
    obtain ⟨between, whole⟩ := tail.before_isPrefix stretch member
    have onward : Position.start.after stretch.before =
        (Position.start.after (before ++ gap)).after (text ++ between) := by
      rw [← Position.after_append, ← whole, List.append_assoc]
    rw [Stretch.span_eq, Stretch.span_eq, onward]
    exact Position.precedes_after _ (by simp [some]) _ _

end Tiles

namespace Scan

/-- The pieces of a text begin one behind another. -/
theorem pairwise_lexemes (text : String) :
    (ofText text).lexemes.Pairwise fun one other => one.asToken.span.Precedes other.asToken.span := by
  obtain ⟨-, stretches, tiles, covers⟩ := @tiles_scanFrom _ [] _ (Nat.lt_succ_self text.toList.length)
  have spans : (ofText text).lexemes.map (fun lexeme => lexeme.asToken.span) = stretches.map Stretch.span := by
    refine map_eq_of_forall₂ (fun lexeme stretch covered => ?_) covers
    cases lexeme with
    | token accepted => exact covered.2
    | rejected fault => exact covered
  have ordered := List.pairwise_map.mpr tiles.pairwise_span
  rw [← spans] at ordered
  exact List.pairwise_map.mp ordered

theorem pairwise_faults (text : String) :
    (ofText text).faults.Pairwise fun one other => one.span.Precedes other.span := by
  have span_of_fault? {lexeme : Lexeme} {fault : LexicalFault} (isFault : lexeme.fault? = some fault) :
      lexeme.asToken.span = fault.span := by
    cases lexeme with
    | token => cases isFault
    | rejected => cases isFault; rfl
  refine (pairwise_lexemes text).filterMap _ fun one other precedes fault isFault fault' isFault' => ?_
  rwa [span_of_fault? isFault, span_of_fault? isFault'] at precedes

end Scan

/-- Every literal token of a text stands for something. -/
theorem Scan.tokens_denote (text : String) : ∀ token ∈ (Scan.ofText text).tokens, token.kind.isLiteral = true →
    ∃ value, Literal.Denotes token.kind token.lexeme.toList value := by
  refine Scan.forall_tokens (fun first rest kind span accepted isLiteral => ?_) _ _ _
  rw [String.toList_ofList]
  exact Literal.exists_denotes (Munch.lexical_piece first rest kind accepted) isLiteral

namespace Program

/-- The faults that are met in reading the tokens of a text are not about text that is no token. -/
theorem syntactic_of_mem {source : String} :
    ∀ fault ∈ (Parser.program (Cursor.ofText source).clear).2.faults, fault.kind ≠ .invalidToken := by
  have same : Respelled (Scan.ofText source).tokens (Scan.ofText source).tokens := respelled_of_map_eq rfl
  exact List.forall₂_same.mp ((read_alike same).2.imp fun fault _ alike => alike.syntactic)

/-- Every literal token of a source has a value, which is what its spelling stands for. So the faults about text
that is no token are those of the source itself: they come first, in the order in which they lie in the source,
and all others are of other kinds. -/
theorem literals_valued (source : String) :
    (∀ token ∈ (Scan.ofText source).tokens, token.kind.isLiteral = true →
      ∃ value, Literal.ofToken token = .ok value ∧ Literal.Denotes token.kind token.lexeme.toList value) ∧
    (Program.read source).2.filter (fun fault => fault.kind = .invalidToken) =
      (Scan.ofText source).faults.map SyntaxFault.ofLexical ∧
    (∃ later, (Program.read source).2 = (Scan.ofText source).faults.map SyntaxFault.ofLexical ++ later ∧
      ∀ fault ∈ later, fault.kind ≠ .invalidToken) ∧
    (Scan.ofText source).faults.Pairwise fun one other => one.span.Precedes other.span := by
  have others : ∀ fault ∈ (Parser.program (Cursor.ofText source).clear).2.faults, fault.kind ≠ .invalidToken :=
    syntactic_of_mem
  refine ⟨fun token member isLiteral => ?_, ?_, ⟨_, congrArg Prod.snd (read_eq source), others⟩,
    Scan.pairwise_faults source⟩
  · obtain ⟨value, denotes⟩ := Scan.tokens_denote source token member isLiteral
    have read := denotes.ofToken token.span
    rw [String.ofList_toList] at read
    exact ⟨value, read, denotes⟩
  · have lexical : ∀ fault ∈ (Scan.ofText source).faults.map SyntaxFault.ofLexical, fault.kind = .invalidToken :=
      List.forall_mem_map.mpr fun _ _ => rfl
    rw [read_eq, List.filter_append, List.filter_eq_self.mpr (by simpa using lexical),
      List.filter_eq_nil_iff.mpr (by simpa using others), List.append_nil]

end Program

end Stackwright

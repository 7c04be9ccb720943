import Stackwright.Proofs.Token.Spacing

/-! How a source text is covered by the pieces that are cut from it. The pieces lie in the text one
behind another; nothing but blanks and comments lies around them; and the region of each is told by
the text before it. Cutting off one token after another gives the same pieces, and the end of the
file for ever after. -/

set_option autoImplicit false

namespace Stackwright

namespace Munch

/-- The piece takes some of the text from its front and leaves the rest, and what it accepts is a
proper kind of token. -/
structure Cuts (munch : Munch) (chars : List Char) : Prop where
  taken : munch.taken ≠ []
  whole : munch.taken ++ munch.rest = chars
  kind : munch.outcome ≠ .ok .invalid

variable {chars taken rest : List Char}

theorem cuts_accept {kind : Kind} (proper : kind ≠ .invalid) (some : taken ≠ [])
    (whole : taken ++ rest = chars) : (accept kind taken rest).Cuts chars :=
  ⟨some, whole, by simpa [accept] using proper⟩

theorem cuts_reject {cause : LexicalFault.Cause} (some : taken ≠ []) (whole : taken ++ rest = chars) :
    (reject cause taken rest).Cuts chars :=
  ⟨some, whole, by simp [reject]⟩

theorem cuts_integer (some : taken ≠ []) (whole : taken ++ rest = chars) :
    (integer taken rest).Cuts chars := by
  unfold integer
  split
  · exact cuts_accept (by simp) some whole
  · exact cuts_reject some whole

theorem cuts_float (some : taken ≠ []) (whole : taken ++ rest = chars) : (float taken rest).Cuts chars := by
  unfold float
  split
  · exact cuts_accept (by simp) some whole
  · exact cuts_reject some whole

theorem splitSign_append (chars : List Char) : (splitSign chars).1 ++ (splitSign chars).2 = chars := by
  unfold splitSign
  split <;> rfl

theorem cuts_exponent {mantissa : List Char} (some : mantissa ≠ []) (whole : mantissa ++ rest = chars) :
    (exponent mantissa rest).Cuts chars := by
  unfold exponent
  split
  next tail =>
    have digits : ((splitSign tail).2.takeWhile Char.isDigit) ++ ((splitSign tail).2.dropWhile Char.isDigit) =
        (splitSign tail).2 := List.takeWhile_append_dropWhile
    have split : mantissa ++ 'E' :: (splitSign tail).1 ++ (splitSign tail).2.takeWhile Char.isDigit ++
        (splitSign tail).2.dropWhile Char.isDigit = chars := by
      rw [List.append_assoc, digits, ← whole, List.append_assoc, List.cons_append, splitSign_append]
    dsimp only
    split
    · exact cuts_reject (by simp [some]) split
    · exact cuts_float (by simp [some]) split
  · exact cuts_float some whole

theorem cuts_number {first : Char} (isDigit : first.isDigit = true) :
    (number (first :: rest)).Cuts (first :: rest) := by
  have some : (first :: rest).takeWhile Char.isDigit ≠ [] := by simp [isDigit]
  have whole : (first :: rest).takeWhile Char.isDigit ++ (first :: rest).dropWhile Char.isDigit = first :: rest :=
    List.takeWhile_append_dropWhile
  unfold number
  dsimp only
  split
  next digit tail remaining =>
    rw [remaining] at whole
    split
    · refine cuts_exponent (by simp) ?_
      rw [List.append_assoc, List.cons_append, List.takeWhile_append_dropWhile]
      exact whole
    · exact cuts_integer some whole
  · exact cuts_integer some whole

theorem cuts_word {first : Char} (continues : continuesName first = true) :
    (word (first :: rest)).Cuts (first :: rest) := by
  have some : (first :: rest).takeWhile continuesName ≠ [] := by simp [continues]
  unfold word
  dsimp only
  split
  · exact cuts_accept (by simp) some List.takeWhile_append_dropWhile
  · exact cuts_accept (by simp) some List.takeWhile_append_dropWhile

theorem cuts_character (rest : List Char) : (character rest).Cuts ('#' :: rest) := by
  unfold character
  split
  · exact cuts_reject (by simp) rfl
  · split
    · exact cuts_reject (by simp) rfl
    · split
      · exact cuts_accept (by simp) (by simp) rfl
      · exact cuts_reject (by simp) rfl
  next c tail _ =>
    have digits : '#' :: ((c :: tail).takeWhile isOctal) ++ (c :: tail).dropWhile isOctal = '#' :: c :: tail := by
      rw [List.cons_append, List.takeWhile_append_dropWhile]
    split
    · dsimp only
      split
      · exact cuts_accept (by simp) (by simp) digits
      · exact cuts_reject (by simp) digits
    · exact cuts_accept (by simp) (by simp) rfl

theorem cuts_string (rest : List Char) : (string rest).Cuts ('"' :: rest) := by
  have whole : rest.takeWhile continuesString ++ rest.dropWhile continuesString = rest :=
    List.takeWhile_append_dropWhile
  unfold string
  dsimp only
  split
  next remaining => exact cuts_accept (by simp) (by simp) (by simpa [remaining] using whole)
  · exact cuts_reject (by simp) (by rw [List.cons_append, whole])

theorem cuts_mark (first : Char) (rest : List Char) : (mark first rest).Cuts (first :: rest) := by
  unfold mark
  split
  all_goals first
    | exact cuts_accept (by simp) (by simp) rfl
    | exact cuts_reject (by simp) rfl

/-- Every piece takes at least its first character. -/
theorem cuts_piece (first : Char) (rest : List Char) : (piece first rest).Cuts (first :: rest) := by
  unfold piece
  split
  next isDigit => exact cuts_number isDigit
  · split
    next starts => exact cuts_word (continuesName_of_startsName starts)
    · split
      next isHash => exact isHash ▸ cuts_character rest
      · split
        next isQuote => exact isQuote ▸ cuts_string rest
        · exact cuts_mark first rest

end Munch

namespace Text

/-- Blanks and comments. A comment runs from `%` to the next `%` or to the end of its line; only
where the text ends with it may it stay open. -/
inductive Trivia (atEnd : Prop) : List Char → Prop
  | none : Trivia atEnd []
  | blank {c : Char} {rest : List Char} : isBlank c = true → Trivia atEnd rest → Trivia atEnd (c :: rest)
  | closed {body rest : List Char} : (∀ c ∈ body, c ≠ '%' ∧ c ≠ '\n') → Trivia atEnd rest →
    Trivia atEnd ('%' :: body ++ '%' :: rest)
  | line {body rest : List Char} : (∀ c ∈ body, c ≠ '%' ∧ c ≠ '\n') → Trivia atEnd rest →
    Trivia atEnd ('%' :: body ++ '\n' :: rest)
  | unclosed {body : List Char} : atEnd → (∀ c ∈ body, c ≠ '%' ∧ c ≠ '\n') → Trivia atEnd ('%' :: body)

namespace Utf8

theorem size_append (one other : List Char) : size (one ++ other) = size one + size other := by
  induction one with
  | nil => simp [size]
  | cons c rest ih => simp only [List.cons_append, size, ih, Nat.add_assoc]

theorem size_pos {chars : List Char} (some : chars ≠ []) : 0 < size chars := by
  cases chars with
  | nil => exact absurd rfl some
  | cons c rest => exact Nat.add_pos_left c.utf8Size_pos _

theorem length_encode (chars : List Char) : (encode chars).length = size chars := by
  induction chars with
  | nil => rfl
  | cons c rest ih => simpa [encode, size] using ih

theorem encode_append (one other : List Char) : encode (one ++ other) = encode one ++ encode other :=
  List.flatMap_append

theorem count_le_size (c : Char) (chars : List Char) : chars.count c ≤ size chars := by
  induction chars with
  | nil => exact Nat.zero_le _
  | cons first rest ih =>
    have positive := first.utf8Size_pos
    rw [List.count_cons, size]
    split <;> omega

end Utf8

end Text

open Text

theorem splitTrivia_append (inside : Bool) (chars : List Char) :
    (splitTrivia inside chars).1 ++ (splitTrivia inside chars).2 = chars := by
  induction chars generalizing inside with
  | nil => rfl
  | cons c rest ih =>
    rw [splitTrivia]
    split
    · exact congrArg (c :: ·) (ih _)
    · split
      · exact congrArg (c :: ·) (ih _)
      · rfl

/-- What is skipped is trivia; inside a comment it is so together with what was read of the comment. -/
theorem trivia_splitTrivia (chars : List Char) :
    Trivia ((splitTrivia false chars).2 = []) (splitTrivia false chars).1 ∧
      ∀ body : List Char, (∀ c ∈ body, c ≠ '%' ∧ c ≠ '\n') →
        Trivia ((splitTrivia true chars).2 = []) ('%' :: body ++ (splitTrivia true chars).1) := by
  induction chars with
  | nil =>
    refine ⟨.none, fun body plain => ?_⟩
    rw [splitTrivia, List.append_nil]
    exact .unclosed rfl plain
  | cons c rest ih =>
    constructor
    · rw [splitTrivia]
      simp only [Bool.false_eq_true, if_false]
      split
      next skips =>
        by_cases isPercent : c = '%'
        · subst isPercent
          exact ih.2 [] (List.forall_mem_nil _)
        · have other : (c == '%') = false := beq_false_of_ne isPercent
          rw [other, Bool.or_false] at skips
          simp only [other]
          exact .blank skips ih.1
      · exact .none
    · intro body plain
      rw [splitTrivia]
      simp only [if_true]
      by_cases isPercent : c = '%'
      · subst isPercent
        exact .closed plain ih.1
      · by_cases isNewline : c = '\n'
        · subst isNewline
          exact .line plain ih.1
        · have goes : (c != '%' && c != '\n') = true := by simp [isPercent, isNewline]
          simp only [goes]
          have longer := ih.2 (body ++ [c]) (List.forall_mem_append.mpr
            ⟨plain, List.forall_mem_singleton.mpr ⟨isPercent, isNewline⟩⟩)
          simpa using longer

namespace Position

theorem after_append (position : Position) (one other : List Char) :
    position.after (one ++ other) = (position.after one).after other :=
  List.foldl_append

/-- The line after a text is told by its newlines, the column by the bytes behind the last of them. -/
theorem start_after (before : List Char) :
    start.after before =
      ⟨1 + before.count '\n', 1 + Utf8.size (before.rtakeWhile (· != '\n'))⟩ := by
  induction before using List.reverseRecOn with
  | nil => rfl
  | append_singleton chars c ih =>
    rw [after_append, ih]
    change advance _ c = _
    rw [advance, List.count_append, List.count_singleton, List.rtakeWhile_concat]
    split
    next isNewline =>
      subst isNewline
      simp [Utf8.size, Nat.add_assoc]
    next other =>
      simp [other, Utf8.size_append, Utf8.size, Nat.add_assoc]

end Position

/-- A stretch of a text: the text before it, and its own. -/
structure Stretch where
  before : List Char
  text : List Char

namespace Stretch

/-- The number of bytes before the stretch. -/
def start (stretch : Stretch) : Nat := Utf8.size stretch.before

/-- The number of bytes up to the end of the stretch. -/
def stop (stretch : Stretch) : Nat := stretch.start + Utf8.size stretch.text

/-- The line counts the newlines before the stretch, the column the bytes behind the last of them. -/
def span (stretch : Stretch) : Span :=
  ⟨1 + stretch.before.count '\n', 1 + Utf8.size (stretch.before.rtakeWhile (· != '\n')),
    Utf8.size stretch.text⟩

/-- The stretch is not empty, and its text is what stands in the source between its ends. -/
structure Lies (stretch : Stretch) (source : List Char) : Prop where
  isPart : stretch.before ++ stretch.text <+: source
  start_lt : stretch.start < stretch.stop
  stop_le : stretch.stop ≤ Utf8.size source
  slice : ((Utf8.encode source).drop stretch.start).take (stretch.stop - stretch.start) =
    Utf8.encode stretch.text

theorem lies_of_split {stretch : Stretch} {rest : List Char} (some : stretch.text ≠ []) :
    stretch.Lies (stretch.before ++ (stretch.text ++ rest)) where
  isPart := by
    rw [← List.append_assoc]
    exact List.prefix_append ..
  start_lt := Nat.lt_add_of_pos_right (Utf8.size_pos some)
  stop_le := by
    simp only [stop, start, Utf8.size_append]
    omega
  slice := by
    rw [stop, Nat.add_sub_cancel_left, start, ← Utf8.length_encode, ← Utf8.length_encode, Utf8.encode_append,
      Utf8.encode_append, List.drop_left, List.take_left]

/-- In a source whose bytes can be counted by 32 bits, so can lines and columns. -/
theorem Lies.span_le {stretch : Stretch} {source : List Char} (lies : stretch.Lies source) :
    stretch.span.line ≤ Utf8.size source ∧ stretch.span.column ≤ Utf8.size source := by
  have ahead : stretch.start < Utf8.size source := Nat.lt_of_lt_of_le lies.start_lt lies.stop_le
  have line := Utf8.count_le_size '\n' stretch.before
  have column : Utf8.size (stretch.before.rtakeWhile (· != '\n')) ≤ Utf8.size stretch.before := by
    obtain ⟨front, whole⟩ := List.rtakeWhile_suffix (· != '\n') stretch.before
    have sizes := congrArg Utf8.size whole
    rw [Utf8.size_append] at sizes
    omega
  simp only [span, start] at *
  omega

end Stretch

/-- The piece was cut from the stretch: it lies there, and a token is spelled as the stretch is. -/
def Lexeme.Covers (lexeme : Lexeme) (stretch : Stretch) : Prop :=
  match lexeme with
  | .token accepted => accepted.lexeme = String.ofList stretch.text ∧ accepted.span = stretch.span
  | .rejected fault => fault.span = stretch.span

/-- The stretches lie one behind another in the text that follows `before`, and all of it that lies
around them is trivia. -/
inductive Tiles : (before chars : List Char) → List Stretch → Prop
  | finish {before gap : List Char} : Trivia True gap → Tiles before gap []
  | piece {before gap text rest : List Char} {stretches : List Stretch} : Trivia False gap → text ≠ [] →
    Tiles (before ++ gap ++ text) rest stretches →
    Tiles before (gap ++ (text ++ rest)) (⟨before ++ gap, text⟩ :: stretches)

namespace Tiles

variable {before chars : List Char} {stretches : List Stretch}

theorem start_le (tiles : Tiles before chars stretches) :
    ∀ stretch ∈ stretches, Utf8.size before ≤ stretch.start := by
  induction tiles with
  | finish => exact List.forall_mem_nil _
  | piece _ _ _ ih =>
    refine List.forall_mem_cons.mpr ⟨?_, fun stretch member => ?_⟩
    · rw [Stretch.start, Utf8.size_append]
      exact Nat.le_add_right _ _
    · have later := ih stretch member
      rw [Utf8.size_append, Utf8.size_append] at later
      omega

theorem ordered (tiles : Tiles before chars stretches) :
    stretches.Pairwise fun one other => one.stop ≤ other.start := by
  induction tiles with
  | finish => exact .nil
  | piece _ _ rest ih =>
    refine List.pairwise_cons.mpr ⟨fun stretch member => ?_, ih⟩
    have later := rest.start_le stretch member
    rwa [Utf8.size_append] at later

theorem lies (tiles : Tiles before chars stretches) :
    ∀ stretch ∈ stretches, stretch.Lies (before ++ chars) := by
  induction tiles with
  | finish => exact List.forall_mem_nil _
  | @piece before gap text rest _ _ some _ ih =>
    have whole : before ++ (gap ++ (text ++ rest)) = before ++ gap ++ (text ++ rest) :=
      (List.append_assoc ..).symm
    refine List.forall_mem_cons.mpr ⟨?_, fun stretch member => ?_⟩
    · exact whole ▸ Stretch.lies_of_split some
    · have inside := ih stretch member
      rwa [List.append_assoc, ← whole] at inside

end Tiles

namespace Lexer

theorem next_end (position : Position) (faults : List LexicalFault) :
    next ⟨position, [], faults⟩ = (.endOfFile (position.span 0), ⟨position, [], faults⟩) := rfl

theorem after_succ (lexer : Lexer) (count : Nat) : lexer.after (count + 1) = lexer.next.2.after count := rfl

theorem token_succ (lexer : Lexer) (index : Nat) : lexer.token (index + 1) = lexer.next.2.token index := by
  rw [token, after_succ, token]

/-- At the end of the text a lexer stays where it is. -/
theorem after_end (position : Position) (faults : List LexicalFault) (count : Nat) :
    after ⟨position, [], faults⟩ count = ⟨position, [], faults⟩ := by
  induction count with
  | zero => rfl
  | succ count ih => rw [after_succ, next_end, ih]

end Lexer

namespace Scan

theorem covers_lexeme (before : List Char) (munch : Munch) :
    (munch.lexeme (Position.start.after before)).Covers ⟨before, munch.taken⟩ := by
  rw [Munch.lexeme, Position.start_after]
  split
  · exact ⟨rfl, rfl⟩
  · rfl

/-- The pieces of a text tile it. -/
theorem tiles_scanFrom {budget : Nat} {before chars : List Char} (enough : chars.length < budget) :
    (scanFrom budget (Position.start.after before) chars).finish = Position.start.after (before ++ chars) ∧
      ∃ stretches, Tiles before chars stretches ∧
        List.Forall₂ Lexeme.Covers (scanFrom budget (Position.start.after before) chars).lexemes stretches := by
  induction budget generalizing before chars with
  | zero => omega
  | succ budget ih =>
    have whole := splitTrivia_append false chars
    have trivia := (trivia_splitTrivia chars).1
    rw [scanFrom]
    generalize splitTrivia false chars = parts at whole trivia ⊢
    obtain ⟨gap, remaining⟩ := parts
    dsimp only at whole trivia ⊢
    rw [← Position.after_append]
    subst whole
    cases remaining with
    | nil =>
      rw [List.append_nil]
      exact ⟨rfl, [], .finish (by simpa using trivia), .nil⟩
    | cons first rest =>
      have cuts := Munch.cuts_piece first rest
      have shorter : (Munch.piece first rest).rest.length < budget := by
        have lengths := congrArg List.length cuts.whole
        have positive := List.length_pos_iff.mpr cuts.taken
        simp only [List.length_append] at lengths enough
        omega
      obtain ⟨finish, stretches, tiles, covers⟩ := @ih (before ++ gap ++ (Munch.piece first rest).taken) _ shorter
      rw [Position.after_append] at finish covers
      have pieces : Tiles before (gap ++ (first :: rest))
          (⟨before ++ gap, (Munch.piece first rest).taken⟩ :: stretches) :=
        cuts.whole ▸ .piece (by simpa using trivia) cuts.taken tiles
      refine ⟨?_, _, pieces, .cons (covers_lexeme _ _) covers⟩
      rw [finish, List.append_assoc, List.append_assoc, cuts.whole]

/-- One token more: the end of the file if there is no further piece, and else the next piece. -/
theorem next_scanFrom (budget : Nat) (position : Position) (chars : List Char) (faults : List LexicalFault) :
    (∃ finish, scanFrom (budget + 1) position chars = ⟨[], finish⟩ ∧
      Lexer.next ⟨position, chars, faults⟩ = (.endOfFile (finish.span 0), ⟨finish, [], faults⟩)) ∨
    ∃ lexeme onward rest, rest.length < chars.length ∧
      scanFrom (budget + 1) position chars =
        ⟨lexeme :: (scanFrom budget onward rest).lexemes, (scanFrom budget onward rest).finish⟩ ∧
      Lexer.next ⟨position, chars, faults⟩ =
        (lexeme.asToken, ⟨onward, rest, faults ++ lexeme.fault?.toList⟩) := by
  have whole := splitTrivia_append false chars
  rw [scanFrom, Lexer.next]
  generalize splitTrivia false chars = parts at whole ⊢
  obtain ⟨gap, remaining⟩ := parts
  cases remaining with
  | nil => exact .inl ⟨_, rfl, rfl⟩
  | cons first rest =>
    have cuts := Munch.cuts_piece first rest
    refine .inr ⟨_, _, _, ?_, rfl, rfl⟩
    have lengths := congrArg List.length cuts.whole
    have positive := List.length_pos_iff.mpr cuts.taken
    have total := congrArg List.length whole
    simp only [List.length_append] at lengths total
    omega

/-- Cutting off token after token gives the pieces of the text, then the end of the file for ever. -/
theorem token_scanFrom {budget : Nat} {position : Position} {chars : List Char} (faults : List LexicalFault)
    (enough : chars.length < budget) (index : Nat) :
    Lexer.token ⟨position, chars, faults⟩ index =
      (scanFrom budget position chars).allTokens.getD index (scanFrom budget position chars).endOfFile := by
  induction budget generalizing position chars faults index with
  | zero => omega
  | succ budget ih =>
    rcases next_scanFrom budget position chars faults with
      ⟨finish, ended, next⟩ | ⟨lexeme, onward, rest, shorter, cut, next⟩
    · rw [ended]
      cases index with
      | zero => exact congrArg Prod.fst next
      | succ index => rw [Lexer.token_succ, next, Lexer.token, Lexer.after_end]; rfl
    · rw [cut]
      cases index with
      | zero => exact congrArg Prod.fst next
      | succ index =>
        rw [Lexer.token_succ, next]
        exact ih _ (by omega) index

/-- The faults met among so many tokens are those of as many pieces. -/
theorem faults_scanFrom {budget : Nat} {position : Position} {chars : List Char} (faults : List LexicalFault)
    (enough : chars.length < budget) (count : Nat) :
    (Lexer.after ⟨position, chars, faults⟩ count).faults =
      faults ++ ((scanFrom budget position chars).lexemes.take count).filterMap Lexeme.fault? := by
  induction budget generalizing position chars faults count with
  | zero => omega
  | succ budget ih =>
    cases count with
    | zero => simp [Lexer.after]
    | succ count =>
      rcases next_scanFrom budget position chars faults with
        ⟨finish, ended, next⟩ | ⟨lexeme, onward, rest, shorter, cut, next⟩
      · rw [ended, Lexer.after_succ, next, Lexer.after_end]
        simp
      · rw [cut, Lexer.after_succ, next, ih _ (by omega), List.take_succ_cons, List.append_assoc]
        cases lexeme <;> rfl

/-- A token that was accepted stands neither for the end of the file nor for rejected text. -/
theorem kind_of_token (text : String) : ∀ token ∈ (ofText text).tokens,
    token.kind ≠ .endOfFile ∧ token.kind ≠ .invalid :=
  forall_tokens (fun first rest kind span accepted =>
    ⟨(Munch.sound_piece first rest kind span accepted).1, fun invalid =>
      (Munch.cuts_piece first rest).kind (accepted.trans (congrArg Except.ok invalid))⟩) _ _ _

/-- The tokens that stand for rejected text are the faults, one for one. -/
theorem filter_invalid (text : String) :
    (ofText text).allTokens.filter (fun token => token.kind = .invalid) =
      (ofText text).faults.map fun fault => ⟨.invalid, "", fault.span⟩ := by
  have among (lexemes : List Lexeme) (proper : ∀ token ∈ lexemes.filterMap Lexeme.token?, token.kind ≠ .invalid) :
      (lexemes.map Lexeme.asToken).filter (fun token => token.kind = .invalid) =
        (lexemes.filterMap Lexeme.fault?).map fun fault => ⟨.invalid, "", fault.span⟩ := by
    induction lexemes with
    | nil => rfl
    | cons lexeme rest ih =>
      cases lexeme with
      | token accepted =>
        obtain ⟨here, others⟩ := List.forall_mem_cons.mp proper
        rw [List.map_cons, List.filter_cons_of_neg (by simp [Lexeme.asToken, here])]
        exact ih others
      | rejected fault =>
        rw [List.map_cons, List.filter_cons_of_pos (by simp [Lexeme.asToken])]
        exact congrArg (_ :: ·) (ih proper)
  rw [allTokens, List.filter_append, among _ fun token member => (kind_of_token text token member).2]
  exact List.append_nil _

/-- The pieces cut from a source text tile it. Cutting off one token after another gives the pieces,
rejected ones as tokens of their own kind, and then the end of the file at one position for ever. Each
piece lies in a stretch of the text that is not empty; the stretches follow one another without
overlap, and what lies around them is blanks and comments. The region of a piece tells where its stretch
begins and how long it is, and a token is spelled as its stretch. The faults met are those of the
rejected pieces, in order. -/
theorem pieces_tile (source : String) (short : Utf8.size source.toList < 2 ^ 32) :
    (∀ index, (Lexer.ofText source).token index =
      (ofText source).allTokens.getD index (ofText source).endOfFile) ∧
    (∀ piece ∈ (ofText source).lexemes, piece.asToken.kind ≠ .endOfFile) ∧
    (∀ count, ((Lexer.ofText source).after count).faults =
      ((ofText source).lexemes.take count).filterMap Lexeme.fault?) ∧
    (ofText source).allTokens.filter (fun token => token.kind = .invalid) =
      (ofText source).faults.map (fun fault => ⟨.invalid, "", fault.span⟩) ∧
    (ofText source).endOfFile.span = Stretch.span ⟨source.toList, []⟩ ∧
    ∃ stretches, Tiles [] source.toList stretches ∧
      List.Forall₂ Lexeme.Covers (ofText source).lexemes stretches ∧
      stretches.Pairwise (fun one other => one.stop ≤ other.start) ∧
      ∀ stretch ∈ stretches, stretch.Lies source.toList ∧ stretch.stop < 2 ^ 32 ∧
        stretch.span.line < 2 ^ 32 ∧ stretch.span.column < 2 ^ 32 := by
  have enough : source.toList.length < source.toList.length + 1 := Nat.lt_succ_self _
  obtain ⟨finish, stretches, tiles, covers⟩ := @tiles_scanFrom _ [] _ enough
  refine ⟨token_scanFrom [] enough, ?_, faults_scanFrom [] enough, filter_invalid source, ?_, stretches, tiles,
    covers, tiles.ordered, fun stretch member => ?_⟩
  · intro piece member
    cases piece with
    | token accepted => exact (kind_of_token source accepted (List.mem_filterMap.mpr ⟨_, member, rfl⟩)).1
    | rejected fault => simp [Lexeme.asToken]
  · exact congrArg (Position.span · 0) (finish.trans (Position.start_after source.toList))
  · have lies : stretch.Lies source.toList := tiles.lies stretch member
    have bounds := lies.span_le
    have stop := lies.stop_le
    exact ⟨lies, by omega, by omega, by omega⟩

/-- Two lines with a string of two bytes a letter, a rejected sign between comments, a character literal
that takes the newline, and a comment that the end of the text leaves open. -/
def motley : String := "\"éé\" % a % @ % b\n#\nx % c"

theorem pieces_tile_motley :
    Utf8.size motley.toList < 2 ^ 32 ∧
      (Lexer.ofText motley).token 1 = ⟨.invalid, "", ⟨1, 14, 1⟩⟩ ∧
      (Lexer.ofText motley).token 3 = ⟨.identifier, "x", ⟨3, 1, 1⟩⟩ ∧
      (Lexer.ofText motley).token 9 = .endOfFile ⟨3, 6, 0⟩ ∧
      ∃ stretches, Tiles [] motley.toList stretches ∧ stretches.length = 4 := by
  have short : Utf8.size motley.toList < 2 ^ 32 := by decide +kernel
  obtain ⟨tokens, -, -, -, -, stretches, tiles, covers, -⟩ := pieces_tile motley short
  rw [tokens, tokens, tokens]
  refine ⟨short, by decide +kernel, by decide +kernel, by decide +kernel, stretches, tiles, ?_⟩
  rw [← covers.length_eq]
  decide +kernel

end Scan

end Stackwright

import Stackwright.Proofs.Positions
import Stackwright.Proofs.Text.Lines

/-! Where the caret of a rendered fault stands. It is moved to the right by the bytes before the fault on its
line, behind a margin that is as wide as a line number of three digits. So it stands under the fault as long as
those bytes are characters and line numbers are that short, and no longer. -/

set_option autoImplicit false

namespace Stackwright

open Text

/-- What stands before the stretch on the line it begins on. -/
def Stretch.indent (stretch : Stretch) : List Char := stretch.before.rtakeWhile (· != '\n')

section Trivia

variable {chars rest : List Char} {first : Char}

/-- What is left when blanks and comments are skipped begins with neither. -/
theorem visible_of_splitTrivia {inside : Bool} (left : (splitTrivia inside chars).2 = first :: rest) :
    Visible first := by
  induction chars generalizing inside with
  | nil => exact absurd left (by simp [splitTrivia])
  | cons c chars ih =>
    rw [splitTrivia] at left
    split at left
    · exact ih left
    · split at left
      · exact ih left
      next skips =>
        obtain ⟨rfl, -⟩ := List.cons.inj left
        simpa [Visible] using skips

theorem Text.Visible.stays (visible : Visible first) : first ≠ '\n' ∧ first ≠ '\r' := by
  constructor
  · rintro rfl
    exact absurd visible (by decide)
  · rintro rfl
    exact absurd visible (by decide)

end Trivia

theorem Lexeme.Covers.span {lexeme : Lexeme} {stretch : Stretch} (covers : lexeme.Covers stretch) :
    lexeme.asToken.span = stretch.span := by
  cases lexeme with
  | token => exact covers.2
  | rejected => exact covers

namespace Scan

/-- Every piece lies in a stretch of the text, which begins with a character that can be seen. -/
theorem lies_scanFrom {budget : Nat} {before chars : List Char} :
    ∀ lexeme ∈ (scanFrom budget (Position.start.after before) chars).lexemes, ∃ stretch : Stretch,
      stretch.span = lexeme.asToken.span ∧ stretch.before ++ stretch.text <+: before ++ chars ∧
        ∃ first rest, stretch.text = first :: rest ∧ Visible first := by
  induction budget generalizing before chars with
  | zero => exact List.forall_mem_nil _
  | succ budget ih =>
    have whole := splitTrivia_append false chars
    have visible := fun first rest => @visible_of_splitTrivia chars rest first false
    rw [scanFrom]
    generalize splitTrivia false chars = parts at whole visible ⊢
    obtain ⟨gap, remaining⟩ := parts
    dsimp only at whole visible ⊢
    rw [← Position.after_append]
    subst whole
    cases remaining with
    | nil => exact List.forall_mem_nil _
    | cons first rest =>
      have cuts := Munch.cuts_piece first rest
      refine List.forall_mem_cons.mpr ⟨?_, ?_⟩
      · obtain ⟨taken, more, spelled⟩ := List.exists_cons_of_ne_nil cuts.taken
        have same : taken = first := by simpa [spelled] using congrArg List.head? cuts.whole
        refine ⟨⟨before ++ gap, (Munch.piece first rest).taken⟩, ?_, ?_, taken, more, spelled, ?_⟩
        · exact (covers_lexeme _ _).span.symm
        · exact ⟨(Munch.piece first rest).rest, by simp only [List.append_assoc, cuts.whole]⟩
        · exact same ▸ visible first rest rfl
      · intro lexeme member
        rw [← Position.after_append] at member
        obtain ⟨stretch, span, inside, starts⟩ := ih lexeme member
        refine ⟨stretch, span, ?_, starts⟩
        rwa [List.append_assoc, cuts.whole, List.append_assoc] at inside

/-- Every token of a text, and its end, lies in a stretch of it that does not begin where a line ends. -/
theorem lies_allTokens {source : String} {token : Token} (member : token ∈ (ofText source).allTokens) :
    ∃ stretch : Stretch, stretch.span = token.span ∧ ∃ after, stretch.before ++ after = source.toList ∧
      stretch.text <+: after ∧ ∀ c ∈ after.head?, c ≠ '\n' ∧ c ≠ '\r' := by
  rcases List.mem_append.mp member with piece | finish
  · obtain ⟨lexeme, among, rfl⟩ := List.mem_map.mp piece
    obtain ⟨stretch, span, ⟨more, inside⟩, first, rest, spelled, visible⟩ :=
      @lies_scanFrom _ [] source.toList lexeme among
    refine ⟨stretch, span, stretch.text ++ more, ?_, List.prefix_append .., ?_⟩
    · rw [← List.append_assoc, inside, List.nil_append]
    · rw [spelled]
      rintro c ⟨⟩
      exact visible.stays
  · obtain ⟨-, -, -, atEnd⟩ := pieces_lie source
    rw [List.mem_singleton.mp finish]
    exact ⟨⟨source.toList, []⟩, atEnd.symm, [], List.append_nil _, List.nil_prefix, by simp⟩

end Scan

namespace Text.Utf8

theorem length_le_size (chars : List Char) : chars.length ≤ size chars := by
  induction chars with
  | nil => exact Nat.le_refl 0
  | cons c rest ih =>
    have positive := c.utf8Size_pos
    rw [List.length_cons, size]
    omega

/-- The bytes of a text are as many as its characters exactly if each character is one byte. -/
theorem size_eq_length_iff (chars : List Char) : size chars = chars.length ↔ ∀ c ∈ chars, c.utf8Size = 1 := by
  induction chars with
  | nil => exact iff_of_true rfl (List.forall_mem_nil _)
  | cons c rest ih =>
    have positive := c.utf8Size_pos
    have atLeast := length_le_size rest
    rw [List.forall_mem_cons, ← ih, List.length_cons, size]
    omega

end Text.Utf8

namespace SyntaxFault

/-- What stands in front of the source line of a fault. -/
def margin (number : Nat) : String := padLeft 3 (toString number) ++ " | "

/-- The line under the source line, with the caret. -/
def pointer (span : Span) : String :=
  "    | " ++ repeated (span.column - 1) ' ' ++ "^" ++ repeated (span.length - 1) '~'

theorem excerpt_eq (span : Span) (line : String) :
    excerpt span line = "    |\n" ++ (margin span.line ++ line) ++ "\n" ++ pointer span ++ "\n" := by
  apply String.toList_injective
  simp [excerpt, margin, pointer]

theorem render_eq {fault : SyntaxFault} {source line : String} (counts : 0 < fault.span.line)
    (shown : (lines source)[fault.span.line - 1]? = some line) :
    fault.render source =
      "error at " ++ fault.span.text ++ ": " ++ fault.message ++ "\n" ++ excerpt fault.span line := by
  obtain ⟨index, numbered⟩ := Nat.exists_eq_add_of_lt counts
  rw [Nat.zero_add] at numbered
  rw [numbered, Nat.add_sub_cancel] at shown
  rw [render]
  split
  next none => omega
  next other same =>
    obtain rfl : other = index := by omega
    rw [shown]

theorem length_margin (number : Nat) : (margin number).length = 6 + ((toString number).length - 3) := by
  have bar : " | ".length = 3 := rfl
  rw [margin, padLeft, repeated, String.length_append, String.length_append, String.length_ofList,
    List.length_replicate, bar]
  omega

/-- The place of the caret in the line under the source line. -/
def caret (span : Span) : Nat := (pointer span).toList.idxOf '^'

theorem caret_eq (span : Span) : caret span = 6 + (span.column - 1) := by
  have apart : (pointer span).toList = ("    | ".toList ++ List.replicate (span.column - 1) ' ') ++
      '^' :: List.replicate (span.length - 1) '~' := by simp [pointer, repeated]
  have plain : '^' ∉ "    | ".toList ++ List.replicate (span.column - 1) ' ' := by simp
  have front : "    | ".toList.length = 6 := rfl
  rw [caret, apart, List.idxOf_append_of_notMem plain, List.idxOf_cons_self, List.length_append, front,
    List.length_replicate, Nat.add_zero]

/-- The place of a stretch in the source line as it is shown. -/
def place (stretch : Stretch) : Nat := (margin stretch.span.line).length + stretch.indent.length

/-- A line number has at most three digits if it is below a thousand. -/
theorem length_toString_le (number : Nat) : (toString number).length ≤ 3 ↔ number < 1000 := by
  rw [Nat.toString_eq_repr, ← String.length_toList, Nat.toList_repr]
  exact Nat.length_toDigits_le_iff (by decide) (by decide)

theorem caret_eq_place_iff (stretch : Stretch) : caret stretch.span = place stretch ↔
    Utf8.size stretch.indent = stretch.indent.length + ((toString stretch.span.line).length - 3) := by
  have column : stretch.span.column = 1 + Utf8.size stretch.indent := rfl
  rw [caret_eq, place, length_margin, column]
  omega

/-- For a line number of at most three digits only characters of several bytes can move the caret away. -/
theorem caret_eq_place_iff_of_lt {stretch : Stretch} (few : stretch.span.line < 1000) :
    caret stretch.span = place stretch ↔ ∀ c ∈ stretch.indent, c.utf8Size = 1 := by
  have digits := (length_toString_le _).mpr few
  rw [caret_eq_place_iff, ← Utf8.size_eq_length_iff]
  omega

/-- For a longer line number the caret falls behind unless such characters make up for it. -/
theorem caret_lt_place_of_le {stretch : Stretch} (many : 1000 ≤ stretch.span.line)
    (plain : ∀ c ∈ stretch.indent, c.utf8Size = 1) : caret stretch.span < place stretch := by
  have digits := (length_toString_le stretch.span.line).not.mpr (Nat.not_lt.mpr many)
  have sizes := (Utf8.size_eq_length_iff _).mpr plain
  have column : stretch.span.column = 1 + Utf8.size stretch.indent := rfl
  rw [caret_eq, place, length_margin, column]
  omega

theorem newline_notMem_pointer (span : Span) : '\n' ∉ (pointer span).toList := by
  simp [pointer, repeated]

theorem newline_notMem_margin (number : Nat) : '\n' ∉ (margin number).toList := by
  have digits : '\n' ∉ (toString number).toList := fun member =>
    absurd (isDigit_of_mem_toString member) (by decide)
  simpa [margin, padLeft, repeated] using digits

/-- The line that a place of the source is on has the text before the place on that line as its beginning, and
goes on as the source does. -/
theorem lines_split {source line : String} {before after : List Char} (whole : before ++ after = source.toList)
    (visible : ∀ c ∈ after.head?, c ≠ '\n' ∧ c ≠ '\r') (shown : (lines source)[before.count '\n']? = some line) :
    '\n' ∉ line.toList ∧
      ∃ rest, line.toList = before.rtakeWhile (· != '\n') ++ rest ∧ rest.head? = after.head? := by
  rw [lines, List.getElem?_map, ← whole] at shown
  obtain ⟨chars, found, rfl⟩ := Option.map_eq_some_iff.mp shown
  rw [String.toList_ofList]
  exact ⟨newline_notMem_of_mem_splitLines (List.mem_of_getElem? found), exists_rest_of_getElem? visible found⟩

/-- The caret of a fault stands under the first character of the fault exactly if the bytes before it on its
line are as many as the characters and the digits of the line number beyond the third. -/
theorem caret_exact (source : String) {fault : SyntaxFault} (member : fault ∈ (Program.read source).2)
    {line : String} (shown : (lines source)[fault.span.line - 1]? = some line) :
    ∃ stretch : Stretch, stretch.span = fault.span ∧ stretch.before ++ stretch.text <+: source.toList ∧
      fault.render source = "error at " ++ fault.span.text ++ ": " ++ fault.message ++ "\n" ++
        ("    |\n" ++ (margin fault.span.line ++ line) ++ "\n" ++ pointer fault.span ++ "\n") ∧
      '\n' ∉ (margin fault.span.line ++ line).toList ∧ '\n' ∉ (pointer fault.span).toList ∧
      (margin fault.span.line ++ line).toList[place stretch]? = source.toList[stretch.before.length]? ∧
      (caret fault.span = place stretch ↔
        Utf8.size stretch.indent = stretch.indent.length + ((toString fault.span.line).length - 3)) ∧
      (fault.span.line < 1000 → (caret fault.span = place stretch ↔ ∀ c ∈ stretch.indent, c.utf8Size = 1)) ∧
      (1000 ≤ fault.span.line → (∀ c ∈ stretch.indent, c.utf8Size = 1) → caret fault.span < place stretch) := by
  obtain ⟨token, among, span⟩ := Program.exists_token_of_fault member
  obtain ⟨stretch, same, after, whole, ⟨more, inside⟩, visible⟩ := Scan.lies_allTokens among
  rw [← span] at same
  have number : fault.span.line = 1 + stretch.before.count '\n' := congrArg Span.line same.symm
  obtain ⟨plain, rest, split, head⟩ := lines_split whole visible (by
    rwa [number, Nat.add_sub_cancel_left] at shown)
  refine ⟨stretch, same, ?_, ?_, ?_, newline_notMem_pointer _, ?_, ?_, ?_, ?_⟩
  · rw [← whole, ← inside, ← List.append_assoc]
    exact List.prefix_append ..
  · rw [render_eq (by omega) shown, excerpt_eq]
  · rw [String.toList_append, List.mem_append]
    exact not_or.mpr ⟨newline_notMem_margin _, plain⟩
  · have behind (front rest : List Char) : (front ++ rest)[front.length]? = rest.head? := by
      rw [List.getElem?_append_right (Nat.le_refl _), Nat.sub_self, List.head?_eq_getElem?]
    rw [String.toList_append, place, same, ← String.length_toList, split, ← List.append_assoc,
      Stretch.indent, ← List.length_append, ← whole, behind, behind, head]
  · rw [← same]
    exact caret_eq_place_iff stretch
  · rw [← same]
    exact caret_eq_place_iff_of_lt
  · rw [← same]
    exact caret_lt_place_of_le

/-- A value is missing on the second line. -/
def valueless : String := "main \x7b\n  imm x := ;\n\x7d"

theorem caret_exact_valueless :
    expectedExpression ⟨2, 12, 1⟩ "';'" ∈ (Program.read valueless).2 ∧
      (lines valueless)[1]? = some "  imm x := ;" ∧
      ∃ stretch : Stretch, stretch.span = ⟨2, 12, 1⟩ ∧
        (caret ⟨2, 12, 1⟩ = place stretch ↔ ∀ c ∈ stretch.indent, c.utf8Size = 1) := by
  have member : expectedExpression ⟨2, 12, 1⟩ "';'" ∈ (Program.read valueless).2 := by decide +kernel
  have shown : (lines valueless)[1]? = some "  imm x := ;" := by decide +kernel
  obtain ⟨stretch, span, -, -, -, -, -, -, few, -⟩ := caret_exact valueless member shown
  exact ⟨member, shown, stretch, span, few (by decide)⟩

/-- A sign that begins no token stands behind a comment with a letter of two bytes: the caret is shown one
character to the right of it. -/
theorem caret_astray : ∃ fault, (Program.read "main \x7b % é % @ \x7d").2 = [fault] ∧
    fault.render "main \x7b % é % @ \x7d" = "error at 1:15: unexpected character '@' at 1:15\n" ++
      "    |\n" ++ "  1 | main \x7b % é % @ \x7d\n" ++ "    |               ^\n" ∧
    "  1 | main \x7b % é % @ \x7d".toList.idxOf '@' = 19 ∧ "    |               ^".toList.idxOf '^' = 20 :=
  ⟨⟨.invalidToken, ⟨1, 15, 1⟩, "unexpected character '@' at 1:15"⟩, by decide +kernel⟩

end SyntaxFault

end Stackwright

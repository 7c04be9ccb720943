import Stackwright.Proofs.Token.Spacing

/-! Writing the tokens of a text anew. Each token is cut as it is wherever nothing or a space follows it, so
the tokens of any text, written with single spaces between them, are cut again from what was written. -/

set_option autoImplicit false

namespace Stackwright

open Text

section Classes

variable {span : Span} {c : Char}

theorem splitSign_of_isSign {sign digits rest : List Char} (isSign : sign ∈ [[], ['+'], ['-']]) (nonempty : digits ≠ [])
    (areDigits : ∀ c ∈ digits, c.isDigit = true) :
    Munch.splitSign (sign ++ (digits ++ rest)) = (sign, digits ++ rest) := by
  obtain ⟨first, digits, rfl⟩ := List.exists_cons_of_ne_nil nonempty
  have isDigit := areDigits first List.mem_cons_self
  simp only [List.mem_cons, List.not_mem_nil, or_false] at isSign
  rcases isSign with rfl | rfl | rfl
  · -- a digit is no sign
    rw [List.nil_append, List.cons_append, Munch.splitSign]
    · rintro _ ⟨rfl, -⟩
      exact absurd isDigit (by decide)
    · rintro _ ⟨rfl, -⟩
      exact absurd isDigit (by decide)
  · rfl
  · rfl

/-- An exponent is taken whole. -/
theorem exponent_append {mantissa tail rest : List Char} (isExponent : IsExponent tail) (ends : Ends rest) :
    Munch.exponent mantissa (tail ++ rest) = Munch.float (mantissa ++ tail) rest := by
  cases isExponent with
  | none =>
    rw [List.nil_append, List.append_nil, Munch.exponent]
    rintro _ rfl
    cases ends 'E' rfl
  | @some sign digits isSign nonempty areDigits =>
    obtain ⟨taken, dropped⟩ := span_of_ends areDigits ends (by decide)
    have apart : 'E' :: sign ++ digits ++ rest = 'E' :: (sign ++ (digits ++ rest)) := by simp
    rw [apart, Munch.exponent]
    simp only [splitSign_of_isSign isSign nonempty areDigits, taken, dropped]
    rw [if_neg (by simpa using nonempty), List.append_assoc]

theorem stands_float {whole fraction tail : List Char} (someWhole : whole ≠ [])
    (areWhole : ∀ c ∈ whole, c.isDigit = true) (someFraction : fraction ≠ [])
    (areFraction : ∀ c ∈ fraction, c.isDigit = true) (isExponent : IsExponent tail)
    (finite : (Binary64.ofDecimal? (.ofLiteral (whole ++ '.' :: fraction ++ tail))).isSome = true) :
    Token.Stands ⟨.floatLiteral, String.ofList (whole ++ '.' :: fraction ++ tail), span⟩ := by
  obtain ⟨first, digits, rfl⟩ := List.exists_cons_of_ne_nil someWhole
  obtain ⟨digit, more, rfl⟩ := List.exists_cons_of_ne_nil someFraction
  have isDigit := areWhole first List.mem_cons_self
  have bounds := bounds_of_isDigit isDigit
  refine ⟨first, digits ++ '.' :: (digit :: more) ++ tail, String.toList_ofList,
    visible_of_ascii (by omega) (by omega), fun rest ends => ?_⟩
  have apart : first :: (digits ++ '.' :: (digit :: more) ++ tail ++ rest) =
      first :: digits ++ '.' :: digit :: (more ++ (tail ++ rest)) := by simp
  have outside : ∀ c ∈ (tail ++ rest).head?, c.isDigit = false := by
    cases isExponent with
    | none => exact fun c member => ends c member ▸ by decide
    | some => simp
  -- the point ends the digits before it, and the exponent or what follows the token ends those behind it
  have point : ∀ c ∈ ('.' :: digit :: (more ++ (tail ++ rest))).head?, c.isDigit = false := by simp
  obtain ⟨wholeTaken, wholeDropped⟩ := span_of_head areWhole point
  obtain ⟨taken, dropped⟩ := span_of_head areFraction outside
  rw [List.cons_append] at taken dropped
  rw [Munch.piece, if_pos isDigit, apart, Munch.number, wholeTaken, wholeDropped]
  simp only [areFraction digit List.mem_cons_self, if_true, taken, dropped]
  rw [exponent_append isExponent ends, Munch.float, if_pos finite]
  rfl

theorem stands_guarded (guards : c.isDigit = true ∨ c = '#') :
    Token.Stands ⟨.charLiteral, String.ofList ['#', '#', c], span⟩ := by
  refine ⟨'#', ['#', c], String.toList_ofList, by decide, fun rest _ => ?_⟩
  have literal : Munch.piece '#' (['#', c] ++ rest) = Munch.character ('#' :: c :: rest) := rfl
  rw [literal, Munch.character]
  exact if_pos (by simpa using guards)

theorem stands_octal {digits : List Char} (nonempty : digits ≠ []) (areOctal : ∀ c ∈ digits, Munch.isOctal c = true)
    (printable : Munch.isPrintable (digitsValue 8 digits) = true) :
    Token.Stands ⟨.charLiteral, String.ofList ('#' :: digits), span⟩ := by
  refine ⟨'#', digits, String.toList_ofList, by decide, fun rest ends => ?_⟩
  obtain ⟨taken, dropped⟩ := span_of_ends areOctal ends (by decide)
  obtain ⟨first, more, rfl⟩ := List.exists_cons_of_ne_nil nonempty
  have isOctal := areOctal first List.mem_cons_self
  have literal : Munch.piece '#' (first :: more ++ rest) = Munch.character (first :: (more ++ rest)) := rfl
  rw [List.cons_append] at taken dropped
  rw [literal, Munch.character]
  · simp only [isOctal, if_true, taken, dropped, printable]
  · rintro rfl
    exact absurd isOctal (by decide)

theorem stands_plain (notHash : c ≠ '#') (other : Munch.isOctal c = false) :
    Token.Stands ⟨.charLiteral, String.ofList ['#', c], span⟩ := by
  refine ⟨'#', [c], String.toList_ofList, by decide, fun rest _ => ?_⟩
  have literal : Munch.piece '#' ([c] ++ rest) = Munch.character (c :: rest) := rfl
  rw [literal, Munch.character]
  · exact if_neg (by simp [other])
  · exact notHash

end Classes

/-- Every token in the lexicon is cut as it is. -/
theorem Lexicon.stands {kind : Kind} {chars : List Char} (listed : Lexicon kind chars) (span : Span) :
    Token.Stands ⟨kind, String.ofList chars, span⟩ := by
  cases listed with
  | integer nonempty areDigits small => exact stands_digits nonempty areDigits small
  | float someWhole areWhole someFraction areFraction isExponent finite =>
    exact stands_float someWhole areWhole someFraction areFraction isExponent finite
  | guarded guards => exact stands_guarded guards
  | octal nonempty areOctal printable => exact stands_octal nonempty areOctal printable
  | plain notHash other => exact stands_plain notHash other
  | @string body continues =>
    have stands : Token.Stands ⟨.stringLiteral, "\"" ++ String.ofList body ++ "\"", span⟩ :=
      stands_string (by simpa using continues)
    have quoted : "\"" ++ String.ofList body ++ "\"" = String.ofList ('"' :: body ++ ['"']) :=
      String.toList_inj.mp (by simp)
    rwa [quoted] at stands
  | @word first rest starts continues =>
    refine stands_word ?_
    rw [isWord, String.toList_ofList]
    exact Bool.and_eq_true_iff.mpr ⟨starts, List.all_eq_true.mpr continues⟩
  | mark sign =>
    rw [String.ofList_toList]
    exact stands_mark sign

namespace Scan

theorem tokens_stand (text : String) : ∀ token ∈ (ofText text).tokens, token.Stands :=
  forall_tokens (fun first rest kind span accepted => (Munch.lexical_piece first rest kind accepted).stands span) _ _ _

/-- The tokens of a text, written with single spaces between them. -/
def respaced (text : String) : String := Token.spaced (ofText text).tokens

/-- The respaced text has no lexical fault, and its tokens are those of the text. -/
theorem ofText_respaced (text : String) :
    (ofText (respaced text)).faults = [] ∧ Respelled (ofText text).tokens (ofText (respaced text)).tokens :=
  ofText_spaced (tokens_stand text)

end Scan

end Stackwright

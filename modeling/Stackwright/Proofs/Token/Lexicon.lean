import Stackwright.Tree.Literal

/-! How tokens are spelled, class by class, and what the literals among them stand for. Every piece of
text that is accepted is spelled in one of these ways, and every literal that is spelled so has a value. -/

set_option autoImplicit false

namespace Stackwright

/-- The end of a float literal, which may be empty. -/
inductive IsExponent : List Char → Prop
  | none : IsExponent []
  | some {sign digits : List Char} : sign ∈ [[], ['+'], ['-']] → digits ≠ [] →
    (∀ c ∈ digits, c.isDigit = true) → IsExponent ('E' :: sign ++ digits)

/-- The texts of the tokens of a kind. -/
inductive Lexicon : Kind → List Char → Prop
  | integer {digits : List Char} : digits ≠ [] → (∀ c ∈ digits, c.isDigit = true) →
    digitsValue 10 digits < Munch.integerLimit → Lexicon .intLiteral digits
  | float {whole fraction exponent : List Char} : whole ≠ [] → (∀ c ∈ whole, c.isDigit = true) →
    fraction ≠ [] → (∀ c ∈ fraction, c.isDigit = true) → IsExponent exponent →
    (Binary64.ofDecimal? (.ofLiteral (whole ++ '.' :: fraction ++ exponent))).isSome = true →
    Lexicon .floatLiteral (whole ++ '.' :: fraction ++ exponent)
  /-- A digit or `#` behind a second `#`. -/
  | guarded {c : Char} : c.isDigit = true ∨ c = '#' → Lexicon .charLiteral ['#', '#', c]
  | octal {digits : List Char} : digits ≠ [] → (∀ c ∈ digits, Munch.isOctal c = true) →
    Munch.isPrintable (digitsValue 8 digits) = true → Lexicon .charLiteral ('#' :: digits)
  | plain {c : Char} : c ≠ '#' → Munch.isOctal c = false → Lexicon .charLiteral ['#', c]
  | string {body : List Char} : (∀ c ∈ body, Munch.continuesString c = true) →
    Lexicon .stringLiteral ('"' :: body ++ ['"'])
  | word {first : Char} {rest : List Char} : Munch.startsName first = true →
    (∀ c ∈ rest, Munch.continuesName c = true) →
    Lexicon (((Keyword.ofText? (String.ofList (first :: rest))).map Kind.keyword).getD .identifier) (first :: rest)
  | mark (sign : Mark) : Lexicon (.mark sign) sign.text.toList

/-- No text stands for the end of the file. -/
theorem Lexicon.kind_ne_endOfFile {kind : Kind} {chars : List Char} (listed : Lexicon kind chars) :
    kind ≠ .endOfFile := by
  cases listed with
  | @word first rest _ _ => cases Keyword.ofText? (String.ofList (first :: rest)) <;> simp
  | _ => simp

namespace Munch

/-- What is accepted is in the lexicon. -/
def Lexical (munch : Munch) : Prop := ∀ kind, munch.outcome = .ok kind → Lexicon kind munch.taken

theorem lexical_reject (cause : LexicalFault.Cause) (taken rest : List Char) : (reject cause taken rest).Lexical := by
  intro kind accepted
  simp [reject] at accepted

theorem lexical_accept {kind : Kind} {taken : List Char} (listed : Lexicon kind taken) (rest : List Char) :
    (accept kind taken rest).Lexical := by
  intro other accepted
  obtain rfl : kind = other := by simpa [accept] using accepted
  exact listed

theorem lexical_integer {digits : List Char} (nonempty : digits ≠ []) (areDigits : ∀ c ∈ digits, c.isDigit = true)
    (rest : List Char) : (integer digits rest).Lexical := by
  unfold integer
  split
  next small => exact lexical_accept (.integer nonempty areDigits small) rest
  · exact lexical_reject _ _ _

section Float

variable {whole fraction : List Char} (someWhole : whole ≠ []) (areWhole : ∀ c ∈ whole, c.isDigit = true)
  (someFraction : fraction ≠ []) (areFraction : ∀ c ∈ fraction, c.isDigit = true)

include someWhole areWhole someFraction areFraction

theorem lexical_float {exponent : List Char} (isExponent : IsExponent exponent) (rest : List Char) :
    (float (whole ++ '.' :: fraction ++ exponent) rest).Lexical := by
  unfold float
  split
  next finite => exact lexical_accept (.float someWhole areWhole someFraction areFraction isExponent finite) rest
  · exact lexical_reject _ _ _

theorem lexical_exponent (rest : List Char) : (exponent (whole ++ '.' :: fraction) rest).Lexical := by
  unfold exponent
  split
  next tail =>
    have isSign : (splitSign tail).1 ∈ [[], ['+'], ['-']] := by
      unfold splitSign
      split <;> simp
    dsimp only
    split
    · exact lexical_reject _ _ _
    next nonempty =>
      rw [List.append_assoc (whole ++ '.' :: fraction)]
      exact lexical_float someWhole areWhole someFraction areFraction
        (.some isSign (by simpa using nonempty) (List.all_eq_true.mp List.all_takeWhile)) _
  · have lexical := lexical_float someWhole areWhole someFraction areFraction .none rest
    rwa [List.append_nil] at lexical

end Float

theorem lexical_number {first : Char} (isDigit : first.isDigit = true) (rest : List Char) :
    (number (first :: rest)).Lexical := by
  have someWhole : (first :: rest).takeWhile Char.isDigit ≠ [] := by simp [isDigit]
  have areWhole : ∀ c ∈ (first :: rest).takeWhile Char.isDigit, c.isDigit = true :=
    List.all_eq_true.mp List.all_takeWhile
  unfold number
  dsimp only
  split
  next digit tail _ =>
    split
    next isFraction =>
      have someFraction : (digit :: tail).takeWhile Char.isDigit ≠ [] := by simp [isFraction]
      exact lexical_exponent someWhole areWhole someFraction (List.all_eq_true.mp List.all_takeWhile) _
    · exact lexical_integer someWhole areWhole _
  · exact lexical_integer someWhole areWhole _

theorem continuesName_of_startsName {c : Char} (starts : startsName c = true) : continuesName c = true := by
  simp only [startsName, continuesName, Char.isAlphanum, Bool.or_eq_true] at starts ⊢
  exact starts.imp_left .inl

theorem lexical_word {first : Char} (starts : startsName first = true) (rest : List Char) :
    (word (first :: rest)).Lexical := by
  have front : (first :: rest).takeWhile continuesName = first :: rest.takeWhile continuesName :=
    List.takeWhile_cons_of_pos (continuesName_of_startsName starts)
  have listed := Lexicon.word starts (List.all_eq_true.mp (List.all_takeWhile (l := rest)))
  unfold word
  dsimp only
  rw [front]
  split
  next keyword found =>
    rw [found] at listed
    exact lexical_accept listed _
  next unreserved =>
    rw [unreserved] at listed
    exact lexical_accept listed _

theorem lexical_character (rest : List Char) : (character rest).Lexical := by
  unfold character
  split
  · exact lexical_reject _ _ _
  · split
    · exact lexical_reject _ _ _
    · split
      next guards => exact lexical_accept (.guarded (by simpa using guards)) _
      · exact lexical_reject _ _ _
  next c tail notHash =>
    split
    next octal =>
      dsimp only
      split
      next printable =>
        exact lexical_accept (.octal (by simp [octal]) (List.all_eq_true.mp List.all_takeWhile) printable) _
      · exact lexical_reject _ _ _
    next other => exact lexical_accept (.plain notHash (by simpa using other)) _

theorem lexical_string (rest : List Char) : (string rest).Lexical := by
  unfold string
  dsimp only
  split
  · exact lexical_accept (.string (List.all_eq_true.mp List.all_takeWhile)) _
  · exact lexical_reject _ _ _

theorem lexical_mark (first : Char) (rest : List Char) : (mark first rest).Lexical := by
  unfold mark
  split
  all_goals first
    | exact lexical_accept (.mark _) _
    | exact lexical_reject _ _ _

theorem lexical_piece (first : Char) (rest : List Char) : (piece first rest).Lexical := by
  unfold piece
  split
  next isDigit => exact lexical_number isDigit rest
  · split
    next starts => exact lexical_word starts rest
    · split
      · exact lexical_character rest
      · split
        · exact lexical_string rest
        · exact lexical_mark first rest

end Munch

theorem Keyword.text_of_ofText? {text : String} {word : Keyword} (found : ofText? text = some word) :
    word.text = text := by
  simpa using List.find?_some found

theorem digitsValue_eq_ofDigitChars (base : Nat) (digits : List Char) :
    digitsValue base digits = Nat.ofDigitChars base digits 0 := by
  simp only [digitsValue, Nat.ofDigitChars, Nat.mul_comm]

namespace Literal

/-- What a literal stands for: a number in decimal notation, the text between quotes, a character by its octal
code, or a character itself, which has a second `#` before it if it could be mistaken for a code or for that
`#`. Of a float literal it is the nearest double. -/
inductive Denotes : Kind → List Char → Literal → Prop
  | yes : Denotes (.keyword .trueWord) "true".toList (.bool true)
  | no : Denotes (.keyword .falseWord) "false".toList (.bool false)
  | integer {digits : List Char} : digits ≠ [] → (∀ c ∈ digits, c.isDigit = true) →
    Nat.ofDigitChars 10 digits 0 < 0x80000000 → Denotes .intLiteral digits (.int (Nat.ofDigitChars 10 digits 0))
  | float {chars : List Char} {bits : UInt64} : Binary64.ofDecimal? (.ofLiteral chars) = some bits →
    Denotes .floatLiteral chars (.float bits)
  | guarded {c : Char} : c.isDigit = true ∨ c = '#' → Denotes .charLiteral ['#', '#', c] (.char c)
  | octal {digits : List Char} : digits ≠ [] → (∀ c ∈ digits, '0' ≤ c ∧ c ≤ '7') →
    32 ≤ Nat.ofDigitChars 8 digits 0 → Nat.ofDigitChars 8 digits 0 ≤ 126 →
    Denotes .charLiteral ('#' :: digits) (.char (Char.ofNat (Nat.ofDigitChars 8 digits 0)))
  | plain {c : Char} : c ≠ '#' → ¬ ('0' ≤ c ∧ c ≤ '7') → Denotes .charLiteral ['#', c] (.char c)
  | string {body : List Char} : (∀ c ∈ body, c ≠ '"' ∧ c ≠ '\n') →
    Denotes .stringLiteral ('"' :: body ++ ['"']) (.string (String.ofList body))

theorem isOctal_iff {c : Char} : Munch.isOctal c = true ↔ '0' ≤ c ∧ c ≤ '7' := by
  simp [Munch.isOctal]

/-- What stands behind `#` is a code if it begins like one. -/
theorem readChar?_cons {c : Char} {rest : List Char} (notHash : c ≠ '#') :
    readChar? ('#' :: c :: rest) =
      if Munch.isOctal c then
        if (c :: rest).all Munch.isOctal && (digitsValue 8 (c :: rest)).isValidChar then
          some (Char.ofNat (digitsValue 8 (c :: rest)))
        else none
      else some c := by
  rw [readChar?]
  intro escaped same
  exact notHash (List.cons.inj same).1

theorem readChar?_octal {digits : List Char} (nonempty : digits ≠ []) (octal : ∀ c ∈ digits, Munch.isOctal c = true)
    (valid : (digitsValue 8 digits).isValidChar) :
    readChar? ('#' :: digits) = some (Char.ofNat (digitsValue 8 digits)) := by
  obtain ⟨first, rest, rfl⟩ := List.exists_cons_of_ne_nil nonempty
  have front : Munch.isOctal first = true := octal first List.mem_cons_self
  have all : (first :: rest).all Munch.isOctal = true := List.all_eq_true.mpr octal
  have notHash : first ≠ '#' := by
    rintro rfl
    exact absurd front (by decide)
  rw [readChar?_cons notHash, if_pos front, all, decide_eq_true valid, Bool.and_self, if_pos rfl]

theorem readChar?_plain {c : Char} (notHash : c ≠ '#') (plain : ¬ Munch.isOctal c = true) :
    readChar? ['#', c] = some c := by
  rw [readChar?_cons notHash, if_neg plain]

/-- A literal in the lexicon stands for something. -/
theorem exists_denotes {kind : Kind} {chars : List Char} (listed : Lexicon kind chars)
    (isLiteral : kind.isLiteral = true) : ∃ value, Denotes kind chars value := by
  cases listed with
  | integer nonempty areDigits small =>
    rw [digitsValue_eq_ofDigitChars] at small
    exact ⟨_, .integer nonempty areDigits small⟩
  | float _ _ _ _ _ finite =>
    obtain ⟨bits, known⟩ := Option.isSome_iff_exists.mp finite
    exact ⟨_, .float known⟩
  | guarded guards => exact ⟨_, .guarded guards⟩
  | octal nonempty areOctal printable =>
    simp only [Munch.isPrintable, digitsValue_eq_ofDigitChars, Bool.and_eq_true, decide_eq_true_eq] at printable
    exact ⟨_, .octal nonempty (fun c member => isOctal_iff.mp (areOctal c member)) printable.1 printable.2⟩
  | plain notHash other => exact ⟨_, .plain notHash fun octal => by simp [isOctal_iff.mpr octal] at other⟩
  | string continues => exact ⟨_, .string fun c member => by simpa [Munch.continuesString] using continues c member⟩
  | @word first rest _ _ =>
    cases found : Keyword.ofText? (String.ofList (first :: rest)) with
    | none =>
      rw [found] at isLiteral
      cases isLiteral
    | some word =>
      have spelled := congrArg String.toList (Keyword.text_of_ofText? found)
      rw [String.toList_ofList] at spelled
      rw [found] at isLiteral
      rw [← spelled]
      cases word <;> first | exact ⟨_, .yes⟩ | exact ⟨_, .no⟩ | cases isLiteral
  | mark sign => simp [Kind.isLiteral] at isLiteral

/-- The value that is read is what the literal stands for. -/
theorem Denotes.ofToken {kind : Kind} {chars : List Char} {value : Literal} (denotes : Denotes kind chars value)
    (span : Span) : Literal.ofToken ⟨kind, String.ofList chars, span⟩ = .ok value := by
  cases denotes with
  | yes | no => rfl
  | integer nonempty areDigits small =>
    have read : readInt? chars = some (Nat.ofDigitChars 10 chars 0) := by
      have all : chars.all Char.isDigit = true := List.all_eq_true.mpr areDigits
      have within : Nat.ofDigitChars 10 chars 0 < Munch.integerLimit := small
      simp [readInt?, digitsValue_eq_ofDigitChars, nonempty, all, within]
    simp [Literal.ofToken, read]
  | float known => simp [Literal.ofToken, known]
  | guarded => simp [Literal.ofToken, readChar?]
  | @octal digits nonempty areOctal low high =>
    have valid : (digitsValue 8 digits).isValidChar := by
      rw [digitsValue_eq_ofDigitChars]
      exact .inl (by omega)
    have read := readChar?_octal nonempty (fun c member => isOctal_iff.mpr (areOctal c member)) valid
    rw [digitsValue_eq_ofDigitChars] at read
    simp [Literal.ofToken, read]
  | plain notHash other =>
    simp [Literal.ofToken, readChar?_plain notHash fun octal => other (isOctal_iff.mp octal)]
  | string => simp [Literal.ofToken, readString?]

end Literal

end Stackwright

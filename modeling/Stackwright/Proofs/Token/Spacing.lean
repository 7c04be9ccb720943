import Stackwright.Proofs.Tree.Spelling

/-! Texts that are written token by token with spaces in between. Nothing that could go on with a token
stands right after it there, so cutting such a text gives back the tokens it was written from. -/

set_option autoImplicit false

namespace Stackwright

namespace Text

/-- The text is at its end, or goes on with a space. -/
def Ends (chars : List Char) : Prop := ∀ c ∈ chars.head?, c = ' '

/-- The character is no blank and begins no comment. -/
def Visible (c : Char) : Prop := isBlank c = false ∧ c ≠ '%'

instance (c : Char) : Decidable (Visible c) := inferInstanceAs (Decidable (_ ∧ _))

theorem visible_of_ascii {c : Char} (low : 37 < c.toNat) (high : c.toNat < 128) : Visible c := by
  constructor
  · simp only [isBlank, blankRanges, List.any_cons, List.any_nil, Bool.or_false, Bool.or_eq_false_iff,
      Bool.and_eq_false_iff, decide_eq_false_iff_not]
    omega
  · rintro rfl
    exact absurd low (by decide)

/-- Characters of a class are all taken up to the end or the first that is not in the class. -/
theorem span_of_head {inside : Char → Bool} {chars rest : List Char} (all : ∀ c ∈ chars, inside c = true)
    (outside : ∀ c ∈ rest.head?, inside c = false) :
    (chars ++ rest).takeWhile inside = chars ∧ (chars ++ rest).dropWhile inside = rest := by
  rw [List.takeWhile_append_of_pos all, List.dropWhile_append_of_pos all]
  cases rest with
  | nil => simp
  | cons c rest => simp [outside c rfl]

theorem span_of_ends {inside : Char → Bool} {chars rest : List Char} (all : ∀ c ∈ chars, inside c = true)
    (ends : Ends rest) (outside : inside ' ' = false) :
    (chars ++ rest).takeWhile inside = chars ∧ (chars ++ rest).dropWhile inside = rest :=
  span_of_head all fun c member => ends c member ▸ outside

end Text

open Text

/-- Wherever the token is written with nothing or a space after it, it is cut from the text as it is. -/
def Token.Stands (token : Token) : Prop :=
  ∃ first chars, token.lexeme.toList = first :: chars ∧ Visible first ∧
    ∀ rest, Ends rest → Munch.piece first (chars ++ rest) = .accept token.kind (first :: chars) rest

/-- Letters, digits and underscores, without a digit in front. -/
def isWord (text : String) : Bool :=
  match text.toList with
  | [] => false
  | first :: rest => (first.isAlpha || first == '_') && rest.all fun c => c.isAlphanum || c == '_'

section Classes

variable {span : Span} {c : Char} {number : Nat}

theorem bounds_of_isDigit (digit : c.isDigit = true) : 48 ≤ c.toNat ∧ c.toNat ≤ 57 := by
  simp only [Char.isDigit, Bool.and_eq_true, decide_eq_true_eq, ge_iff_le, UInt32.le_iff_toNat_le] at digit
  exact digit

theorem bounds_of_startsName (starts : Munch.startsName c = true) : 57 < c.toNat ∧ c.toNat < 128 := by
  simp only [Munch.startsName, Char.isAlpha, Char.isUpper, Char.isLower, Bool.or_eq_true, Bool.and_eq_true,
    decide_eq_true_eq, ge_iff_le, UInt32.le_iff_toNat_le, beq_iff_eq] at starts
  rcases starts with (⟨low, high⟩ | ⟨low, high⟩) | rfl
  · exact ⟨Nat.lt_of_lt_of_le (by decide) low, Nat.lt_of_le_of_lt high (by decide)⟩
  · exact ⟨Nat.lt_of_lt_of_le (by decide) low, Nat.lt_of_le_of_lt high (by decide)⟩
  · decide

theorem stands_word {text : String} (word : isWord text = true) :
    Token.Stands ⟨((Keyword.ofText? text).map Kind.keyword).getD .identifier, text, span⟩ := by
  unfold isWord at word
  split at word
  next => simp at word
  next first chars spelled =>
    obtain ⟨starts, continues⟩ := Bool.and_eq_true_iff.mp word
    have starts : Munch.startsName first = true := starts
    obtain ⟨low, high⟩ := bounds_of_startsName starts
    refine ⟨first, chars, spelled, visible_of_ascii (by omega) high, fun rest ends => ?_⟩
    have notDigit : first.isDigit = false := by
      refine Bool.eq_false_iff.mpr fun digit => ?_
      have bounds := bounds_of_isDigit digit
      omega
    have whole : ∀ c ∈ first :: chars, Munch.continuesName c = true :=
      List.forall_mem_cons.mpr ⟨Munch.continuesName_of_startsName starts, List.all_eq_true.mp continues⟩
    obtain ⟨taken, dropped⟩ := span_of_ends whole ends (by decide)
    rw [Munch.piece, notDigit, if_neg (by simp), if_pos starts, Munch.word, ← List.cons_append, taken, dropped,
      ← spelled, String.ofList_toList]
    cases Keyword.ofText? text <;> rfl

theorem stands_keyword (word : Keyword) : Token.Stands ⟨.keyword word, word.text, span⟩ := by
  have found : Keyword.ofText? word.text = some word := by cases word <;> decide
  have isWord : isWord word.text = true := by cases word <;> decide
  have stands : Token.Stands ⟨((Keyword.ofText? word.text).map Kind.keyword).getD .identifier, word.text, span⟩ :=
    stands_word isWord
  rwa [found] at stands

theorem stands_mark (mark : Mark) : Token.Stands ⟨.mark mark, mark.text, span⟩ := by
  cases mark with
  | plus => exact ⟨'+', [], by simp [Mark.text], by decide, fun _ _ => rfl⟩
  | minus => exact ⟨'-', [], by simp [Mark.text], by decide, fun _ _ => rfl⟩
  | star => exact ⟨'*', [], by simp [Mark.text], by decide, fun _ _ => rfl⟩
  | greater => exact ⟨'>', [], by simp [Mark.text], by decide, fun _ _ => rfl⟩
  | assign => exact ⟨':', ['='], by simp [Mark.text], by decide, fun _ _ => rfl⟩
  | comma => exact ⟨',', [], by simp [Mark.text], by decide, fun _ _ => rfl⟩
  | semicolon => exact ⟨';', [], by simp [Mark.text], by decide, fun _ _ => rfl⟩
  | leftParen => exact ⟨'(', [], by simp [Mark.text], by decide, fun _ _ => rfl⟩
  | rightParen => exact ⟨')', [], by simp [Mark.text], by decide, fun _ _ => rfl⟩
  | leftBrace => exact ⟨'\x7b', [], by simp [Mark.text], by decide, fun _ _ => rfl⟩
  | rightBrace => exact ⟨'\x7d', [], by simp [Mark.text], by decide, fun _ _ => rfl⟩
  | newline => exact ⟨'\\', ['n'], by simp [Mark.text], by decide, fun _ _ => rfl⟩
  | space => exact ⟨'\\', ['s'], by simp [Mark.text], by decide, fun _ _ => rfl⟩

theorem stands_string {text : String} (plain : ∀ c ∈ text.toList, Munch.continuesString c = true) :
    Token.Stands ⟨.stringLiteral, "\"" ++ text ++ "\"", span⟩ := by
  refine ⟨'"', text.toList ++ ['"'], by simp, by decide, fun rest _ => ?_⟩
  have taken : (text.toList ++ ['"'] ++ rest).takeWhile Munch.continuesString = text.toList := by
    rw [List.append_assoc, List.takeWhile_append_of_pos plain]
    simp [Munch.continuesString]
  have dropped : (text.toList ++ ['"'] ++ rest).dropWhile Munch.continuesString = '"' :: rest := by
    rw [List.append_assoc, List.dropWhile_append_of_pos plain]
    simp [Munch.continuesString]
  have quoted : Munch.piece '"' (text.toList ++ ['"'] ++ rest) = Munch.string (text.toList ++ ['"'] ++ rest) :=
    rfl
  rw [quoted, Munch.string, taken, dropped]
  rfl

theorem stands_digits {digits : List Char} (nonempty : digits ≠ []) (areDigits : ∀ c ∈ digits, c.isDigit = true)
    (small : digitsValue 10 digits < Munch.integerLimit) :
    Token.Stands ⟨.intLiteral, String.ofList digits, span⟩ := by
  obtain ⟨first, chars, rfl⟩ := List.exists_cons_of_ne_nil nonempty
  have isDigit := areDigits first List.mem_cons_self
  have bounds := bounds_of_isDigit isDigit
  refine ⟨first, chars, String.toList_ofList, visible_of_ascii (by omega) (by omega), fun rest ends => ?_⟩
  obtain ⟨taken, dropped⟩ := span_of_ends areDigits ends (by decide)
  rw [Munch.piece, if_pos isDigit, Munch.number, ← List.cons_append, taken, dropped]
  -- the end of the text and a space are no point, so the digits are a whole number
  have whole : Munch.integer (first :: chars) rest = .accept .intLiteral (first :: chars) rest := if_pos small
  cases rest with
  | nil => exact whole
  | cons c rest =>
    obtain rfl := ends c rfl
    exact whole

/-- The digits of a number have its value. -/
theorem digitsValue_toString (number : Nat) : digitsValue 10 (toString number).toList = number := by
  rw [Nat.toString_eq_repr, Nat.toList_repr, digitsValue_eq_ofDigitChars]
  exact Nat.ofDigitChars_toDigits (by decide) (by decide)

theorem isDigit_of_mem_toString (member : c ∈ (toString number).toList) : c.isDigit = true := by
  rw [Nat.toString_eq_repr, Nat.toList_repr] at member
  exact Nat.isDigit_of_mem_toDigits (by decide) (by decide) member

theorem toString_ne_nil (number : Nat) : (toString number).toList ≠ [] := by
  rw [Nat.toString_eq_repr, Nat.toList_repr]
  exact Nat.toDigits_ne_nil

theorem stands_integer (small : number < Munch.integerLimit) :
    Token.Stands ⟨.intLiteral, toString number, span⟩ := by
  have stands : Token.Stands ⟨.intLiteral, String.ofList (toString number).toList, span⟩ :=
    stands_digits (toString_ne_nil number) (fun _ => isDigit_of_mem_toString) (by rwa [digitsValue_toString])
  rwa [String.ofList_toList] at stands

end Classes

namespace Token

/-- The tokens written with single spaces between them. -/
def spaced (tokens : List Token) : String := " ".intercalate (tokens.map lexeme)

/-- The tokens written one after the other with a space in front of each. -/
def trailing (tokens : List Token) : List Char := tokens.flatMap fun token => ' ' :: token.lexeme.toList

theorem ends_trailing (tokens : List Token) : Ends (trailing tokens) := by
  cases tokens with
  | nil => simp [Ends, trailing]
  | cons token rest => simp [Ends, trailing]

theorem length_le_trailing (tokens : List Token) : tokens.length ≤ (trailing tokens).length := by
  induction tokens with
  | nil => simp
  | cons token rest ih =>
    simp only [trailing, List.flatMap_cons, List.length_append, List.length_cons] at ih ⊢
    omega

theorem toList_spaced_cons (token : Token) (rest : List Token) :
    (spaced (token :: rest)).toList = token.lexeme.toList ++ trailing rest := by
  induction rest generalizing token with
  | nil => simp [spaced, trailing]
  | cons next rest ih =>
    have apart : spaced (token :: next :: rest) = token.lexeme ++ " " ++ spaced (next :: rest) :=
      String.intercalate_cons_cons
    simp [apart, ih, trailing]

end Token

namespace Scan

/-- A space in front only moves what follows. -/
theorem scanFrom_space (budget : Nat) (position : Position) (chars : List Char) :
    (scanFrom budget position (' ' :: chars)).lexemes =
      (scanFrom budget (position.advance ' ') chars).lexemes := by
  cases budget with
  | zero => rfl
  | succ budget =>
    have skipped : splitTrivia false (' ' :: chars) =
        (' ' :: (splitTrivia false chars).1, (splitTrivia false chars).2) := rfl
    simp only [scanFrom, skipped, Position.after, List.foldl_cons]

/-- A token that stands at the front is cut, and the rest is cut after it. -/
theorem scanFrom_stands {token : Token} (stands : token.Stands) {rest : List Char} (ends : Ends rest)
    (budget : Nat) (position : Position) :
    ∃ cut : Token, ∃ position', token.Agrees cut ∧
      (scanFrom (budget + 1) position (token.lexeme.toList ++ rest)).lexemes =
        .token cut :: (scanFrom budget position' rest).lexemes := by
  obtain ⟨first, chars, spelled, ⟨notBlank, noComment⟩, cuts⟩ := stands
  have nothing : splitTrivia false (first :: (chars ++ rest)) = ([], first :: (chars ++ rest)) := by
    simp [splitTrivia, notBlank, noComment]
  have written : token.lexeme = String.ofList (first :: chars) := by rw [← spelled, String.ofList_toList]
  rw [spelled, List.cons_append]
  simp only [scanFrom, nothing, cuts rest ends]
  exact ⟨⟨token.kind, String.ofList (first :: chars), _⟩, _, ⟨rfl, written⟩, rfl⟩

theorem scanFrom_trailing {tokens : List Token} (stand : ∀ token ∈ tokens, token.Stands) (budget : Nat)
    (position : Position) (enough : tokens.length ≤ budget) :
    ∃ cut : List Token, Respelled tokens cut ∧
      (scanFrom budget position (Token.trailing tokens)).lexemes = cut.map Lexeme.token := by
  induction tokens generalizing budget position with
  | nil =>
    refine ⟨[], .nil, ?_⟩
    cases budget <;> rfl
  | cons token rest ih =>
    obtain ⟨here, others⟩ := List.forall_mem_cons.mp stand
    obtain ⟨budget, rfl⟩ := Nat.exists_eq_add_of_le' (Nat.le_trans (Nat.le_add_left 1 _) enough)
    obtain ⟨first, after, agrees, cuts⟩ :=
      scanFrom_stands here (Token.ends_trailing rest) budget (position.advance ' ')
    obtain ⟨cut, respelled, found⟩ := ih others budget after (Nat.le_of_succ_le_succ enough)
    have apart : Token.trailing (token :: rest) = ' ' :: (token.lexeme.toList ++ Token.trailing rest) := rfl
    exact ⟨first :: cut, .cons agrees respelled, by rw [apart, scanFrom_space, cuts, found, List.map_cons]⟩

/-- A text of spaced tokens that stand has no lexical fault, and its tokens are spelled like them. -/
theorem ofText_spaced {tokens : List Token} (stand : ∀ token ∈ tokens, token.Stands) :
    (ofText (Token.spaced tokens)).faults = [] ∧ Respelled tokens (ofText (Token.spaced tokens)).tokens := by
  obtain ⟨cut, respelled, found⟩ : ∃ cut : List Token, Respelled tokens cut ∧
      (ofText (Token.spaced tokens)).lexemes = cut.map Lexeme.token := by
    cases tokens with
    | nil => exact ⟨[], .nil, rfl⟩
    | cons token rest =>
      obtain ⟨here, others⟩ := List.forall_mem_cons.mp stand
      obtain ⟨first, after, agrees, cuts⟩ := scanFrom_stands here (Token.ends_trailing rest)
        (token.lexeme.toList ++ Token.trailing rest).length .start
      have enough : rest.length ≤ (token.lexeme.toList ++ Token.trailing rest).length := by
        rw [List.length_append]
        exact Nat.le_add_left_of_le (Token.length_le_trailing rest)
      obtain ⟨cut, respelled, found⟩ := scanFrom_trailing others _ after enough
      refine ⟨first :: cut, .cons agrees respelled, ?_⟩
      rw [ofText, Token.toList_spaced_cons, ofChars, cuts, found, List.map_cons]
  have tokens_cut : (ofText (Token.spaced tokens)).tokens = cut := by
    simp [Scan.tokens, found, List.filterMap_map, Function.comp_def, Lexeme.token?]
  refine ⟨?_, tokens_cut ▸ respelled⟩
  simp [Scan.faults, found, List.filterMap_map, Function.comp_def, Lexeme.fault?]

end Scan

end Stackwright

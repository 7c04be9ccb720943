import Stackwright.Binary64
import Stackwright.Token.Fault
import Stackwright.Token.Kind

/-! The first piece of a text: how many characters it takes and what they are. The class of a
piece is decided by its first character, and each class takes as many characters as it can.
A munch never looks at positions, so `taken ++ rest` is the text it was given. -/

set_option autoImplicit false

namespace Stackwright

structure Munch where
  outcome : Except LexicalFault.Cause Kind
  taken : List Char
  rest : List Char

namespace Munch

def accept (kind : Kind) (taken rest : List Char) : Munch := ⟨.ok kind, taken, rest⟩

def reject (cause : LexicalFault.Cause) (taken rest : List Char) : Munch := ⟨.error cause, taken, rest⟩

/-- Integer literals are below `2 ^ 31`. -/
def integerLimit : Nat := 0x80000000

def integer (digits rest : List Char) : Munch :=
  if digitsValue 10 digits < integerLimit then accept .intLiteral digits rest
  else reject (.malformedNumber "integer literal does not fit in 32 bits") digits rest

/-- A complete float literal, rejected if no finite double is near it. -/
def float (taken rest : List Char) : Munch :=
  if (Binary64.ofDecimal? (.ofLiteral taken)).isSome then accept .floatLiteral taken rest
  else reject (.malformedNumber "float literal out of range") taken rest

/-- The sign of an exponent, if there is one, and what follows it. -/
def splitSign : List Char → List Char × List Char
  | '+' :: rest => (['+'], rest)
  | '-' :: rest => (['-'], rest)
  | rest => ([], rest)

/-- The optional exponent of a float literal whose mantissa is given. -/
def exponent (mantissa : List Char) : List Char → Munch
  | 'E' :: rest =>
    let (sign, rest) := splitSign rest
    let digits := rest.takeWhile Char.isDigit
    let taken := mantissa ++ 'E' :: sign ++ digits
    let rest := rest.dropWhile Char.isDigit
    if digits.isEmpty then reject (.malformedNumber "expected digits after exponent") taken rest
    else float taken rest
  | rest => float mantissa rest

/-- Digits, and a fraction if a point with a digit after it follows. -/
def number (chars : List Char) : Munch :=
  let whole := chars.takeWhile Char.isDigit
  match chars.dropWhile Char.isDigit with
  | '.' :: digit :: rest =>
    if digit.isDigit then
      let fraction := (digit :: rest).takeWhile Char.isDigit
      exponent (whole ++ '.' :: fraction) ((digit :: rest).dropWhile Char.isDigit)
    else integer whole ('.' :: digit :: rest)
  | rest => integer whole rest

def startsName (c : Char) : Bool := c.isAlpha || c == '_'

def continuesName (c : Char) : Bool := c.isAlphanum || c == '_'

/-- A reserved word or an identifier. -/
def word (chars : List Char) : Munch :=
  let taken := chars.takeWhile continuesName
  let rest := chars.dropWhile continuesName
  match Keyword.ofText? (String.ofList taken) with
  | some keyword => accept (.keyword keyword) taken rest
  | none => accept .identifier taken rest

def isOctal (c : Char) : Bool := '0' ≤ c && c ≤ '7'

/-- Whether a code is that of a printable ASCII character. -/
def isPrintable (code : Nat) : Bool := 32 ≤ code && code ≤ 126

/-- What follows the `#` of a character literal: an octal code, `#` and the character it
protects, or the character itself. -/
def character : List Char → Munch
  | [] => reject (.malformedCharacter "expected a character after '#'") ['#'] []
  | '#' :: rest =>
    match rest with
    | [] => reject (.malformedCharacter "'##' must be followed by a digit or '#'") ['#', '#'] []
    | c :: rest' =>
      if c.isDigit || c == '#' then accept .charLiteral ['#', '#', c] rest'
      else reject (.malformedCharacter "'##' must be followed by a digit or '#'") ['#', '#'] rest
  | c :: rest =>
    if isOctal c then
      let digits := (c :: rest).takeWhile isOctal
      let rest := (c :: rest).dropWhile isOctal
      if isPrintable (digitsValue 8 digits) then accept .charLiteral ('#' :: digits) rest
      else
        let detail := "octal code " ++ String.ofList digits ++ " is not a printable character"
        reject (.malformedCharacter detail) ('#' :: digits) rest
    else accept .charLiteral ['#', c] rest

def continuesString (c : Char) : Bool := c != '"' && c != '\n'

/-- What follows the opening quote of a string literal, which ends on the same line. -/
def string (chars : List Char) : Munch :=
  let body := chars.takeWhile continuesString
  match chars.dropWhile continuesString with
  | '"' :: rest => accept .stringLiteral ('"' :: body ++ ['"']) rest
  | rest => reject .unterminatedString ('"' :: body) rest

/-- A mark beginning with the given character. -/
def mark (first : Char) (rest : List Char) : Munch :=
  match first, rest with
  | '+', _ => accept (.mark .plus) [first] rest
  | '-', _ => accept (.mark .minus) [first] rest
  | '*', _ => accept (.mark .star) [first] rest
  | '>', _ => accept (.mark .greater) [first] rest
  | ',', _ => accept (.mark .comma) [first] rest
  | ';', _ => accept (.mark .semicolon) [first] rest
  | '(', _ => accept (.mark .leftParen) [first] rest
  | ')', _ => accept (.mark .rightParen) [first] rest
  | '\x7b', _ => accept (.mark .leftBrace) [first] rest
  | '\x7d', _ => accept (.mark .rightBrace) [first] rest
  | ':', '=' :: rest' => accept (.mark .assign) [first, '='] rest'
  | '\\', 'n' :: rest' => accept (.mark .newline) [first, 'n'] rest'
  | '\\', 's' :: rest' => accept (.mark .space) [first, 's'] rest'
  | _, _ => reject (.unexpectedCharacter first) [first] rest

/-- The first piece of a text that begins with the given character. -/
def piece (first : Char) (rest : List Char) : Munch :=
  if first.isDigit then number (first :: rest)
  else if startsName first then word (first :: rest)
  else if first = '#' then character rest
  else if first = '"' then string rest
  else mark first rest

end Munch

end Stackwright

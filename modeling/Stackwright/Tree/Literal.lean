import Stackwright.Binary64
import Stackwright.Token.Basic
import Stackwright.Token.Munch
import Stackwright.Tree.Basic
import Stackwright.Tree.Fault

/-! The values of literal tokens. -/

set_option autoImplicit false

namespace Stackwright.Literal

/-- The character that a literal such as `#a`, `##7` or `#101` stands for. -/
def readChar? : List Char → Option Char
  | '#' :: '#' :: escaped => escaped.head?
  | '#' :: body =>
    match body with
    | c :: _ =>
      if Munch.isOctal c then
        let code := digitsValue 8 body
        if body.all Munch.isOctal && code.isValidChar then some (Char.ofNat code) else none
      else some c
    | [] => none
  | _ => none

/-- The text between the quotes of a string literal. -/
def readString? : List Char → Option (List Char)
  | '"' :: rest => if rest.getLast? = some '"' then some rest.dropLast else none
  | _ => none

/-- The value of an integer literal. -/
def readInt? (digits : List Char) : Option Nat :=
  let value := digitsValue 10 digits
  if !digits.isEmpty && digits.all Char.isDigit && value < Munch.integerLimit then some value else none

/-- The value of a literal token. Every literal token that the lexer makes has one. -/
def ofToken (token : Token) : Except SyntaxFault Literal :=
  let chars := token.lexeme.toList
  let orElse (value : Option Literal) (detail : String) : Except SyntaxFault Literal :=
    match value with
    | some literal => .ok literal
    | none =>
      .error ⟨.invalidToken, token.span, "invalid " ++ token.kind.description ++ ": " ++ detail⟩
  match token.kind with
  | .keyword .trueWord => .ok (.bool true)
  | .keyword .falseWord => .ok (.bool false)
  | .intLiteral => orElse ((readInt? chars).map .int) "out of range"
  | .floatLiteral => orElse ((Binary64.ofDecimal? (.ofLiteral chars)).map .float) "malformed"
  | .stringLiteral => orElse ((readString? chars).map fun text => .string (String.ofList text)) "missing quotes"
  | .charLiteral => orElse ((readChar? chars).map .char) "no character"
  | _ => orElse none "not a literal"

end Stackwright.Literal

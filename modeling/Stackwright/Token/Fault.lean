import Stackwright.Span

/-! Why a piece of source text is no token. -/

set_option autoImplicit false

namespace Stackwright

inductive LexicalFault.Cause where
  | unexpectedCharacter (char : Char)
  | unterminatedString
  | malformedCharacter (detail : String)
  | malformedNumber (detail : String)
  deriving DecidableEq, Repr

structure LexicalFault where
  cause : LexicalFault.Cause
  span : Span
  deriving DecidableEq, Repr

def LexicalFault.message (fault : LexicalFault) : String :=
  let place := " at " ++ fault.span.text
  match fault.cause with
  | .unexpectedCharacter char => "unexpected character '" ++ char.toString ++ "'" ++ place
  | .unterminatedString => "unterminated string" ++ place
  | .malformedCharacter detail => "invalid character literal" ++ place ++ ": " ++ detail
  | .malformedNumber detail => "invalid number" ++ place ++ ": " ++ detail

end Stackwright

import Stackwright.Span
import Stackwright.Token.Fault
import Stackwright.Token.Kind

/-! Tokens, and the result of cutting a source text into them. -/

set_option autoImplicit false

namespace Stackwright

/-- A token with its text as written. -/
structure Token where
  kind : Kind
  lexeme : String
  span : Span
  deriving DecidableEq, Repr

/-- The token that stands after the last one. -/
def Token.endOfFile (span : Span) : Token := ⟨.endOfFile, "", span⟩

/-- A place in a text where a token could begin. -/
structure Position where
  line : Nat
  column : Nat
  deriving DecidableEq, Repr

namespace Position

def start : Position := ⟨1, 1⟩

def advance (position : Position) (char : Char) : Position :=
  if char = '\n' then ⟨position.line + 1, 1⟩ else ⟨position.line, position.column + char.utf8Size⟩

/-- The position after the given text. -/
def after (position : Position) (chars : List Char) : Position :=
  chars.foldl advance position

def span (position : Position) (length : Nat) : Span := ⟨position.line, position.column, length⟩

end Position

/-- One piece of source text between blanks and comments. -/
inductive Lexeme where
  | token (accepted : Token)
  | rejected (fault : LexicalFault)
  deriving Repr

namespace Lexeme

def token? : Lexeme → Option Token
  | .token accepted => some accepted
  | .rejected _ => none

def fault? : Lexeme → Option LexicalFault
  | .token _ => none
  | .rejected fault => some fault

/-- The piece as a token; text that is no token becomes one of kind `invalid`. -/
def asToken : Lexeme → Token
  | .token accepted => accepted
  | .rejected fault => ⟨.invalid, "", fault.span⟩

end Lexeme

/-- A source text cut into pieces, and the position of its end. -/
structure Scan where
  lexemes : List Lexeme
  finish : Position
  deriving Repr

namespace Scan

def tokens (scan : Scan) : List Token := scan.lexemes.filterMap Lexeme.token?

def faults (scan : Scan) : List LexicalFault := scan.lexemes.filterMap Lexeme.fault?

def endOfFile (scan : Scan) : Token := .endOfFile (scan.finish.span 0)

/-- Every piece as a token, followed by the end of the file. -/
def allTokens (scan : Scan) : List Token :=
  scan.lexemes.map Lexeme.asToken ++ [scan.endOfFile]

end Scan

end Stackwright

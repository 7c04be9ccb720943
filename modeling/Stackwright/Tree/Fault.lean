import Stackwright.Span
import Stackwright.Text.Line
import Stackwright.Token.Fault

/-! Why a token sequence is no program, and how that is shown to the reader. -/

set_option autoImplicit false

namespace Stackwright

inductive SyntaxFault.Kind where
  | expectedToken
  | unexpectedToken
  | unexpectedEnd
  | expectedExpression
  | expectedIdentifier
  | expectedType
  | expectedStatement
  | expectedBlock
  | invalidToken
  deriving DecidableEq, Repr

def SyntaxFault.Kind.text : SyntaxFault.Kind → String
  | .expectedToken => "expected token"
  | .unexpectedToken => "unexpected token"
  | .unexpectedEnd => "unexpected end of file"
  | .expectedExpression => "expected expression"
  | .expectedIdentifier => "expected identifier"
  | .expectedType => "expected type"
  | .expectedStatement => "expected statement"
  | .expectedBlock => "expected block"
  | .invalidToken => "invalid token"

structure SyntaxFault where
  kind : SyntaxFault.Kind
  span : Span
  message : String
  deriving DecidableEq, Repr

namespace SyntaxFault

def expectedToken (span : Span) (expected found : String) : SyntaxFault :=
  ⟨.expectedToken, span, "expected " ++ expected ++ ", found " ++ found⟩

def unexpectedToken (span : Span) (token : String) : SyntaxFault :=
  ⟨.unexpectedToken, span, "unexpected " ++ token⟩

def unexpectedEnd (span : Span) : SyntaxFault :=
  ⟨.unexpectedEnd, span, "unexpected end of file"⟩

def expectedIdentifier (span : Span) (found : String) : SyntaxFault :=
  ⟨.expectedIdentifier, span, "expected identifier, found " ++ found⟩

def expectedExpression (span : Span) (found : String) : SyntaxFault :=
  ⟨.expectedExpression, span, "expected expression, found " ++ found⟩

def expectedType (span : Span) (found : String) : SyntaxFault :=
  ⟨.expectedType, span, "expected int, bool or void, found " ++ found⟩

def expectedStatement (span : Span) (found : String) : SyntaxFault :=
  ⟨.expectedStatement, span, "expected statement, found " ++ found⟩

def ofLexical (fault : LexicalFault) : SyntaxFault :=
  ⟨.invalidToken, fault.span, fault.message⟩

/-- The fault on one line. -/
def text (fault : SyntaxFault) : String :=
  "at " ++ fault.span.text ++ ": " ++ fault.kind.text ++ ": " ++ fault.message

/-- The faults in order, one a line. -/
def listText (faults : List SyntaxFault) : String :=
  "\n".intercalate (faults.map text)

/-- The source line with a caret under the start of the fault. -/
def excerpt (span : Span) (line : String) : String :=
  "    |\n" ++ Text.padLeft 3 (toString span.line) ++ " | " ++ line ++ "\n    | " ++
    Text.repeated (span.column - 1) ' ' ++ "^" ++ Text.repeated (span.length - 1) '~' ++ "\n"

/-- The fault with the source line it is on, if the source has that line. -/
def render (fault : SyntaxFault) (source : String) : String :=
  let heading := "error at " ++ fault.span.text ++ ": " ++ fault.message ++ "\n"
  match fault.span.line with
  | 0 => heading
  | index + 1 =>
    match (Text.lines source)[index]? with
    | some line => heading ++ excerpt fault.span line
    | none => heading

end SyntaxFault

end Stackwright

import Stackwright.Token.Lexer
import Stackwright.Tree.Basic
import Stackwright.Tree.Fault

/-! The state of a parser and the steps it is built from. A rule that fails keeps the tokens
it took, the node numbers it used and the faults it recorded; the caller decides whether to
record the fault it returns and where to go on. -/

set_option autoImplicit false

namespace Stackwright

/-- How far a parser has come. `rest` holds no token for the end of the file, which stands at
`finish`; `previous` is the region of the last token taken. -/
structure Cursor where
  rest : List Token
  finish : Span
  previous : Option Span
  faults : List SyntaxFault
  nextId : Nat
  deriving Repr

namespace Cursor

/-- Before the first token. Text that is no token is recorded and left out. -/
def ofScan (scan : Scan) : Cursor where
  rest := scan.tokens
  finish := scan.finish.span 0
  previous := none
  faults := scan.faults.map SyntaxFault.ofLexical
  nextId := 0

def ofText (text : String) : Cursor := ofScan (Scan.ofText text)

/-- The next token, without taking it. -/
def peek (cursor : Cursor) : Token :=
  match cursor.rest with
  | token :: _ => token
  | [] => .endOfFile cursor.finish

/-- Take the next token; the end of the file stays where it is. -/
def advance (cursor : Cursor) : Cursor :=
  match cursor.rest with
  | token :: rest => { cursor with rest := rest, previous := some token.span }
  | [] => cursor

/-- The region of the last token taken, or of the first token if none was. -/
def previousSpan (cursor : Cursor) : Span := cursor.previous.getD cursor.peek.span

def record (cursor : Cursor) (fault : SyntaxFault) : Cursor :=
  { cursor with faults := cursor.faults ++ [fault] }

/-- Drop tokens up to and including the next `;`, or up to the next `}`. -/
def skipStatement (previous : Option Span) : List Token → Option Span × List Token
  | [] => (previous, [])
  | token :: rest =>
    match token.kind with
    | .mark .rightBrace => (previous, token :: rest)
    | .mark .semicolon => (some token.span, rest)
    | _ => skipStatement (some token.span) rest

/-- Drop tokens up to the next `func` or `main`. -/
def skipItem (previous : Option Span) : List Token → Option Span × List Token
  | [] => (previous, [])
  | token :: rest =>
    match token.kind with
    | .keyword .funcWord | .keyword .mainWord => (previous, token :: rest)
    | _ => skipItem (some token.span) rest

/-- Go on behind a statement that could not be read. -/
def resumeStatement (cursor : Cursor) : Cursor :=
  let (previous, rest) := skipStatement cursor.previous cursor.rest
  { cursor with previous := previous, rest := rest }

/-- Go on behind a function definition that could not be read. -/
def resumeItem (cursor : Cursor) : Cursor :=
  let (previous, rest) := skipItem cursor.previous cursor.rest
  { cursor with previous := previous, rest := rest }

end Cursor

/-- A parsing rule. A failing rule leaves the cursor where it stopped. -/
abbrev Parser := EStateM SyntaxFault Cursor

/-- A parsing rule that never fails. -/
abbrev Recovering := StateM Cursor

namespace Parser

/-- A rule that never fails, among rules that may. -/
def ofRecovering {α : Type} (rule : Recovering α) : Parser α := fun cursor =>
  let (value, cursor) := rule cursor
  .ok value cursor

/-- Follow a rule, and make good if it fails. -/
def recover {α : Type} (rule : Parser α) (handler : SyntaxFault → Recovering α) : Recovering α :=
  fun cursor =>
    match rule cursor with
    | .ok value cursor => (value, cursor)
    | .error fault cursor => handler fault cursor

def peek : Parser Token := fun cursor => .ok cursor.peek cursor

/-- Take the next token. -/
def advance : Parser Token := fun cursor => .ok cursor.peek cursor.advance

/-- Whether the next token is of the given kind. -/
def check (kind : Kind) : Parser Bool := fun cursor => .ok (cursor.peek.kind == kind) cursor

/-- Take the next token if it is of the given kind. -/
def eat (kind : Kind) : Parser Bool := do
  if ← check kind then
    let _ ← advance
    return true
  else return false

/-- Take a token that must be of the given kind. -/
def expect (kind : Kind) : Parser Token := do
  let found ← peek
  if found.kind = kind then advance
  else if found.kind = .endOfFile then throw (.unexpectedEnd found.span)
  else throw (.expectedToken found.span kind.description found.kind.description)

/-- A number that no node has yet. -/
def freshId : Parser Nat := fun cursor => .ok cursor.nextId { cursor with nextId := cursor.nextId + 1 }

def identifier : Parser Name := do
  let token ← peek
  match token.kind with
  | .identifier =>
    let _ ← advance
    return ⟨token.lexeme, ⟨← freshId, token.span⟩⟩
  | .endOfFile => throw (.unexpectedEnd token.span)
  | other => throw (.expectedIdentifier token.span other.description)

end Parser

end Stackwright

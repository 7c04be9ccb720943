import Stackwright.Text.Blank
import Stackwright.Text.Utf8
import Stackwright.Token.Basic
import Stackwright.Token.Munch

/-! Cutting a source text into lexemes, all at once or one after another. Blanks and comments lie between
them. -/

set_option autoImplicit false

namespace Stackwright

/-- The blanks and comments at the front of a text, and the rest. A comment runs from `%`
to the next `%` or to the end of its line; `inside` tells whether one is open. -/
def splitTrivia (inside : Bool) : List Char → List Char × List Char
  | [] => ([], [])
  | c :: rest =>
    if inside then
      let (skipped, remaining) := splitTrivia (c != '%' && c != '\n') rest
      (c :: skipped, remaining)
    else if Text.isBlank c || c == '%' then
      let (skipped, remaining) := splitTrivia (c == '%') rest
      (c :: skipped, remaining)
    else ([], c :: rest)

/-- The lexeme that a munch makes at a position. -/
def Munch.lexeme (munch : Munch) (start : Position) : Lexeme :=
  let span := start.span (Text.Utf8.size munch.taken)
  match munch.outcome with
  | .ok kind => .token ⟨kind, String.ofList munch.taken, span⟩
  | .error cause => .rejected ⟨cause, span⟩

namespace Scan

/-- Cut a text that begins at `position`. Every lexeme takes at least one character, so a
`budget` above the length of the text is never used up. -/
def scanFrom : (budget : Nat) → Position → List Char → Scan
  | 0, position, _ => ⟨[], position⟩
  | budget + 1, position, chars =>
    let (skipped, remaining) := splitTrivia false chars
    let start := position.after skipped
    match remaining with
    | [] => ⟨[], start⟩
    | first :: rest =>
      let munch := Munch.piece first rest
      let tail := scanFrom budget (start.after munch.taken) munch.rest
      ⟨munch.lexeme start :: tail.lexemes, tail.finish⟩

def ofChars (chars : List Char) : Scan := scanFrom (chars.length + 1) .start chars

def ofText (text : String) : Scan := ofChars text.toList

end Scan

/-- A text that is being cut: where the rest of it begins, the rest, and the faults met so far. -/
structure Lexer where
  position : Position
  rest : List Char
  faults : List LexicalFault

namespace Lexer

def ofText (text : String) : Lexer := ⟨.start, text.toList, []⟩

/-- Cut off the next token, which at the end of the text is the end of the file. -/
def next (lexer : Lexer) : Token × Lexer :=
  let (skipped, remaining) := splitTrivia false lexer.rest
  let start := lexer.position.after skipped
  match remaining with
  | [] => (.endOfFile (start.span 0), ⟨start, [], lexer.faults⟩)
  | first :: rest =>
    let munch := Munch.piece first rest
    let lexeme := munch.lexeme start
    (lexeme.asToken, ⟨start.after munch.taken, munch.rest, lexer.faults ++ lexeme.fault?.toList⟩)

/-- The lexer after so many tokens. -/
def after (lexer : Lexer) : (count : Nat) → Lexer
  | 0 => lexer
  | count + 1 => lexer.next.2.after count

/-- The token of the given number, counted from zero. -/
def token (lexer : Lexer) (index : Nat) : Token := (lexer.after index).next.1

end Lexer

end Stackwright

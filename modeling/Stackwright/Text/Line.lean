/-! Lines of a text, and text set in columns. -/

set_option autoImplicit false

namespace Stackwright.Text

/-- The lines of a text. A line ends at a newline, with one carriage return before it if
there is one; what follows the last newline is a line only if it is not empty. -/
def splitLines : List Char → List (List Char)
  | [] => []
  | '\n' :: rest => [] :: splitLines rest
  | '\r' :: '\n' :: rest => [] :: splitLines rest
  | c :: rest =>
    match splitLines rest with
    | [] => [[c]]
    | line :: lines => (c :: line) :: lines

def lines (text : String) : List String :=
  (splitLines text.toList).map String.ofList

/-- `count` copies of one character. -/
def repeated (count : Nat) (c : Char) : String :=
  String.ofList (List.replicate count c)

/-- The text moved right by blanks until it is `width` characters long. -/
def padLeft (width : Nat) (text : String) : String :=
  repeated (width - text.length) ' ' ++ text

/-- The text followed by blanks until it is `width` characters long. -/
def padRight (width : Nat) (text : String) : String :=
  text ++ repeated (width - text.length) ' '

end Stackwright.Text

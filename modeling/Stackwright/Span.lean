/-! Regions of source text. Lines and columns count from one, and columns and lengths count
UTF-8 bytes. All three are natural numbers: sources with 2^32 lines or bytes, which overflow
32-bit counters, are not treated apart. -/

set_option autoImplicit false

namespace Stackwright

structure Span where
  line : Nat
  column : Nat
  length : Nat
  deriving DecidableEq, Repr, Inhabited

namespace Span

/-- The empty region at a position. -/
def point (line column : Nat) : Span := ⟨line, column, 0⟩

def isEmpty (span : Span) : Bool := span.length == 0

/-- The column after the last one of the region. -/
def stop (span : Span) : Nat := span.column + span.length

/-- A region that covers both: on one line from the first start to the last end; across
lines it keeps the start of the first and adds the lengths. -/
def merge (first second : Span) : Span :=
  if first.line = second.line then
    let start := min first.column second.column
    ⟨first.line, start, max second.stop first.stop - start⟩
  else ⟨first.line, first.column, first.length + second.length⟩

def text (span : Span) : String :=
  toString span.line ++ ":" ++ toString span.column

end Span

end Stackwright

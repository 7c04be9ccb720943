import Stackwright.Scope.Binding

/-! Storage for the variables of a program or of one function. An allocator hands out offsets
from one base, upward or downward, and remembers the most it ever had in use. Bookmarks let
the storage of a block be used again after it. Offsets are unbounded integers: they are those of
32-bit arithmetic for all programs whose variables take less than 2^31 bytes. -/

set_option autoImplicit false

namespace Stackwright

inductive Direction where
  | upward
  | downward
  deriving DecidableEq, Repr

structure Allocator where
  base : Base
  direction : Direction
  start : Int
  current : Int
  /-- The most bytes that were in use at once. -/
  peak : Nat
  bookmarks : List Int
  deriving DecidableEq, Repr

namespace Allocator

def starting (base : Base) (direction : Direction) (start : Int) : Allocator :=
  ⟨base, direction, start, start, 0, []⟩

/-- The offset after `size` more bytes. -/
def moved (allocator : Allocator) (size : Nat) : Int :=
  match allocator.direction with
  | .upward => allocator.current + size
  | .downward => allocator.current - size

/-- The lowest address of the next `size` bytes. -/
def nextOffset (allocator : Allocator) (size : Nat) : Int :=
  match allocator.direction with
  | .upward => allocator.current
  | .downward => allocator.current - size

def allocate (allocator : Allocator) (size : Nat) : Location × Allocator :=
  let current := allocator.moved size
  (⟨allocator.base, allocator.nextOffset size⟩,
    { allocator with
      current := current
      peak := max allocator.peak (current - allocator.start).natAbs })

/-- Remember what is in use now. -/
def save (allocator : Allocator) : Allocator :=
  { allocator with bookmarks := allocator.current :: allocator.bookmarks }

/-- Release what was handed out since the last bookmark. -/
def restore (allocator : Allocator) : Allocator :=
  match allocator.bookmarks with
  | [] => allocator
  | offset :: bookmarks => { allocator with current := offset, bookmarks := bookmarks }

end Allocator

end Stackwright

/-! Text as UTF-8 bytes. Reading never fails: each maximal ill-formed part of the input is
read as one missing character, which `lossy` shows as U+FFFD and `decode?` refuses. -/

set_option autoImplicit false

namespace Stackwright.Text.Utf8

def encode (chars : List Char) : List UInt8 :=
  chars.flatMap String.utf8EncodeChar

/-- The number of bytes of the text. -/
def size : List Char → Nat
  | [] => 0
  | char :: rest => char.utf8Size + size rest

/-- What the bytes before the next one leave open: the bits of the character read so far
and the ranges in which its remaining bytes must lie. -/
structure Pending where
  bits : Nat
  expected : List (Nat × Nat)

/-- What a byte can begin. -/
inductive Opening where
  | whole (char : Char)
  | first (pending : Pending)
  | illFormed

def continuation : Nat × Nat := (0x80, 0xBF)

/-- Leading bytes whose character would be overlong, a surrogate or above U+10FFFF narrow
the range of the byte that follows. -/
def opening (byte : Nat) : Opening :=
  if byte < 0x80 then .whole (Char.ofNat byte)
  else if byte < 0xC2 then .illFormed
  else if byte < 0xE0 then .first ⟨byte - 0xC0, [continuation]⟩
  else if byte = 0xE0 then .first ⟨0, [(0xA0, 0xBF), continuation]⟩
  else if byte = 0xED then .first ⟨0xD, [(0x80, 0x9F), continuation]⟩
  else if byte < 0xF0 then .first ⟨byte - 0xE0, [continuation, continuation]⟩
  else if byte = 0xF0 then .first ⟨0, [(0x90, 0xBF), continuation, continuation]⟩
  else if byte < 0xF4 then .first ⟨byte - 0xF0, [continuation, continuation, continuation]⟩
  else if byte = 0xF4 then .first ⟨4, [(0x80, 0x8F), continuation, continuation]⟩
  else .illFormed

/-- The characters of the bytes, with `none` for each maximal ill-formed part. -/
def read : Option Pending → List UInt8 → List (Option Char)
  | none, [] => []
  | some _, [] => [none]
  | none, byte :: rest =>
    match opening byte.toNat with
    | .whole char => some char :: read none rest
    | .first pending => read (some pending) rest
    | .illFormed => none :: read none rest
  | some ⟨bits, expected⟩, byte :: rest =>
    let b := byte.toNat
    match expected with
    | (low, high) :: more =>
      if low ≤ b ∧ b ≤ high then
        let bits := bits * 64 + (b - 0x80)
        if more.isEmpty then some (Char.ofNat bits) :: read none rest
        else read (some ⟨bits, more⟩) rest
      else
        match opening b with
        | .whole char => none :: some char :: read none rest
        | .first pending => none :: read (some pending) rest
        | .illFormed => none :: none :: read none rest
    | [] => none :: read none rest

/-- The text of the bytes, if they are well formed. -/
def decode? (bytes : List UInt8) : Option String :=
  ((read none bytes).mapM id).map String.ofList

/-- The text of the bytes with U+FFFD in place of each maximal ill-formed part. -/
def lossy (bytes : List UInt8) : String :=
  String.ofList ((read none bytes).map fun char => char.getD '\uFFFD')

end Stackwright.Text.Utf8

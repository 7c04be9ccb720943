import Stackwright.Text.Utf8

/-! Byte-addressed memory. Integers take four bytes, least significant first; texts end with a
zero byte. An access that does not lie inside the memory gives the address it failed at. -/

set_option autoImplicit false

namespace Stackwright.Machine

structure Memory where
  bytes : Array UInt8
  deriving DecidableEq

namespace Memory

/-- Memory of the given size, all zero. -/
def zeroed (size : Nat) : Memory := ⟨Array.replicate size 0⟩

def size (memory : Memory) : Nat := memory.bytes.size

@[simp] theorem size_zeroed (size : Nat) : (zeroed size).size = size := Array.size_replicate

/-- The first index of `length` bytes at an address, if they lie inside the memory. -/
def locate (memory : Memory) (address : Int32) (length : Nat) : Except Int Nat :=
  let start := address.toInt
  if 0 ≤ start ∧ start + length ≤ memory.size then .ok start.toNat else .error start

def byteAt (memory : Memory) (index : Nat) : UInt8 := memory.bytes[index]?.getD 0

def intAt (memory : Memory) (index : Nat) : Int32 :=
  let byte (offset : Nat) : Nat := (memory.byteAt (index + offset)).toNat
  Int32.ofNat (byte 0 + 0x100 * byte 1 + 0x10000 * byte 2 + 0x1000000 * byte 3)

def setByte (memory : Memory) (index : Nat) (byte : UInt8) : Memory :=
  ⟨memory.bytes.setIfInBounds index byte⟩

/-- The four bytes of an integer, least significant first. -/
def intBytes (value : Int32) : List UInt8 :=
  let word := value.toUInt32.toNat
  [UInt8.ofNat word, UInt8.ofNat (word / 0x100), UInt8.ofNat (word / 0x10000), UInt8.ofNat (word / 0x1000000)]

/-- Overwrite the bytes from an index on. -/
def setBytes (memory : Memory) (index : Nat) : List UInt8 → Memory
  | [] => memory
  | byte :: rest => (memory.setByte index byte).setBytes (index + 1) rest

def setInt (memory : Memory) (index : Nat) (value : Int32) : Memory :=
  memory.setBytes index (intBytes value)

def readInt (memory : Memory) (address : Int32) : Except Int Int32 :=
  (memory.locate address 4).map memory.intAt

def readByte (memory : Memory) (address : Int32) : Except Int UInt8 :=
  (memory.locate address 1).map memory.byteAt

def writeInt (memory : Memory) (address : Int32) (value : Int32) : Except Int Memory :=
  match memory.locate address 4 with
  | .ok index => .ok (memory.setInt index value)
  | .error failed => .error failed

def writeByte (memory : Memory) (address : Int32) (byte : UInt8) : Except Int Memory :=
  match memory.locate address 1 with
  | .ok index => .ok (memory.setByte index byte)
  | .error failed => .error failed

/-- The bytes from an index up to the next zero byte, if there is one among the next `budget`. -/
def bytesToZero (memory : Memory) : (budget index : Nat) → Option (List UInt8)
  | 0, _ => none
  | budget + 1, index =>
    let byte := memory.byteAt index
    if byte = 0 then some [] else (memory.bytesToZero budget (index + 1)).map fun rest => byte :: rest

/-- The text at an address; a text without a zero byte fails at the end of memory. -/
def readText (memory : Memory) (address : Int32) : Except Int String :=
  match memory.locate address 1 with
  | .error failed => .error failed
  | .ok index =>
    match memory.bytesToZero (memory.size - index) index with
    | some bytes => .ok (Text.Utf8.lossy bytes)
    | none => .error memory.size

/-- The bytes of a text and the zero byte after it. -/
def textBytes (text : String) : List UInt8 := Text.Utf8.encode text.toList ++ [0]

/-- Place a text and a zero byte at an index. It fails with the size it would need. -/
def writeText (memory : Memory) (index : Nat) (text : String) : Except Nat Memory :=
  let bytes := textBytes text
  let required := index + bytes.length
  if required ≤ memory.size then .ok (memory.setBytes index bytes) else .error required

end Memory

end Stackwright.Machine

/-! A 64-bit fingerprint of a byte string: two words of state are folded over sixteen bytes
at a time by a multiplication whose two halves are combined, as FxHasher folds the bytes of a string. Equal
texts have equal fingerprints; the converse is only likely. Sessions compare fingerprints for
equality and do nothing else with them. FxHasher's last steps are therefore left out: they add
constants, multiply by an odd number and rotate, and so keep distinct values distinct. -/

set_option autoImplicit false

namespace Stackwright.Text.Fingerprint

def firstSeed : UInt64 := 0x243f6a8885a308d3
def secondSeed : UInt64 := 0x13198a2e03707344
def whitening : UInt64 := 0xa4093822299f31d0

/-- The two halves of the 128-bit product, combined by exclusive or. -/
def mix (x y : UInt64) : UInt64 :=
  let product := x.toNat * y.toNat
  UInt64.ofNat product ^^^ UInt64.ofNat (product / 0x10000000000000000)

/-- The number whose bytes, least significant first, are given. -/
def word (bytes : List UInt8) : UInt64 :=
  bytes.foldr (fun byte value => value * 256 + byte.toUInt64) 0

/-- Fold sixteen bytes at a time for as long as more than sixteen are left. -/
def bulk : Nat → UInt64 × UInt64 → List UInt8 → UInt64 × UInt64
  | 0, state, _ => state
  | blocks + 1, (s, t), bytes =>
    let x := word (bytes.take 8)
    let y := word ((bytes.drop 8).take 8)
    bulk blocks (t, mix (s ^^^ x) (whitening ^^^ y)) (bytes.drop 16)

def lastBytes (count : Nat) (bytes : List UInt8) : List UInt8 :=
  bytes.drop (bytes.length - count)

/-- The two words that enter the last multiplication. -/
def absorbed (bytes : List UInt8) : UInt64 × UInt64 :=
  let size := bytes.length
  let seeds := (firstSeed, secondSeed)
  if 16 < size then
    let (s, t) := bulk ((size - 1) / 16) seeds bytes
    let tail := lastBytes 16 bytes
    (s ^^^ word (tail.take 8), t ^^^ word (tail.drop 8))
  else if 8 ≤ size then
    (firstSeed ^^^ word (bytes.take 8), secondSeed ^^^ word (lastBytes 8 bytes))
  else if 4 ≤ size then
    (firstSeed ^^^ word (bytes.take 4), secondSeed ^^^ word (lastBytes 4 bytes))
  else
    match bytes[0]?, bytes[size / 2]?, bytes[size - 1]? with
    | some first, some middle, some last =>
      (firstSeed ^^^ first.toUInt64, secondSeed ^^^ (last.toUInt64 * 256 + middle.toUInt64))
    | _, _, _ => seeds

def ofBytes (bytes : List UInt8) : UInt64 :=
  let (s, t) := absorbed bytes
  mix s t ^^^ UInt64.ofNat bytes.length

end Stackwright.Text.Fingerprint

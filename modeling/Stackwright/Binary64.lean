/-! Decimal literals and the double-precision number nearest to each, given by its bits. -/

set_option autoImplicit false

namespace Stackwright

/-- The number `digits * 10 ^ scale`. -/
structure Decimal where
  digits : Nat
  scale : Int
  deriving DecidableEq, Repr

/-- The value of a run of digits in the given base. -/
def digitsValue (base : Nat) (digits : List Char) : Nat :=
  digits.foldl (fun value digit => value * base + (digit.toNat - '0'.toNat)) 0

/-- Read `digits . digits` with an optional exponent `E`, sign, digits. -/
def Decimal.ofLiteral (literal : List Char) : Decimal :=
  let whole := literal.takeWhile Char.isDigit
  let fraction := literal.drop (whole.length + 1)
  let places := fraction.takeWhile Char.isDigit
  let exponent : Int :=
    match fraction.drop places.length with
    | 'E' :: '-' :: digits => - (digitsValue 10 digits : Int)
    | 'E' :: '+' :: digits => digitsValue 10 digits
    | 'E' :: digits => digitsValue 10 digits
    | _ => 0
  ⟨digitsValue 10 (whole ++ places), exponent - places.length⟩

namespace Binary64

/-- The least pattern that is not a finite number. -/
def infinity : Nat := 0x7FF0000000000000

/-- The quotient rounded to the nearest integer, a half going to the even neighbour. -/
def roundedQuotient (numerator denominator : Nat) : Nat :=
  let quotient := numerator / denominator
  let twice := 2 * (numerator % denominator)
  if denominator < twice ∨ (denominator = twice ∧ quotient % 2 = 1) then quotient + 1 else quotient

/-- `numerator / denominator` in units of `2 ^ exponent`, as a fraction. -/
def scaled (numerator denominator : Nat) (exponent : Int) : Nat × Nat :=
  if 0 ≤ exponent then (numerator, denominator * Nat.pow 2 exponent.toNat)
  else (numerator * Nat.pow 2 (-exponent).toNat, denominator)

/-- Significands of normal numbers lie from here up to twice this. -/
def leastNormal : Nat := 0x10000000000000

/-- The bit pattern nearest to a positive fraction: the unit is chosen so that the
significand has 53 bits, but is never finer than the least subnormal number. Patterns from
`infinity` on mean that the fraction is too large. -/
def nearest (numerator denominator : Nat) : Nat :=
  let estimate : Int := (numerator.log2 : Int) - denominator.log2 - 53
  let coarse := scaled numerator denominator estimate
  let fitted := if 2 * leastNormal ≤ coarse.1 / coarse.2 then estimate + 1 else estimate
  let unit := max fitted (-1074)
  let (n, d) := scaled numerator denominator unit
  let significand := roundedQuotient n d
  if significand < leastNormal then significand
  else (unit + 1074).toNat * leastNormal + significand

/-- The nearest finite double, or nothing when the number is too large for one. The two
bounds on the scale only keep the powers of ten small: past them the answer is clear. -/
def ofDecimal? (number : Decimal) : Option UInt64 :=
  if number.digits = 0 then some 0
  else if 400 < number.scale then none
  else if number.scale < - (400 + (number.digits.log2 : Int)) then some 0
  else
    let bits :=
      if 0 ≤ number.scale then nearest (number.digits * Nat.pow 10 number.scale.toNat) 1
      else nearest number.digits (Nat.pow 10 (-number.scale).toNat)
    if bits < infinity then some (UInt64.ofNat bits) else none

end Binary64

end Stackwright

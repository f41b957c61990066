import EventFlow.Double

/-!
# Doubles and decimals

Reading and writing of finite doubles in base ten, in exact natural-number arithmetic.

* `Double.ofDecimal?` rounds `mantissa · 10 ^ exponent` to the nearest double, a half going to the
  even neighbour, and refuses what rounds beyond the largest finite one.
* `Double.shortest` is the decimal with the fewest digits among those that round to the given
  double, and of these the nearest to it, a tie going to the even last digit.

Both work on the fraction `numerator / denominator` that the scaled number is, so no step rounds
except the last.
-/

set_option autoImplicit false

namespace EventFlow

/-- The number `digits · 10 ^ exponent`. -/
structure Decimal where
  digits : Nat
  exponent : Int
deriving DecidableEq, Repr

/-- How many decimal digits a number is written with. -/
def digitCount (n : Nat) : Nat := (Nat.toDigits 10 n).length

/-- The quotient rounded to the nearest integer, a half going to the even one. -/
def divNearestEven (num den : Nat) : Nat :=
  let quotient := num / den
  let rest := num % den
  if 2 * rest < den then quotient
  else if den < 2 * rest then quotient + 1
  else if quotient % 2 = 0 then quotient else quotient + 1

/-- The fraction `num / den` times `base ^ power`, for a power of either sign. -/
def scaleFraction (num den base : Nat) (power : Int) : Nat × Nat :=
  if 0 ≤ power then (num * Nat.pow base power.toNat, den)
  else (num, den * Nat.pow base (-power).toNat)

namespace Decimal

/-- The same number without trailing zeros among its digits; `fuel` bounds how many are dropped. -/
def dropZeros : Nat → Decimal → Decimal
  | 0, d => d
  | fuel + 1, d =>
    if d.digits % 10 = 0 ∧ d.digits ≠ 0 then dropZeros fuel ⟨d.digits / 10, d.exponent + 1⟩ else d

end Decimal

namespace Double

/-! ## Reading -/

/-- The sign bit. -/
def signBit (negative : Bool) : UInt64 := if negative then 0x8000000000000000 else 0

/-- The bits of `significand · 2 ^ power`, for a significand of at most 53 bits that has exactly
53 unless the power is the least one. -/
def assemble? (negative : Bool) (significand : Nat) (power : Int) : Option Double :=
  let (significand, power) :=
    if significand = 2 * implicitBit then (implicitBit, power + 1) else (significand, power)
  let magnitude :=
    if significand < implicitBit then significand
    else (power + 1075).toNat * implicitBit + (significand - implicitBit)
  if magnitude < 0x7FF * implicitBit then
    ofBits? (UInt64.ofNat magnitude ||| signBit negative)
  else none

/-- The double nearest to the positive fraction `num / den`. -/
def ofFraction? (negative : Bool) (num den : Nat) : Option Double :=
  let power : Int := max (-1074) ((num.log2 : Int) - den.log2 - 52)
  let (n, d) := scaleFraction num den 2 (-power)
  let power := if n < d * implicitBit then max (-1074) (power - 1) else power
  let (n, d) := scaleFraction num den 2 (-power)
  assemble? negative (divNearestEven n d) power

/-- The double nearest to `± mantissa · 10 ^ exponent`; `none` beyond the finite range. -/
def ofDecimal? (negative : Bool) (mantissa : Nat) (exponent : Int) : Option Double :=
  let zero := ofBits? (signBit negative)
  if mantissa = 0 then zero
  else
    let size := digitCount mantissa + exponent
    if size < -400 then zero
    else if 400 < size then none
    else
      let (num, den) := scaleFraction mantissa 1 10 exponent
      ofFraction? negative num den

/-- The double nearest to an integer. -/
def ofInt? (i : Int) : Option Double := ofDecimal? (i < 0) i.natAbs 0

/-! ## Writing -/

/-- The fractions that bound the numbers rounding to a double, with the double between them, over
one denominator: low end, value, high end, denominator. -/
def roundingInterval (d : Double) : Nat × Nat × Nat × Nat :=
  let m := d.significand
  let q := d.exponent - 2
  let below := if m = implicitBit ∧ -1074 < d.exponent then 4 * m - 1 else 4 * m - 2
  if 0 ≤ q then
    let s := Nat.pow 2 q.toNat
    (below * s, 4 * m * s, (4 * m + 2) * s, 1)
  else (below, 4 * m, 4 * m + 2, Nat.pow 2 (-q).toNat)

/-- The power of ten just above `num / den`: the least `e` with `num / den < 10 ^ e`. -/
def leadingPower (num den : Nat) : Int :=
  let guess : Int := (digitCount num : Int) - digitCount den
  let (n, d) := scaleFraction num den 10 (-guess)
  if n < d then guess else guess + 1

/-- The decimal of `count` digits nearest to a double among those that round to it. -/
def withDigits? (d : Double) (count : Nat) : Option Decimal :=
  let (low, value, high, den) := d.roundingInterval
  let grid := leadingPower value den - count
  let below := let (n, m) := scaleFraction value den 10 (-grid); n / m
  let inside (k : Nat) : Bool :=
    let (n, m) := scaleFraction k 1 10 grid
    let closed := d.significand % 2 = 0
    if closed then low * m ≤ n * den ∧ n * den ≤ high * m
    else low * m < n * den ∧ n * den < high * m
  let nearest := let (n, m) := scaleFraction value den 10 (-grid); divNearestEven n m
  if inside nearest then some ⟨nearest, grid⟩
  else if inside below then some ⟨below, grid⟩
  else if inside (below + 1) then some ⟨below + 1, grid⟩
  else none

/-- The shortest decimal that rounds to the magnitude of a double that is not zero. -/
def shortest (d : Double) : Decimal :=
  let found := (List.range 17).findSome? fun n => d.withDigits? (n + 1)
  Decimal.dropZeros 400 (found.getD ⟨d.significand, 0⟩)

end Double

end EventFlow

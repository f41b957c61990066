import EventFlow.Double.Decimal

/-!
# Doubles scaled by powers of ten

JSON text names a number by leading digits and a power of ten.  `Double.ofScaled?` reads it in
floating-point steps: the digits, as an integer of 64 bits, become the nearest double, and one
product or quotient with a power of ten makes the answer.  Each step rounds, so the answer can be
a neighbour of the double nearest to the written number (`ofDecimal?`), and a number just above the
largest double is refused although it would round down to it.

Digits that do not fit 64 bits are not looked at (`absorbDigits`).
-/

set_option autoImplicit false

namespace EventFlow

/-- The value of a decimal digit. -/
def digitValue (c : Char) : Nat := c.toNat - '0'.toNat

/-- Append digits to a number while it fits 64 bits; the digits left over are the second part. -/
def absorbDigits : Nat → List Char → Nat × List Char
  | n, [] => (n, [])
  | n, c :: cs =>
    if 10 * n + digitValue c < UInt64.size then absorbDigits (10 * n + digitValue c) cs
    else (n, c :: cs)

namespace Double

/-- The rounded product of two magnitudes; `none` beyond the finite range. -/
def times? (a b : Double) : Option Double :=
  let (num, den) := scaleFraction (a.significand * b.significand) 1 2 (a.exponent + b.exponent)
  ofFraction? false num den

/-- The rounded quotient of two magnitudes, the second not zero; `none` beyond the finite range. -/
def over? (a b : Double) : Option Double :=
  let (num, den) := scaleFraction a.significand b.significand 2 (a.exponent - b.exponent)
  ofFraction? false num den

/-- The greatest power of ten that is below the largest double. -/
def greatestPower : Nat := 308

/-- The double nearest to a power of ten. -/
def tenTo (power : Nat) : Double := (ofDecimal? false 1 power).getD zero

/-- A double scaled down until one more quotient is enough, with the power of ten that is left; what
has become zero stays. -/
def scaleDown? (d : Double) (power : Int) : Option (Double × Int) :=
  if power < -(greatestPower : Int) ∧ d.isZero = false then
    (d.over? (tenTo greatestPower)).bind fun d => scaleDown? d (power + greatestPower)
  else some (d, power)
termination_by (-power).toNat
decreasing_by simp only [greatestPower] at *; omega

/-- The magnitude `d · 10 ^ power`; `none` beyond the finite range. -/
def scaled? (d : Double) (power : Int) : Option Double :=
  if d.isZero then some zero
  else if 0 ≤ power then
    if power ≤ greatestPower then d.times? (tenTo power.toNat) else none
  else
    (d.scaleDown? power).bind fun (d, power) =>
      if d.isZero then some zero else d.over? (tenTo (-power).toNat)

/-- The double that stands for `± significand · 10 ^ power` in JSON text. -/
def ofScaled? (negative : Bool) (significand : Nat) (power : Int) : Option Double :=
  ((ofDecimal? false significand 0).bind fun d => d.scaled? power).bind fun d =>
    ofBits? (d.bits ||| signBit negative)

end Double

end EventFlow

import EventFlow.Double.Decimal

/-!
# Numbers

A JSON number is an integer or a double, and stays what it was written as: `1` and `1.0` are
different numbers (`Number.same`), each echoed in its own form (`Number.text`).

A double is written with its shortest digits, in positional notation while its leading digit stands
for a power of ten from `10 ^ -5` up to `10 ^ 15` and in scientific notation otherwise; the text
always has a point or an exponent, so it reads as a double again.
-/

set_option autoImplicit false

namespace EventFlow

/-- A JSON number. -/
inductive Number
  | int (value : Int)
  | double (value : Double)
deriving DecidableEq, Inhabited

namespace Double

/-- The least power of ten whose multiples are written positionally. -/
def leastPositional : Int := -5

/-- The greatest power of ten whose multiples are written positionally. -/
def greatestPositional : Int := 15

/-- A run of zeros. -/
def zeros (n : Nat) : List Char := List.replicate n '0'

/-- Digits with a decimal point so that the leading one stands for `10 ^ power`. -/
def positional (digits : List Char) (power : Int) : List Char :=
  if power < 0 then '0' :: '.' :: zeros ((-power).toNat - 1) ++ digits
  else
    let whole := power.toNat + 1
    if digits.length ≤ whole then digits ++ zeros (whole - digits.length) ++ ['.', '0']
    else digits.take whole ++ '.' :: digits.drop whole

/-- Digits with an exponent so that the leading one stands for `10 ^ power`. -/
def scientific (digits : List Char) (power : Int) : List Char :=
  let tail := 'e' :: (if power < 0 then '-' else '+') :: Nat.toDigits 10 power.natAbs
  match digits with
  | lead :: more :: rest => lead :: '.' :: more :: rest ++ tail
  | digits => digits ++ tail

/-- The shortest text of a number that rounds to the double. -/
def text (d : Double) : String :=
  let magnitude : List Char :=
    if d.isZero then ['0', '.', '0']
    else
      let decimal := d.shortest
      let digits := Nat.toDigits 10 decimal.digits
      let power := decimal.exponent + digits.length - 1
      if leastPositional ≤ power ∧ power ≤ greatestPositional then positional digits power
      else scientific digits power
  String.ofList (if d.isNegative then '-' :: magnitude else magnitude)

end Double

namespace Number

/-- The text of a number. -/
def text : Number → String
  | .int i => toString i
  | .double d => d.text

/-- Whether two numbers are the same: of one kind and numerically equal. -/
def same : Number → Number → Bool
  | .int a, .int b => a == b
  | .double a, .double b => a.same b
  | _, _ => false

/-- The nearest double. -/
def toDouble : Number → Double
  | .int i => (Double.ofInt? i).getD Double.zero
  | .double d => d

theorem same_refl (a : Number) : same a a = true := by
  cases a <;> simp [same, Double.same_refl]

theorem same_symm {a b : Number} (h : same a b = true) : same b a = true := by
  cases a <;> cases b <;> simp_all [same]
  exact Double.same_symm h

theorem same_trans {a b c : Number} (hab : same a b = true) (hbc : same b c = true) :
    same a c = true := by
  cases a <;> cases b <;> cases c <;> simp_all [same]
  exact Double.same_trans hab hbc

end Number

end EventFlow

/-!
# Numerals

Whole texts that denote integers: decimal digits behind an optional sign.  A plus sign is always
allowed, leading zeros are, spaces and separators are not, and a value outside the wanted range is
refused rather than wrapped.
-/

set_option autoImplicit false

namespace EventFlow

/-- The value of a character as a hexadecimal digit. -/
def hexValue? (c : Char) : Option Nat :=
  if '0' ≤ c ∧ c ≤ '9' then some (c.toNat - '0'.toNat)
  else if 'a' ≤ c ∧ c ≤ 'f' then some (c.toNat - 'a'.toNat + 10)
  else if 'A' ≤ c ∧ c ≤ 'F' then some (c.toNat - 'A'.toNat + 10)
  else none

namespace Numeral

/-- The signed integers of 32 bits are those from minus this number up to but not including it. -/
def int32Bound : Int := 0x80000000

/-- The value of a list of digits in some base up to sixteen, of which there is at least one. -/
def digitsIn? (base : Nat) (cs : List Char) : Option Nat :=
  if cs.isEmpty then none
  else
    cs.foldlM
      (fun n c => (hexValue? c).bind fun d => if d < base then some (base * n + d) else none) 0

/-- The value of a list of decimal digits, of which there is at least one. -/
def digits? (cs : List Char) : Option Nat := digitsIn? 10 cs

/-- A natural number below `bound`. -/
def natural? (bound : Nat) (text : String) : Option Nat :=
  let digits :=
    match text.toList with
    | '+' :: cs => digits? cs
    | cs => digits? cs
  digits.filter (· < bound)

/-- An integer from `least` up to but not including `bound`. -/
def integer? (least bound : Int) (text : String) : Option Int :=
  let value : Option Int :=
    match text.toList with
    | '+' :: cs => (digits? cs).map Int.ofNat
    | '-' :: cs => (digits? cs).map fun n => -(n : Int)
    | cs => (digits? cs).map Int.ofNat
  value.filter fun i => least ≤ i && i < bound

/-- A natural number below `bound` in the form in which it is written: no sign, no leading zero. -/
def written? (bound : Nat) (text : String) : Option Nat :=
  (natural? bound text).filter fun n => toString n == text

end Numeral

end EventFlow

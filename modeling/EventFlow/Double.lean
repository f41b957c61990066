/-!
# Finite double-precision numbers

A `Double` is the bit pattern of a 64-bit binary floating-point number that is neither infinite nor
not-a-number, which are the two kinds of pattern that no JSON text denotes.  Keeping bits rather
than an opaque machine number makes equality decidable and gives every value an exact reading as
`± significand · 2 ^ exponent` in natural numbers, which the decimal conversions of
`EventFlow.Double.Decimal` are written against.

`same` is numeric equality: it identifies the two zeros and nothing else, and it is an equivalence
(`same_refl`, `same_symm`, `same_trans`).
-/

set_option autoImplicit false

namespace EventFlow

/-- The eleven exponent bits of a pattern. -/
def exponentField (bits : UInt64) : UInt64 := (bits >>> 52) &&& 0x7FF

/-- A finite 64-bit floating-point number, by its bits. -/
structure Double where
  bits : UInt64
  finite : exponentField bits ≠ 0x7FF
deriving DecidableEq

namespace Double

/-- The number with the given bits, if they denote a finite one. -/
def ofBits? (bits : UInt64) : Option Double :=
  if h : exponentField bits ≠ 0x7FF then some ⟨bits, h⟩ else none

/-- Positive zero. -/
def zero : Double := ⟨0, by decide⟩

instance : Inhabited Double := ⟨zero⟩

/-- The machine number. -/
def toFloat (d : Double) : Float := Float.ofBits d.bits

/-- The finite number a machine number is, if it is finite. -/
def ofFloat? (x : Float) : Option Double := ofBits? x.toBits

/-- Whether the sign bit is set. -/
def isNegative (d : Double) : Bool := d.bits >>> 63 == 1

/-- Everything but the sign bit. -/
def magnitude (d : Double) : UInt64 := d.bits &&& 0x7FFFFFFFFFFFFFFF

/-- Whether the number is one of the two zeros. -/
def isZero (d : Double) : Bool := d.magnitude == 0

/-- The leading one of 53 bits, which a pattern leaves out. -/
def implicitBit : Nat := 0x10000000000000

/-- The integer `m` in the reading `m · 2 ^ q` of the magnitude. -/
def significand (d : Double) : Nat :=
  let fraction := (d.bits &&& 0xFFFFFFFFFFFFF).toNat
  if exponentField d.bits = 0 then fraction else implicitBit + fraction

/-- The power `q` in the reading `m · 2 ^ q` of the magnitude. -/
def exponent (d : Double) : Int :=
  if exponentField d.bits = 0 then -1074 else (exponentField d.bits).toNat - 1075

/-- Numeric equality. -/
def same (a b : Double) : Bool := a.bits == b.bits || (a.isZero && b.isZero)

theorem same_refl (a : Double) : same a a = true := by simp [same]

theorem same_symm {a b : Double} (h : same a b = true) : same b a = true := by
  simp only [same, Bool.or_eq_true, beq_iff_eq, Bool.and_eq_true] at h ⊢
  exact h.imp Eq.symm And.symm

theorem same_trans {a b c : Double} (hab : same a b = true) (hbc : same b c = true) :
    same a c = true := by
  simp only [same, Bool.or_eq_true, beq_iff_eq, Bool.and_eq_true, isZero, magnitude] at hab hbc ⊢
  rcases hab with hab | hab <;> rcases hbc with hbc | hbc
  · exact .inl (hab.trans hbc)
  · exact .inr ⟨hab ▸ hbc.1, hbc.2⟩
  · exact .inr ⟨hab.1, hbc ▸ hab.2⟩
  · exact .inr ⟨hab.1, hbc.2⟩

end Double

end EventFlow

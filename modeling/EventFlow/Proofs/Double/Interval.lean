import EventFlow.Double.Decimal
import Mathlib.Algebra.Order.Field.Power
import Mathlib.Order.Monotone.Basic
import Mathlib.Tactic.Linarith
import Mathlib.Tactic.NormNum
import Mathlib.Tactic.Positivity
import Mathlib.Tactic.Ring

/-!
# Which numbers round to a double

The doubles of one sign come in the order of their bits.  Halfway between each and the next lies the
end of one interval and the beginning of another, so that every positive number rounds to at most
one of them; a number that is an end of two intervals rounds to the double whose significand is
even.

## What is here

* `Double.rank` numbers the doubles of one sign; `lowAt` and `highAt` are the ends of the intervals,
  in units so small that both are integers.
* `Double.RoundsTo` says that a number rounds to the magnitude of a double.
* **`rank_eq_of_roundsTo`**: a number rounds to one magnitude at most.
-/

set_option autoImplicit false

namespace EventFlow

namespace Double

/-- The number of a magnitude among all of them. -/
def rank (d : Double) : Nat := d.magnitude.toNat

/-- The significand of the magnitude with a number. -/
def significandAt (n : Nat) : Nat :=
  if n / implicitBit = 0 then n % implicitBit else implicitBit + n % implicitBit

/-- Where the interval begins of the numbers that round to the magnitude with a number, in units of
`2 ^ -1076`. -/
def lowAt (n : Nat) : Nat :=
  (if n % implicitBit = 0 ∧ 2 ≤ n / implicitBit then 4 * significandAt n - 1
    else 4 * significandAt n - 2) * 2 ^ (n / implicitBit - 1)

/-- Where that interval ends. -/
def highAt (n : Nat) : Nat := (4 * significandAt n + 2) * 2 ^ (n / implicitBit - 1)

/-- The unit that the ends of intervals are multiples of. -/
def unit : ℚ := 2 ^ (-1076 : Int)

/-- The magnitude of a double. -/
def value (d : Double) : ℚ := d.significand * 2 ^ d.exponent

/-- A number rounds to the magnitude of a double. -/
def RoundsTo (d : Double) (x : ℚ) : Prop :=
  if d.significand % 2 = 0 then lowAt d.rank * unit ≤ x ∧ x ≤ highAt d.rank * unit
  else lowAt d.rank * unit < x ∧ x < highAt d.rank * unit

/-! ## Intervals -/

/-- **An interval ends where the next one begins.** -/
theorem highAt_eq (n : Nat) : highAt n = lowAt (n + 1) := by
  have hlt : n % implicitBit < implicitBit := Nat.mod_lt _ (by decide)
  rw [highAt, lowAt, significandAt, significandAt]
  by_cases hlast : n % implicitBit + 1 = implicitBit
  · have hmod : (n + 1) % implicitBit = 0 := by simp only [implicitBit] at *; omega
    have hdiv : (n + 1) / implicitBit = n / implicitBit + 1 := by
      simp only [implicitBit] at *
      omega
    rw [hmod, hdiv]
    cases hf : n / implicitBit with
    | zero => simp only [implicitBit] at *; simp; omega
    | succ f =>
      have hr : n % implicitBit = implicitBit - 1 := by omega
      rw [hr]
      simp only [implicitBit, Nat.add_sub_cancel, pow_succ]
      simp
      omega
  · have hmod : (n + 1) % implicitBit = n % implicitBit + 1 := by
      simp only [implicitBit] at *
      omega
    have hdiv : (n + 1) / implicitBit = n / implicitBit := by simp only [implicitBit] at *; omega
    have hinner : ¬(n % implicitBit + 1 = 0 ∧ 2 ≤ n / implicitBit) :=
      fun h => Nat.succ_ne_zero _ h.1
    rw [hmod, hdiv, if_neg hinner]
    refine congrArg (· * _) ?_
    split <;> omega

theorem lowAt_lt_highAt (n : Nat) : lowAt n < highAt n := by
  refine Nat.mul_lt_mul_of_pos_right ?_ (Nat.two_pow_pos _)
  split <;> omega

theorem strictMono_lowAt : StrictMono lowAt :=
  strictMono_nat_of_lt_succ fun n => highAt_eq n ▸ lowAt_lt_highAt n

/-! ## Bits -/

theorem rank_eq (d : Double) : d.rank = d.bits.toNat % 2 ^ 63 := by
  rw [rank, magnitude, UInt64.toNat_and,
    show (0x7FFFFFFFFFFFFFFF : UInt64).toNat = 2 ^ 63 - 1 from rfl, Nat.and_two_pow_sub_one_eq_mod]

theorem exponentField_eq (d : Double) :
    (exponentField d.bits).toNat = d.rank / implicitBit := by
  rw [rank_eq, exponentField, UInt64.toNat_and, UInt64.toNat_shiftRight,
    show (0x7FF : UInt64).toNat = 2 ^ 11 - 1 from rfl, Nat.and_two_pow_sub_one_eq_mod,
    show UInt64.toNat 52 % 64 = 52 from rfl, Nat.shiftRight_eq_div_pow, implicitBit]
  omega

theorem fraction_eq (d : Double) :
    (d.bits &&& 0xFFFFFFFFFFFFF).toNat = d.rank % implicitBit := by
  rw [rank_eq, UInt64.toNat_and, show (0xFFFFFFFFFFFFF : UInt64).toNat = 2 ^ 52 - 1 from rfl,
    Nat.and_two_pow_sub_one_eq_mod, implicitBit]
  omega

theorem exponentField_eq_zero {d : Double} :
    exponentField d.bits = 0 ↔ d.rank / implicitBit = 0 := by
  rw [← exponentField_eq, ← UInt64.toNat_inj]
  rfl

theorem significand_eq (d : Double) : d.significand = significandAt d.rank := by
  simp only [significand, significandAt, fraction_eq, exponentField_eq_zero]

theorem exponent_eq (d : Double) :
    d.exponent - 2 = ((d.rank / implicitBit - 1 : Nat) : Int) - 1076 := by
  simp only [exponent, exponentField_eq_zero, exponentField_eq]
  generalize d.rank / implicitBit = field
  split <;> omega

theorem zpow_exponent (d : Double) :
    (2 : ℚ) ^ (d.exponent - 2) = 2 ^ (d.rank / implicitBit - 1) * unit := by
  rw [exponent_eq, sub_eq_add_neg, zpow_add₀ (by norm_num), zpow_natCast, unit]

/-- The magnitude of a double, in quarters of what its significand counts. -/
theorem value_eq (d : Double) : d.value = (4 * d.significand : Nat) * 2 ^ (d.exponent - 2) := by
  rw [value, zpow_sub₀ (by norm_num), Nat.cast_mul]
  norm_num
  ring

/-- An interval begins half a unit of the significand below its double, or a quarter if the doubles
below lie closer together. -/
theorem lowAt_rank (d : Double) : (lowAt d.rank : ℚ) * unit =
    (if d.significand = implicitBit ∧ -1074 < d.exponent
      then 4 * d.significand - 1 else 4 * d.significand - 2 : Nat) * 2 ^ (d.exponent - 2) := by
  have hspecial : d.significand = implicitBit ∧ -1074 < d.exponent ↔
      d.rank % implicitBit = 0 ∧ 2 ≤ d.rank / implicitBit := by
    have hlt : d.rank % implicitBit < implicitBit := Nat.mod_lt _ (by decide)
    have hexponent := exponent_eq d
    rw [significand_eq, significandAt]
    generalize d.rank / implicitBit = field at *
    split <;> omega
  rw [zpow_exponent, lowAt, ← significand_eq, if_congr hspecial rfl rfl, Nat.cast_mul, Nat.cast_pow]
  ring

theorem highAt_rank (d : Double) :
    (highAt d.rank : ℚ) * unit = (4 * d.significand + 2 : Nat) * 2 ^ (d.exponent - 2) := by
  rw [zpow_exponent, highAt, ← significand_eq, Nat.cast_mul, Nat.cast_pow]
  ring

/-- Two doubles are equal if they have the same sign and the same magnitude. -/
theorem eq_of_rank {d d' : Double} (hsign : d.isNegative = d'.isNegative) (h : d.rank = d'.rank) :
    d = d' := by
  obtain ⟨b, hb⟩ := d
  obtain ⟨b', hb'⟩ := d'
  rw [mk.injEq, ← UInt64.toNat_inj]
  rw [rank_eq, rank_eq] at h
  have hbit (b : UInt64) : (b >>> 63).toNat = b.toNat / 2 ^ 63 := by
    rw [UInt64.toNat_shiftRight, show UInt64.toNat 63 % 64 = 63 from rfl, Nat.shiftRight_eq_div_pow]
  have hlt := b.toNat_lt
  have hlt' := b'.toNat_lt
  have htop : b.toNat / 2 ^ 63 = 1 ↔ b'.toNat / 2 ^ 63 = 1 := by
    have hiff (b : UInt64) : (b >>> 63 == 1) = true ↔ b.toNat / 2 ^ 63 = 1 := by
      rw [beq_iff_eq, ← UInt64.toNat_inj, hbit]
      rfl
    rw [← hiff, ← hiff]
    exact iff_of_eq (congrArg (· = true) hsign)
  simp only at h
  omega

/-! ## Rounding -/

theorem roundsTo_of_lt {d : Double} {x : ℚ} (hlow : lowAt d.rank * unit < x)
    (hhigh : x < highAt d.rank * unit) : d.RoundsTo x := by
  rw [RoundsTo]
  split
  · exact ⟨hlow.le, hhigh.le⟩
  · exact ⟨hlow, hhigh⟩

/-- A number that rounds to a double lies in its interval, ends included. -/
theorem RoundsTo.mem {d : Double} {x : ℚ} (h : d.RoundsTo x) :
    lowAt d.rank * unit ≤ x ∧ x ≤ highAt d.rank * unit := by
  rw [RoundsTo] at h
  split at h
  · exact h
  · exact ⟨h.1.le, h.2.le⟩

theorem unit_pos : 0 < unit := by
  rw [unit]
  positivity

theorem significand_mod_two (d : Double) : d.significand % 2 = d.rank % 2 := by
  rw [significand_eq, significandAt]
  split <;> simp only [implicitBit] at * <;> omega

/-- A number does not round to two magnitudes of which one is less than the other. -/
theorem not_lt_of_roundsTo {d d' : Double} {x : ℚ} (h : d.RoundsTo x) (h' : d'.RoundsTo x) :
    ¬d.rank < d'.rank := by
  intro hlt
  have hends : lowAt d'.rank ≤ highAt d.rank := by
    have := le_of_mul_le_mul_right (h'.mem.1.trans h.mem.2) unit_pos
    exact_mod_cast this
  have hnext : lowAt (d.rank + 1) ≤ lowAt d'.rank := strictMono_lowAt.monotone hlt
  rw [← highAt_eq] at hnext
  have hsame : highAt d.rank = lowAt d'.rank := Nat.le_antisymm hnext hends
  have hsucc : d'.rank = d.rank + 1 := strictMono_lowAt.injective (by rw [← hsame, highAt_eq])
  have hx : x = highAt d.rank * unit := le_antisymm h.mem.2 (hsame ▸ h'.mem.1)
  -- the end of both intervals belongs to one of them only
  have heven : d.rank % 2 = 0 := by
    by_contra hodd
    rw [RoundsTo, significand_mod_two, if_neg hodd] at h
    exact h.2.ne hx
  have heven' : d'.rank % 2 = 0 := by
    by_contra hodd
    rw [RoundsTo, significand_mod_two, if_neg hodd] at h'
    exact h'.1.ne' (hx.trans (by rw [hsame]))
  omega

/-- **A number rounds to one magnitude at most.** -/
theorem rank_eq_of_roundsTo {d d' : Double} {x : ℚ} (h : d.RoundsTo x) (h' : d'.RoundsTo x) :
    d.rank = d'.rank :=
  Nat.le_antisymm (Nat.not_lt.1 (not_lt_of_roundsTo h' h)) (Nat.not_lt.1 (not_lt_of_roundsTo h h'))

theorem isZero_iff {d : Double} : d.isZero = true ↔ d.rank = 0 := by
  rw [isZero, beq_iff_eq, rank, ← UInt64.toNat_inj]
  rfl

theorem rank_pos {d : Double} (hd : d.isZero = false) : 0 < d.rank := by
  refine Nat.pos_of_ne_zero fun hzero => ?_
  rw [isZero_iff.2 hzero] at hd
  cases hd

/-- What rounds to a double that is not zero is positive. -/
theorem pos_of_roundsTo {d : Double} {x : ℚ} (hd : d.isZero = false) (h : d.RoundsTo x) :
    0 < x := by
  have hlow : 0 < lowAt d.rank :=
    Nat.lt_of_le_of_lt (Nat.zero_le _) (strictMono_lowAt (rank_pos hd))
  have hpos : (0 : ℚ) < lowAt d.rank * unit := mul_pos (by exact_mod_cast hlow) unit_pos
  exact hpos.trans_le h.mem.1

end Double

end EventFlow

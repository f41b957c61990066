import EventFlow.Proofs.Double.Interval
import Mathlib.Tactic.FieldSimp

/-!
# The shortest decimal of a double

The decimal that a double is written with rounds to the double.  The search looks at decimals of one
digit first and of seventeen digits last, and takes none that does not round to the double; that it
takes one at all is because seventeen digits are always enough.

## What is here

* `Decimal.value` is the number that a decimal denotes.
* `Double.fits_iff`: the test of the search decides whether a decimal rounds to the double.
* `Double.fits_nearest`: of seventeen digits the nearest decimal passes it.
* **`Double.roundsTo_shortest`** puts the two together.
-/

set_option autoImplicit false

namespace EventFlow

/-- The number that a decimal denotes. -/
def Decimal.value (x : Decimal) : ℚ := x.digits * 10 ^ x.exponent

/-! ## Fractions -/

section Fractions

variable {num den : Nat}

theorem scaleFraction_spec (num base : Nat) (power : Int) (hden : 0 < den) (hbase : 0 < base) :
    0 < (scaleFraction num den base power).2 ∧
      ((scaleFraction num den base power).1 : ℚ) / (scaleFraction num den base power).2 =
        num / den * (base : ℚ) ^ power := by
  have hb : (base : ℚ) ≠ 0 := by exact_mod_cast hbase.ne'
  have hd : (den : ℚ) ≠ 0 := by exact_mod_cast hden.ne'
  rw [scaleFraction]
  split
  · next h =>
    obtain ⟨k, rfl⟩ := Int.eq_ofNat_of_zero_le h
    refine ⟨hden, ?_⟩
    simp only [Int.toNat_natCast, Nat.pow_eq, Nat.cast_mul, Nat.cast_pow, zpow_natCast]
    ring
  · next h =>
    obtain ⟨k, hk⟩ := Int.eq_ofNat_of_zero_le (show 0 ≤ -power by omega)
    obtain rfl : power = -(k : Int) := by omega
    simp only [neg_neg, Int.toNat_natCast, Nat.pow_eq]
    refine ⟨Nat.mul_pos hden (Nat.pow_pos hbase), ?_⟩
    rw [zpow_neg, zpow_natCast, Nat.cast_mul, Nat.cast_pow]
    field_simp

/-- A quotient is rounded by half a unit at most. -/
theorem divNearestEven_spec (hden : 0 < den) :
    (num : ℚ) / den - 1 / 2 ≤ divNearestEven num den ∧
      (divNearestEven num den : ℚ) ≤ num / den + 1 / 2 := by
  have hbounds : 2 * num ≤ 2 * (den * divNearestEven num den) + den ∧
      2 * (den * divNearestEven num den) ≤ 2 * num + den := by
    have hdiv := Nat.div_add_mod num den
    have hlt := Nat.mod_lt num hden
    have hsucc : den * (num / den + 1) = den * (num / den) + den := Nat.mul_succ ..
    simp only [divNearestEven]
    split
    · omega
    · split
      · rw [hsucc]
        omega
      · split
        · omega
        · rw [hsucc]
          omega
  have hd : (0 : ℚ) < den := by exact_mod_cast hden
  have hlow : (2 * num : ℚ) ≤ 2 * (den * divNearestEven num den) + den := by
    exact_mod_cast hbounds.1
  have hhigh : (2 * (den * divNearestEven num den) : ℚ) ≤ 2 * num + den := by
    exact_mod_cast hbounds.2
  constructor
  · rw [sub_le_iff_le_add, div_le_iff₀ hd]
    linarith
  · rw [← sub_le_iff_le_add, le_div_iff₀ hd]
    linarith

theorem lt_pow_digitCount (n : Nat) : n < 10 ^ digitCount n :=
  (Nat.length_toDigits_le_iff (by decide) Nat.length_toDigits_pos).1 (Nat.le_refl _)

theorem pow_digitCount_le {n : Nat} (hn : 0 < n) : 10 ^ (digitCount n - 1) ≤ n := by
  rcases Nat.eq_zero_or_pos (digitCount n - 1) with hzero | hpos
  · rw [hzero]
    exact hn
  · refine Nat.not_lt.1 fun hlt => ?_
    have := (Nat.length_toDigits_le_iff (by decide) hpos).2 hlt
    rw [← digitCount] at this
    omega

/-- The power of ten above a fraction is not more than ten times as great. -/
theorem zpow_leadingPower_le (hnum : 0 < num) (hden : 0 < den) :
    (10 : ℚ) ^ Double.leadingPower num den ≤ 10 * (num / den) := by
  have hd : (0 : ℚ) < den := by exact_mod_cast hden
  rw [Double.leadingPower]
  simp only
  generalize hguess : (digitCount num : Int) - digitCount den = guess
  have hscaled := scaleFraction_spec num 10 (-guess) hden (by decide)
  generalize scaleFraction num den 10 (-guess) = scaled at hscaled
  obtain ⟨n, d⟩ := scaled
  simp only at hscaled ⊢
  split
  · -- the numerator has a leading digit, and the denominator has no digits in front of its first
    have hlow : (10 : ℚ) ^ (digitCount num - 1) ≤ num := by exact_mod_cast pow_digitCount_le hnum
    have hhigh : (den : ℚ) ≤ 10 ^ digitCount den := by
      exact_mod_cast (lt_pow_digitCount den).le
    have hcount : 0 < digitCount num := Nat.length_toDigits_pos
    rw [← mul_div_assoc, le_div_iff₀ hd]
    calc (10 : ℚ) ^ guess * den ≤ 10 ^ guess * 10 ^ digitCount den := by gcongr
      _ = 10 * 10 ^ (digitCount num - 1) := by
        rw [← zpow_natCast, ← zpow_natCast, ← zpow_add₀ (by norm_num),
          ← zpow_one_add₀ (by norm_num)]
        congr 1
        omega
      _ ≤ 10 * num := by gcongr
  · next hge =>
    have hone : (1 : ℚ) ≤ num / den * 10 ^ (-guess) := by
      rw [Nat.cast_ofNat] at hscaled
      rw [← hscaled.2, one_le_div (by exact_mod_cast hscaled.1)]
      exact_mod_cast Nat.not_lt.1 hge
    rw [zpow_neg, ← div_eq_mul_inv, one_le_div (by positivity)] at hone
    rw [zpow_add_one₀ (by norm_num), mul_comm]
    gcongr

end Fractions

/-! ## Decimals that round to a double -/

namespace Decimal

theorem value_dropZeros (fuel : Nat) (x : Decimal) : (dropZeros fuel x).value = x.value := by
  induction fuel generalizing x with
  | zero => rfl
  | succ fuel ih =>
    rw [dropZeros]
    split
    · next h =>
      rw [ih, value, value, zpow_add_one₀ (by norm_num)]
      have hdigits : (x.digits : ℚ) = 10 * (x.digits / 10 : Nat) := by
        exact_mod_cast (Nat.mul_div_cancel' (Nat.dvd_of_mod_eq_zero h.1)).symm
      rw [hdigits]
      ring
    · rfl

end Decimal

namespace Double

variable {d : Double}

/-- Whether a number of units of a grid rounds to a double. -/
def fits (d : Double) (grid : Int) (k : Nat) : Bool :=
  let (low, _, high, den) := d.roundingInterval
  let (n, m) := scaleFraction k 1 10 grid
  if d.significand % 2 = 0 then low * m ≤ n * den ∧ n * den ≤ high * m
  else low * m < n * den ∧ n * den < high * m

/-- The unit of the decimals with a number of digits. -/
def gridOf (d : Double) (count : Nat) : Int :=
  let (_, value, _, den) := d.roundingInterval
  leadingPower value den - count

/-- A double in units of a grid, rounded down. -/
def below (d : Double) (grid : Int) : Nat :=
  let (_, value, _, den) := d.roundingInterval
  let (n, m) := scaleFraction value den 10 (-grid)
  n / m

/-- A double in units of a grid, rounded. -/
def nearest (d : Double) (grid : Int) : Nat :=
  let (_, value, _, den) := d.roundingInterval
  let (n, m) := scaleFraction value den 10 (-grid)
  divNearestEven n m

/-- The search tries three decimals for each number of digits. -/
theorem withDigits?_eq (d : Double) (count : Nat) : d.withDigits? count =
    let grid := d.gridOf count
    if d.fits grid (d.nearest grid) then some ⟨d.nearest grid, grid⟩
    else if d.fits grid (d.below grid) then some ⟨d.below grid, grid⟩
    else if d.fits grid (d.below grid + 1) then some ⟨d.below grid + 1, grid⟩
    else none := by
  rw [withDigits?]
  rfl

theorem roundingInterval_spec (d : Double) : ∃ low value high den,
    d.roundingInterval = (low, value, high, den) ∧ 0 < den ∧
      (low : ℚ) / den = lowAt d.rank * unit ∧ (value : ℚ) / den = d.value ∧
      (high : ℚ) / den = highAt d.rank * unit := by
  rw [lowAt_rank, value_eq, highAt_rank, roundingInterval]
  generalize (if d.significand = implicitBit ∧ -1074 < d.exponent then 4 * d.significand - 1
    else 4 * d.significand - 2) = low
  generalize d.exponent - 2 = q
  simp only
  split
  · next h =>
    obtain ⟨k, rfl⟩ := Int.eq_ofNat_of_zero_le h
    refine ⟨_, _, _, _, rfl, Nat.one_pos, ?_, ?_, ?_⟩ <;>
      rw [Int.toNat_natCast, Nat.pow_eq, zpow_natCast, Nat.cast_one, div_one] <;> push_cast <;> rfl
  · next h =>
    obtain ⟨k, hk⟩ := Int.eq_ofNat_of_zero_le (show 0 ≤ -q by omega)
    obtain rfl : q = -(k : Int) := by omega
    refine ⟨_, _, _, _, rfl, Nat.pow_pos (by decide), ?_, ?_, ?_⟩ <;>
      rw [neg_neg, Int.toNat_natCast, Nat.pow_eq, zpow_neg, zpow_natCast, ← div_eq_mul_inv] <;>
      push_cast <;> rfl

/-- **The test decides whether a decimal rounds to the double.** -/
theorem fits_iff (d : Double) (grid : Int) (k : Nat) :
    d.fits grid k = true ↔ d.RoundsTo (k * 10 ^ grid) := by
  obtain ⟨low, v, high, den, heq, hden, hlow, -, hhigh⟩ := roundingInterval_spec d
  have hscaled := scaleFraction_spec k 10 grid Nat.one_pos (by decide)
  rw [fits, heq]
  generalize scaleFraction k 1 10 grid = scaled at hscaled
  obtain ⟨n, m⟩ := scaled
  simp only at hscaled ⊢
  have hd : (0 : ℚ) < den := by exact_mod_cast hden
  have hm : (0 : ℚ) < m := by exact_mod_cast hscaled.1
  have hx : (k : ℚ) * 10 ^ grid = n / m := by
    rw [hscaled.2, Nat.cast_one, div_one, Nat.cast_ofNat]
  rw [RoundsTo, hx, ← hlow, ← hhigh, div_le_div_iff₀ hd hm, div_le_div_iff₀ hm hd,
    div_lt_div_iff₀ hd hm, div_lt_div_iff₀ hm hd]
  split <;> (rw [decide_eq_true_iff]; norm_cast)

theorem roundsTo_of_withDigits? {count : Nat} {x : Decimal} (h : d.withDigits? count = some x) :
    d.RoundsTo x.value := by
  rw [withDigits?_eq] at h
  simp only at h
  split at h
  · next hfits =>
    cases h
    exact (fits_iff ..).1 hfits
  · split at h
    · next hfits =>
      cases h
      exact (fits_iff ..).1 hfits
    · split at h
      · next hfits =>
        cases h
        exact (fits_iff ..).1 hfits
      · cases h

/-! ## Seventeen digits -/

theorem significand_lt (d : Double) : d.significand < 2 ^ 53 := by
  have hlt : d.rank % implicitBit < implicitBit := Nat.mod_lt _ (by decide)
  rw [significand_eq, significandAt]
  split <;> simp only [implicitBit] at * <;> omega

theorem significand_pos (hd : d.isZero = false) : 0 < d.significand := by
  have hrank := rank_pos hd
  rw [significand_eq, significandAt]
  split <;> simp only [implicitBit] at * <;> omega

theorem value_pos (hd : d.isZero = false) : 0 < d.value := by
  rw [value]
  have : (0 : ℚ) < d.significand := by exact_mod_cast significand_pos hd
  positivity

/-- The nearest decimal with seventeen digits is off by half a unit of its grid at most, and this is
a small part of the double. -/
theorem nearest_spec (hd : d.isZero = false) : (10 : ℚ) ^ d.gridOf 17 * 10 ^ 16 ≤ d.value ∧
    d.value - 10 ^ d.gridOf 17 / 2 ≤ d.nearest (d.gridOf 17) * 10 ^ d.gridOf 17 ∧
    d.nearest (d.gridOf 17) * 10 ^ d.gridOf 17 ≤ d.value + 10 ^ d.gridOf 17 / 2 := by
  obtain ⟨low, v, high, den, heq, hden, -, hvalue, -⟩ := roundingInterval_spec d
  have hv : 0 < v := by
    refine Nat.pos_of_ne_zero fun hzero => ?_
    have hpos := value_pos hd
    rw [← hvalue, hzero, Nat.cast_zero, zero_div] at hpos
    exact lt_irrefl _ hpos
  have hlead := zpow_leadingPower_le hv hden
  rw [gridOf, nearest, heq]
  simp only
  generalize hg : leadingPower v den - (17 : Nat) = grid
  have hscaled := scaleFraction_spec v 10 (-grid) hden (by decide)
  generalize scaleFraction v den 10 (-grid) = scaled at hscaled
  obtain ⟨n, m⟩ := scaled
  simp only at hscaled ⊢
  have hround := @divNearestEven_spec n m hscaled.1
  rw [hscaled.2, hvalue, zpow_neg, ← div_eq_mul_inv, Nat.cast_ofNat] at hround
  have hunit : (0 : ℚ) < 10 ^ grid := by positivity
  refine ⟨?_, ?_, ?_⟩
  · rw [hvalue] at hlead
    have hsplit : (10 : ℚ) ^ leadingPower v den = 10 ^ grid * 10 ^ 17 := by
      rw [← zpow_natCast, ← zpow_add₀ (by norm_num), ← hg]
      congr 1
      omega
    rw [hsplit] at hlead
    linarith
  · have := mul_le_mul_of_nonneg_right hround.1 hunit.le
    rw [sub_mul, div_mul_cancel₀ _ hunit.ne'] at this
    linarith
  · have := mul_le_mul_of_nonneg_right hround.2 hunit.le
    rw [add_mul, div_mul_cancel₀ _ hunit.ne'] at this
    linarith

/-- **Seventeen digits are enough**: the nearest decimal with so many of them rounds to the
double. -/
theorem fits_nearest (hd : d.isZero = false) : d.fits (d.gridOf 17) (d.nearest (d.gridOf 17)) := by
  rw [fits_iff]
  obtain ⟨hunit, hlow, hhigh⟩ := nearest_spec hd
  have hlt : (d.significand : ℚ) < 2 ^ 53 := by exact_mod_cast significand_lt d
  have hu : (0 : ℚ) < 2 ^ (d.exponent - 2) := by positivity
  -- a unit of the grid is less than four quarters of a unit of the significand
  have hproduct := mul_lt_mul_of_pos_right hlt hu
  rw [value_eq] at hunit hlow hhigh
  push_cast at hunit hlow hhigh
  refine roundsTo_of_lt (lt_of_lt_of_le ?_ hlow) (lt_of_le_of_lt hhigh ?_)
  · rw [lowAt_rank]
    have hpos := significand_pos hd
    split
    · next hspecial =>
      have hleast : (d.significand : ℚ) = 2 ^ 52 := by
        rw [hspecial.1, implicitBit]
        norm_num
      rw [Nat.cast_sub (by omega)]
      push_cast
      rw [hleast] at hunit ⊢
      linarith
    · rw [Nat.cast_sub (by omega)]
      push_cast
      linarith
  · rw [highAt_rank]
    push_cast
    linarith

/-- **The decimal that a double is written with rounds to it.** -/
theorem roundsTo_shortest (hd : d.isZero = false) : d.RoundsTo d.shortest.value := by
  rw [shortest, Decimal.value_dropZeros]
  cases hfound : (List.range 17).findSome? fun n => d.withDigits? (n + 1) with
  | none =>
    have hnone := List.findSome?_eq_none_iff.1 hfound 16 (by decide)
    rw [withDigits?_eq] at hnone
    simp only [fits_nearest hd] at hnone
    cases hnone
  | some x =>
    obtain ⟨n, -, hx⟩ := List.exists_of_findSome?_eq_some hfound
    exact roundsTo_of_withDigits? hx

end Double

end EventFlow

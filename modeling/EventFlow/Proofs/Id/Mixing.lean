import EventFlow.Id
import Mathlib.Data.List.Sublists
import Mathlib.Logic.Function.Basic

/-!
# Mixing loses nothing

`mix` scrambles a word in five steps: three folds of the upper bits onto the lower ones, and between
them two multiplications by odd numbers.  Each step can be undone, so different words are mixed to
different words.

Words of identifiers are stamped after they have been mixed, four bits of the high word and two bits
of the low word, and the low word is mixed from the high one.  For two identifiers to be equal,
words that differ in the first four bits only must be mixed to words that differ in the last two
only.  There are none, which shows when one goes through the steps from both ends.  Changing some
bits of a word adds or subtracts each of them, so there are few distances that it can make, and few
products of these with the number that comes next.  Between the two multiplications is a fold that
leaves the ten highest bits alone, and there the distances from the two ends do not meet.

## What is here

* `fold` and `refold`, which undo each other; `unmix`, and **`mix_bijective`**.
* `AgreeOutside mask x y`: the words `x` and `y` differ in bits of `mask` only.
* `flips bs` lists the distances to the word that differs in the bits `bs` (`exists_flip`).
* `top` is what the ten highest bits say; sums reach them with a carry at most (`top_add`), so
  distances on both sides of a fold are near (`top_near`), and `tops_apart` says that they are not.
* **`eq_of_mix_agree`**: words that differ in bits of the version only, and mixed in bits of the
  variant only, are equal.
-/

set_option autoImplicit false

namespace EventFlow

namespace Word

/-! ## Undoing the steps -/

/-- A word with its upper bits laid over the lower ones. -/
def fold (s z : UInt64) : UInt64 := z ^^^ (z >>> s)

/-- The word that was folded, when three shifts leave nothing of a word. -/
def refold (s z : UInt64) : UInt64 := z ^^^ (z >>> s) ^^^ (z >>> s >>> s)

section Steps

variable {s : UInt64}

theorem shiftRight_thrice (hs : s.toNat < 64) (h : 64 ≤ 3 * s.toNat) (z : UInt64) :
    z >>> s >>> s >>> s = 0 := by
  apply UInt64.toNat_inj.1
  simp only [UInt64.toNat_shiftRight, Nat.mod_eq_of_lt hs, ← Nat.shiftRight_add]
  refine Nat.shiftRight_eq_zero _ _ (Nat.lt_of_lt_of_le z.toNat_lt ?_)
  exact Nat.pow_le_pow_right (by decide) (by omega)

theorem refold_fold (hs : s.toNat < 64) (h : 64 ≤ 3 * s.toNat) (z : UInt64) :
    refold s (fold s z) = z := by
  simp [refold, fold, UInt64.shiftRight_xor, shiftRight_thrice hs h, UInt64.xor_assoc]

theorem fold_refold (hs : s.toNat < 64) (h : 64 ≤ 3 * s.toNat) (z : UInt64) :
    fold s (refold s z) = z := by
  simp [refold, fold, UInt64.shiftRight_xor, shiftRight_thrice hs h, UInt64.xor_assoc]

theorem fold_xor (s x y : UInt64) : fold s (x ^^^ y) = fold s x ^^^ fold s y := by
  simp only [fold, UInt64.shiftRight_xor]
  ac_rfl

theorem refold_xor (s x y : UInt64) : refold s (x ^^^ y) = refold s x ^^^ refold s y := by
  simp only [refold, UInt64.shiftRight_xor]
  ac_rfl

/-- A multiplication is undone by one that takes the factor to one. -/
theorem mul_mul_of_eq_one {c d : UInt64} (h : c * d = 1) (z : UInt64) : z * c * d = z := by
  rw [UInt64.mul_assoc, h, UInt64.mul_one]

end Steps

/-- The word that was mixed. -/
def unmix (z : UInt64) : UInt64 :=
  refold 30 (refold 27 (refold 31 z * 0x319642B2D24D8EC3) * 0x96DE1B173F119089)

theorem mix_eq (z : UInt64) :
    mix z = fold 31 (fold 27 (fold 30 z * 0xBF58476D1CE4E5B9) * 0x94D049BB133111EB) := rfl

theorem unmix_mix (z : UInt64) : unmix (mix z) = z := by
  rw [unmix, mix_eq, refold_fold (by decide) (by decide), mul_mul_of_eq_one (by decide),
    refold_fold (by decide) (by decide), mul_mul_of_eq_one (by decide),
    refold_fold (by decide) (by decide)]

theorem mix_unmix (z : UInt64) : mix (unmix z) = z := by
  rw [unmix, mix_eq, fold_refold (by decide) (by decide), mul_mul_of_eq_one (by decide),
    fold_refold (by decide) (by decide), mul_mul_of_eq_one (by decide),
    fold_refold (by decide) (by decide)]

/-- **Mixing is a bijection of words.** -/
theorem mix_bijective : Function.Bijective mix :=
  Function.bijective_iff_has_inverse.2 ⟨unmix, unmix_mix, mix_unmix⟩

/-! ## Changing bits -/

/-- A word with a single bit. -/
def IsBit (b : UInt64) : Prop := ∃ k < 64, b.toBitVec = BitVec.twoPow 64 k

instance (b : UInt64) : Decidable (IsBit b) :=
  inferInstanceAs (Decidable (∃ k < 64, b.toBitVec = BitVec.twoPow 64 k))

/-- Words with a single bit each. -/
def AreBits (bs : List UInt64) : Prop := ∀ b ∈ bs, IsBit b

-- a list is short, while the type of its words is finite but long
instance (bs : List UInt64) : Decidable (AreBits bs) := List.decidableBAll IsBit bs

/-- The word with some bits. -/
def xorAll (bs : List UInt64) : UInt64 := bs.foldr (· ^^^ ·) 0

/-- How far it can be from a word to the one that differs in some bits. -/
def flips : List UInt64 → List UInt64
  | [] => [0]
  | b :: bs => (flips bs).flatMap fun d => [d + b, d - b]

/-- Two words differ in bits of the mask only. -/
def AgreeOutside (mask x y : UInt64) : Prop := x &&& ~~~mask = y &&& ~~~mask

section Bits

variable {b x y : UInt64} {bs : List UInt64}

/-- A bit is in a word or it is not. -/
theorem IsBit.and_eq (hb : IsBit b) (x : UInt64) : x &&& b = 0 ∨ x &&& b = b := by
  obtain ⟨k, -, hk⟩ := hb
  have hand := BitVec.and_twoPow x.toBitVec k
  rw [← hk, ← UInt64.toBitVec_and] at hand
  split at hand
  · exact .inr (UInt64.toBitVec_inj.1 hand)
  · exact .inl (UInt64.toBitVec_inj.1 hand)

theorem xor_eq_add (h : x &&& y = 0) : x ^^^ y = x + y := by
  have h : x.toBitVec &&& y.toBitVec = 0#64 := congrArg UInt64.toBitVec h
  apply UInt64.toBitVec_inj.1
  rw [UInt64.toBitVec_add, UInt64.toBitVec_xor, BitVec.add_eq_or_of_and_eq_zero _ _ h]
  ext k hk
  have hbit : (x.toBitVec &&& y.toBitVec)[k] = false := by rw [h, BitVec.getElem_zero]
  rw [BitVec.getElem_and] at hbit
  rw [BitVec.getElem_xor, BitVec.getElem_or]
  revert hbit
  cases x.toBitVec[k] <;> cases y.toBitVec[k] <;> decide

theorem xor_and (x y z : UInt64) : (x ^^^ y) &&& z = (x &&& z) ^^^ (y &&& z) := by
  apply UInt64.toNat_inj.1
  simp only [UInt64.toNat_and, UInt64.toNat_xor, Nat.and_xor_distrib_right]

/-- Changing a bit adds or subtracts it. -/
theorem IsBit.xor_eq (hb : IsBit b) (x : UInt64) : x ^^^ b = x + b ∨ x ^^^ b = x - b := by
  rcases hb.and_eq x with h | h
  · exact .inl (xor_eq_add h)
  · have hgone : (x ^^^ b) &&& b = 0 := by rw [xor_and, h, UInt64.and_self, UInt64.xor_self]
    have hadd := xor_eq_add hgone
    rw [UInt64.xor_assoc, UInt64.xor_self, UInt64.xor_zero] at hadd
    refine .inr ?_
    calc x ^^^ b = (x ^^^ b) + b - b := (UInt64.add_sub_cancel _ _).symm
      _ = x - b := by rw [← hadd]

theorem xor_xorAll_cons (x b : UInt64) (bs : List UInt64) :
    x ^^^ xorAll (b :: bs) = (x ^^^ xorAll bs) ^^^ b := by
  rw [xorAll, List.foldr_cons, UInt64.xor_assoc, UInt64.xor_comm b]
  rfl

/-- The word that differs in some bits is at one of their distances. -/
theorem exists_flip (hbs : AreBits bs) (x : UInt64) :
    ∃ d ∈ flips bs, x ^^^ xorAll bs = x + d := by
  induction bs with
  | nil => exact ⟨0, List.mem_singleton_self 0, by rw [xorAll, List.foldr_nil, UInt64.xor_zero,
      UInt64.add_zero]⟩
  | cons b bs ih =>
    obtain ⟨hb, hbs⟩ := List.forall_mem_cons.1 hbs
    obtain ⟨d, hd, hx⟩ := ih hbs
    simp only [flips, List.mem_flatMap, List.mem_pair, xor_xorAll_cons, hx]
    rcases hb.xor_eq (x + d) with h | h <;> rw [h]
    · exact ⟨d + b, ⟨d, hd, .inl rfl⟩, UInt64.add_assoc x d b⟩
    · exact ⟨d - b, ⟨d, hd, .inr rfl⟩, by grind⟩

end Bits

/-! ## The bits that are stamped -/

/-- The bits of a high word that the version overwrites. -/
def versionMask : UInt64 := 0xF000

/-- The bits of a low word that the variant overwrites. -/
def variantMask : UInt64 := 0xC000000000000000

/-- The bits of the version, one by one. -/
def versionBits : List UInt64 := [0x1000, 0x2000, 0x4000, 0x8000]

/-- The bits of the variant, one by one. -/
def variantBits : List UInt64 := [0x4000000000000000, 0x8000000000000000]

section Masks

variable {b e m x y : UInt64} {bits : List UInt64}

theorem xor_split (e b : UInt64) : (e &&& ~~~b) ^^^ (e &&& b) = e := by
  apply UInt64.toBitVec_inj.1
  ext k hk
  simp only [UInt64.toBitVec_xor, UInt64.toBitVec_and, UInt64.toBitVec_not, BitVec.getElem_xor,
    BitVec.getElem_and, BitVec.getElem_not]
  cases e.toBitVec[k] <;> cases b.toBitVec[k] <;> rfl

theorem and_not_and_not (h : e &&& ~~~(b ^^^ m) = 0) : (e &&& ~~~b) &&& ~~~m = 0 := by
  apply UInt64.toBitVec_inj.1
  ext k hk
  have hbit := congrArg (fun z : UInt64 => z.toBitVec[k]) h
  simp only [UInt64.toBitVec_xor, UInt64.toBitVec_and, UInt64.toBitVec_not, BitVec.getElem_xor,
    BitVec.getElem_and, BitVec.getElem_not] at hbit ⊢
  revert hbit
  cases e.toBitVec[k] <;> cases b.toBitVec[k] <;> cases m.toBitVec[k] <;> simp

/-- A word without bits outside a mask has some of the bits of the mask. -/
theorem exists_xorAll (hbits : AreBits bits) (h : e &&& ~~~xorAll bits = 0) :
    ∃ bs ∈ bits.sublists, e = xorAll bs := by
  simp only [List.mem_sublists]
  induction bits generalizing e with
  | nil => exact ⟨[], .slnil, by simpa [xorAll] using h⟩
  | cons b bits ih =>
    obtain ⟨hb, hbits⟩ := List.forall_mem_cons.1 hbits
    obtain ⟨bs, hbs, hrest⟩ := ih hbits (and_not_and_not h)
    have hsplit := xor_split e b
    rw [hrest] at hsplit
    rcases hb.and_eq e with hbit | hbit <;> rw [hbit] at hsplit
    · exact ⟨bs, hbs.cons b, by rw [← hsplit, UInt64.xor_zero]⟩
    · exact ⟨b :: bs, hbs.cons_cons b, by rw [← hsplit, UInt64.xor_comm]; rfl⟩

/-- Words that agree outside a mask differ in some of its bits. -/
theorem AgreeOutside.exists_xorAll (hbits : AreBits bits)
    (h : AgreeOutside (xorAll bits) x y) : ∃ bs ∈ bits.sublists, y = x ^^^ xorAll bs := by
  rw [AgreeOutside] at h
  obtain ⟨bs, hbs, he⟩ := Word.exists_xorAll hbits
    (show (x ^^^ y) &&& ~~~xorAll bits = 0 by rw [xor_and, h, UInt64.xor_self])
  refine ⟨bs, hbs, ?_⟩
  rw [← he, ← UInt64.xor_assoc, UInt64.xor_self, UInt64.zero_xor]

theorem AgreeOutside.xor (h : AgreeOutside m x y) (z : UInt64) :
    AgreeOutside m (x ^^^ z) (y ^^^ z) := by
  rw [AgreeOutside] at h ⊢
  rw [xor_and, h, xor_and]

end Masks

/-! ## Distances -/

/-- What the ten highest bits of a word say. -/
def top (z : UInt64) : Nat := (z >>> 54).toNat

theorem top_eq (z : UInt64) : top z = z.toNat / 18014398509481984 := by
  rw [top, UInt64.toNat_shiftRight, Nat.shiftRight_eq_div_pow]
  rfl

theorem top_fold (z : UInt64) : top (fold 27 z) = top z := by
  have hzero : z >>> 27 >>> 54 = 0 := by
    apply UInt64.toNat_inj.1
    have hz := z.toNat_lt
    have htop := top_eq (z >>> 27)
    rw [UInt64.toNat_shiftRight, Nat.shiftRight_eq_div_pow] at htop
    rw [← top, htop, show (27 : UInt64).toNat % 64 = 27 from rfl, UInt64.toNat_zero]
    omega
  rw [top, fold, UInt64.shiftRight_xor, hzero, UInt64.xor_zero, top]

/-- The ten highest bits of a sum, but for a carry. -/
theorem top_add (x d : UInt64) : ∃ c < 2, top (x + d) = (top x + top d + c) % 1024 := by
  have hx := x.toNat_lt
  have hd := d.toNat_lt
  simp only [top_eq, UInt64.toNat_add]
  by_cases h : x.toNat % 18014398509481984 + d.toNat % 18014398509481984 < 18014398509481984
  · exact ⟨0, by omega, by omega⟩
  · exact ⟨1, by omega, by omega⟩

theorem top_lt (z : UInt64) : top z < 1024 := by
  have := z.toNat_lt
  rw [top_eq]
  omega

/-- Distances on both sides of the second fold are the same in the ten highest bits, but for
carries. -/
theorem top_near {a d e : UInt64} (h : fold 27 (a + d) = fold 27 a + e) :
    (top d + 1025 - top e) % 1024 ≤ 2 := by
  obtain ⟨c, hc, hd⟩ := top_add a d
  obtain ⟨c', hc', he⟩ := top_add (fold 27 a) e
  have htop := top_fold (a + d)
  rw [h, he, hd, top_fold] at htop
  have := top_lt d
  have := top_lt e
  omega

/-- What the last fold makes of a bit, on the way back. -/
def spread (b : UInt64) : List UInt64 := [b, b >>> 31, b >>> 31 >>> 31]

theorem fold_version : ∀ bs ∈ versionBits.sublists, fold 30 (xorAll bs) = xorAll bs := by decide

theorem refold_variant : ∀ cs ∈ variantBits.sublists,
    refold 31 (xorAll cs) = xorAll (cs.flatMap spread) ∧ AreBits (cs.flatMap spread) := by
  decide

/-- What the ten highest bits say of the multiples of some distances. -/
def tops (c : UInt64) (bs : List UInt64) : List Nat := (flips bs).map fun d => top (d * c)

/-- No distance that the version can make meets one that the variant can make. -/
theorem tops_apart : ∀ bs ∈ versionBits.sublists, bs ≠ [] → ∀ cs ∈ variantBits.sublists,
    ∀ t ∈ tops 0xBF58476D1CE4E5B9 bs, ∀ u ∈ tops 0x319642B2D24D8EC3 (cs.flatMap spread),
      2 < (t + 1025 - u) % 1024 := by
  decide +kernel

/-- Between the two multiplications the steps from both ends meet. -/
theorem refold_mix_mul (x : UInt64) :
    refold 31 (mix x) * 0x319642B2D24D8EC3 = fold 27 (fold 30 x * 0xBF58476D1CE4E5B9) := by
  rw [mix_eq, refold_fold (by decide) (by decide), mul_mul_of_eq_one (by decide)]

/-- **No two words that differ in bits of the version only are mixed to words that differ in bits of
the variant only.** -/
theorem eq_of_mix_agree {x y : UInt64} (hxy : AgreeOutside versionMask x y)
    (hmix : AgreeOutside variantMask (mix x) (mix y)) : x = y := by
  have hversion : AreBits versionBits := by decide
  have hvariant : AreBits variantBits := by decide
  rw [show versionMask = xorAll versionBits by decide] at hxy
  rw [show variantMask = xorAll variantBits by decide] at hmix
  obtain ⟨bs, hbs, rfl⟩ := hxy.exists_xorAll hversion
  obtain ⟨cs, hcs, hmix⟩ := hmix.exists_xorAll hvariant
  obtain ⟨hspread, hbits⟩ := refold_variant cs hcs
  by_contra hne
  have hnonempty : bs ≠ [] := by
    rintro rfl
    exact hne (by rw [xorAll, List.foldr_nil, UInt64.xor_zero])
  obtain ⟨d, hd, hforth⟩ :=
    exists_flip (fun b hb => hversion b ((List.mem_sublists.1 hbs).subset hb)) (fold 30 x)
  obtain ⟨e, he, hback⟩ := exists_flip hbits (refold 31 (mix x))
  have hmiddle : fold 27 (fold 30 x * 0xBF58476D1CE4E5B9 + d * 0xBF58476D1CE4E5B9) =
      fold 27 (fold 30 x * 0xBF58476D1CE4E5B9) + e * 0x319642B2D24D8EC3 := by
    have h := refold_mix_mul (x ^^^ xorAll bs)
    rw [hmix, refold_xor, hspread, hback, fold_xor, fold_version bs hbs, hforth, UInt64.add_mul,
      UInt64.add_mul, refold_mix_mul] at h
    exact h.symm
  have hnear := top_near hmiddle
  have hapart := tops_apart bs hbs hnonempty cs hcs _ (List.mem_map_of_mem hd) _
    (List.mem_map_of_mem he)
  omega

end Word

end EventFlow

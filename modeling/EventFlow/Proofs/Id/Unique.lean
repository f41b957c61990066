import EventFlow.Proofs.Id.Mixing
import EventFlow.Proofs.Id.Text

/-!
# Identifiers do not repeat

A source mixes the high word of each identifier from a progression of words with an odd difference,
which comes back to a word only after it has gone through all of them.  Mixing is a bijection, so
the high words do not repeat before that either.  The stamps overwrite bits of both words, but words
that differ in these bits only are not mixed to each other.

## What is here

* `stampVersion_eq_iff` and `stampVariant_eq_iff`: what a stamp hides is what it overwrites.
* `IdSource.after s n` is the source `s` after `n` identifiers, and `IdSource.nth s n` is the text
  of the one that it hands out then; `nthHigh` and `nthLow` are the words behind it.
* `high_eq_iff` and `nthHigh_eq_iff`: numbers tell high words apart.

**`identifiers_do_not_repeat`**: two identifiers of a source are equal exactly when their numbers
differ by a multiple of all words there are.
-/

set_option autoImplicit false

namespace EventFlow

open Word

namespace IdSource

/-! ## Stamps -/

section Stamps

variable {x y c d : UInt64}

theorem and_or_and (h : d &&& c = 0) (x : UInt64) : ((x &&& c) ||| d) &&& c = x &&& c := by
  apply UInt64.toBitVec_inj.1
  ext k hk
  have hbit := congrArg (fun z : UInt64 => z.toBitVec[k]) h
  simp only [UInt64.toBitVec_or, UInt64.toBitVec_and, BitVec.getElem_or,
    BitVec.getElem_and] at hbit ⊢
  revert hbit
  cases x.toBitVec[k] <;> cases c.toBitVec[k] <;> cases d.toBitVec[k] <;> simp

/-- Setting bits that were cleared hides what was there, and nothing else. -/
theorem and_or_eq_iff (h : d &&& c = 0) :
    (x &&& c) ||| d = (y &&& c) ||| d ↔ x &&& c = y &&& c := by
  constructor
  · intro heq
    rw [← and_or_and h x, heq, and_or_and h]
  · intro heq
    rw [heq]

theorem stampVersion_eq_iff : stampVersion x = stampVersion y ↔ AgreeOutside versionMask x y :=
  and_or_eq_iff (by decide)

theorem stampVariant_eq_iff : stampVariant x = stampVariant y ↔ AgreeOutside variantMask x y :=
  and_or_eq_iff (by decide)

/-- Two identifiers are equal when their words differ in nothing but what is stamped. -/
theorem uuidText_stamp_eq_iff {hi hi' lo lo' : UInt64} :
    uuidText (stampVersion hi) (stampVariant lo) = uuidText (stampVersion hi') (stampVariant lo') ↔
      AgreeOutside versionMask hi hi' ∧ AgreeOutside variantMask lo lo' := by
  rw [← stampVersion_eq_iff, ← stampVariant_eq_iff]
  constructor
  · exact uuidText_inj
  · rintro ⟨hhi, hlo⟩
    rw [hhi, hlo]

end Stamps

/-! ## Numbers and words -/

/-- A source that has handed out some identifiers. -/
def after (s : IdSource) : Nat → IdSource
  | 0 => s
  | n + 1 => (s.after n).next.2

/-- The text of the identifier that a source hands out after some others. -/
def nth (s : IdSource) (n : Nat) : String := (s.after n).next.1

/-- The high word of an identifier, before it is stamped. -/
def nthHigh (s : IdSource) (n : Nat) : UInt64 := high s.seed (s.after (n + 1)).issued

/-- The low word of an identifier, before it is stamped. -/
def nthLow (s : IdSource) (n : Nat) : UInt64 := low s.seed (s.nthHigh n)

section Numbers

variable {s : IdSource} {m n : Nat}

theorem after_eq (s : IdSource) (n : Nat) : s.after n = ⟨s.seed, s.issued + .ofNat n⟩ := by
  induction n with
  | zero => simp [after]
  | succ n ih =>
    rw [after, ih, next, UInt64.ofNat_add, ← UInt64.add_assoc]
    rfl

theorem nth_eq (s : IdSource) (n : Nat) :
    s.nth n = uuidText (stampVersion (s.nthHigh n)) (stampVariant (s.nthLow n)) := by
  have hseed : (s.after n).seed = s.seed := by rw [after_eq]
  rw [nth, nthLow, nthHigh, next, hseed]
  rfl

example : (seeded 0).nth 0 = "e220a839-7b1d-4daf-8821-8226ff3cd4bf" := by decide +kernel

/-- Different numbers have different high words. -/
theorem high_eq_iff {seed a b : UInt64} : high seed a = high seed b ↔ a = b := by
  refine ⟨fun h => ?_, fun h => h ▸ rfl⟩
  have hstride : idStride * 0xF1DE83E19937733D = 1 := by decide
  have hsum : seed + a * idStride = seed + b * idStride := mix_bijective.injective h
  rw [← mul_mul_of_eq_one hstride a, (UInt64.add_right_inj seed).1 hsum,
    mul_mul_of_eq_one hstride]

theorem ofNat_eq_iff : UInt64.ofNat m = UInt64.ofNat n ↔ m % UInt64.size = n % UInt64.size := by
  rw [← UInt64.toNat_inj, UInt64.toNat_ofNat', UInt64.toNat_ofNat']

theorem nthHigh_eq_iff : s.nthHigh m = s.nthHigh n ↔ m % UInt64.size = n % UInt64.size := by
  rw [nthHigh, nthHigh, high_eq_iff, after_eq, after_eq, UInt64.add_right_inj, ofNat_eq_iff]
  simp only [UInt64.size]
  omega

/-- Words that are stamped to the same identifier are the same. -/
theorem nthHigh_eq_of_agree (hhigh : AgreeOutside versionMask (s.nthHigh m) (s.nthHigh n))
    (hlow : AgreeOutside variantMask (s.nthLow m) (s.nthLow n)) : s.nthHigh m = s.nthHigh n :=
  (UInt64.xor_left_inj s.seed).1 (eq_of_mix_agree (hhigh.xor s.seed) hlow)

end Numbers

end IdSource

/-- **Identifiers do not repeat.**  Mixing is a bijection of words, and different numbers have
different high words.  Two identifiers of a source are equal only if their high words differ in
nothing but the version, and their low words in nothing but the variant; and this is the case only
for numbers that the count of identifiers does not tell apart. -/
theorem identifiers_do_not_repeat :
    Function.Bijective mix ∧
    (∀ (seed : UInt64) (m n : Nat), m % UInt64.size ≠ n % UInt64.size →
      IdSource.high seed (.ofNat m) ≠ IdSource.high seed (.ofNat n)) ∧
    (∀ (s : IdSource) (m n : Nat), s.nth m = s.nth n ↔
      AgreeOutside versionMask (s.nthHigh m) (s.nthHigh n) ∧
        AgreeOutside variantMask (s.nthLow m) (s.nthLow n)) ∧
    ∀ (s : IdSource) (m n : Nat), s.nth m = s.nth n ↔ m % UInt64.size = n % UInt64.size := by
  have hagree (s : IdSource) (m n : Nat) : s.nth m = s.nth n ↔
      AgreeOutside versionMask (s.nthHigh m) (s.nthHigh n) ∧
        AgreeOutside variantMask (s.nthLow m) (s.nthLow n) := by
    rw [IdSource.nth_eq, IdSource.nth_eq, IdSource.uuidText_stamp_eq_iff]
  refine ⟨mix_bijective, fun seed m n hne heq => hne ?_, hagree, fun s m n => ?_⟩
  · exact IdSource.ofNat_eq_iff.1 (IdSource.high_eq_iff.1 heq)
  · constructor
    · intro h
      obtain ⟨hhigh, hlow⟩ := (hagree s m n).1 h
      exact IdSource.nthHigh_eq_iff.1 (IdSource.nthHigh_eq_of_agree hhigh hlow)
    · intro h
      rw [IdSource.nth_eq, IdSource.nth_eq, IdSource.nthLow, IdSource.nthLow,
        IdSource.nthHigh_eq_iff.2 h]

end EventFlow

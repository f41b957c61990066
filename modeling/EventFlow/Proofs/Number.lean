import EventFlow.Number
import EventFlow.Proofs.Double.Shortest
import Mathlib.Data.List.TakeWhile

/-!
# Numbers are told apart by their texts

An integer is written in digits behind an optional sign.  A double has a point or an exponent as
well, and what it denotes rounds to the double: so two doubles with the same text have the same
magnitude, and the sign in front of it does the rest.

## What is here

* `reading` is the number that digits with a point and an exponent denote.
* `Broken` is what such characters look like, and `Denotes` puts the two together.
* `Double.denotes_body`: a double is written as a number that rounds to it.
* `Unsigned` characters begin with a digit, so that a sign is told from them.
* **`Number.text_injective`**, with `Number.isNumeral_text` on the characters of a text.
-/

set_option autoImplicit false

namespace EventFlow

/-- The characters of numbers. -/
def isNumeral (c : Char) : Bool := c.isDigit || c == '-' || c == '+' || c == '.' || c == 'e'

/-- The exponent behind its letter. -/
def readExponent : List Char → Int
  | '-' :: digits => -(Nat.ofDigitChars 10 digits 0 : Int)
  | '+' :: digits => Nat.ofDigitChars 10 digits 0
  | _ => 0

/-- The number that digits denote that may have a point and an exponent. -/
def reading (cs : List Char) : ℚ :=
  let mantissa := cs.takeWhile (· ≠ 'e')
  let fraction := (mantissa.dropWhile (· ≠ '.')).tail
  Nat.ofDigitChars 10 (mantissa.takeWhile (· ≠ '.') ++ fraction) 0 *
    10 ^ (readExponent (cs.dropWhile (· ≠ 'e')).tail - fraction.length)

/-- Some characters are those of a number without a sign in front of it: they begin with a digit. -/
structure Unsigned (cs : List Char) : Prop where
  numerals : ∀ c ∈ cs, isNumeral c = true
  head : ∃ c rest, cs = c :: rest ∧ c.isDigit = true

/-- Some such characters have a point or an exponent among them. -/
structure Broken (cs : List Char) : Prop extends Unsigned cs where
  mark : '.' ∈ cs ∨ 'e' ∈ cs

/-- Some characters are those of a number that is not an integer in form. -/
def Denotes (cs : List Char) (x : ℚ) : Prop := Broken cs ∧ reading cs = x

section Texts

variable {whole fraction digits mantissa cs cs' : List Char} {c : Char}

theorem isNumeral_of_isDigit (h : c.isDigit = true) : isNumeral c = true := by
  rw [isNumeral, h]
  rfl

theorem notMem_of_isDigit {c : Char} (hc : c.isDigit = false)
    (h : ∀ c ∈ digits, c.isDigit = true) : c ∉ digits := by
  intro hmem
  rw [h c hmem] at hc
  cases hc

theorem unsigned_of_isDigit (h : ∀ c ∈ digits, c.isDigit = true) (hne : digits ≠ []) :
    Unsigned digits := by
  obtain ⟨c, rest, rfl⟩ := List.exists_cons_of_ne_nil hne
  exact ⟨fun x hx => isNumeral_of_isDigit (h x hx), c, rest, rfl, h c List.mem_cons_self⟩

theorem isDigit_toDigits (n : Nat) : ∀ c ∈ Nat.toDigits 10 n, c.isDigit = true := fun _ hc =>
  Nat.isDigit_of_mem_toDigits (by decide) (by decide) hc

theorem Unsigned.append (h : Unsigned cs) (hcs' : ∀ c ∈ cs', isNumeral c = true) :
    Unsigned (cs ++ cs') := by
  obtain ⟨c, rest, rfl, hc⟩ := h.head
  exact ⟨List.forall_mem_append.2 ⟨h.numerals, hcs'⟩, c, rest ++ cs', rfl, hc⟩

/-- A sign is told from what stands behind it. -/
theorem Unsigned.signed_inj {p q : Prop} [Decidable p] [Decidable q] (hcs : Unsigned cs)
    (hcs' : Unsigned cs') (h : (if p then '-' :: cs else cs) = if q then '-' :: cs' else cs') :
    (p ↔ q) ∧ cs = cs' := by
  have hsign {cs : List Char} (hcs : Unsigned cs) (rest : List Char) : '-' :: rest ≠ cs := by
    obtain ⟨c, more, rfl, hc⟩ := hcs.head
    rintro ⟨⟩
    cases hc
  split at h <;> split at h
  · next hp hq => exact ⟨iff_of_true hp hq, (List.cons.inj h).2⟩
  · exact absurd h (hsign hcs' cs)
  · exact absurd h.symm (hsign hcs cs')
  · next hp hq => exact ⟨iff_of_false hp hq, h⟩

theorem e_notMem_point (hw : ∀ c ∈ whole, c.isDigit = true)
    (hf : ∀ c ∈ fraction, c.isDigit = true) : 'e' ∉ whole ++ '.' :: fraction := by
  rw [List.mem_append, List.mem_cons, not_or, not_or]
  exact ⟨notMem_of_isDigit rfl hw, by decide, notMem_of_isDigit rfl hf⟩

/-! ## Points and exponents -/

theorem takeWhile_ne_append {sep : Char} (h : sep ∉ whole) (rest : List Char) :
    (whole ++ sep :: rest).takeWhile (· ≠ sep) = whole := by
  have hall : ∀ c ∈ whole, decide (c ≠ sep) = true := fun c hc =>
    decide_eq_true fun heq => h (heq ▸ hc)
  rw [List.takeWhile_append_of_pos hall]
  simp

theorem dropWhile_ne_append {sep : Char} (h : sep ∉ whole) (rest : List Char) :
    (whole ++ sep :: rest).dropWhile (· ≠ sep) = sep :: rest := by
  have hall : ∀ c ∈ whole, decide (c ≠ sep) = true := fun c hc =>
    decide_eq_true fun heq => h (heq ▸ hc)
  rw [List.dropWhile_append_of_pos hall]
  simp

theorem takeWhile_ne_of_notMem {sep : Char} (h : sep ∉ whole) :
    whole.takeWhile (· ≠ sep) = whole :=
  List.takeWhile_eq_self_iff.2 fun _ hc => decide_eq_true fun heq => h (heq ▸ hc)

theorem dropWhile_ne_of_notMem {sep : Char} (h : sep ∉ whole) : whole.dropWhile (· ≠ sep) = [] :=
  List.dropWhile_eq_nil_iff.2 fun _ hc => decide_eq_true fun heq => h (heq ▸ hc)

theorem readExponent_nil : readExponent [] = 0 := rfl

/-- An exponent scales what stands in front of it. -/
theorem reading_exponent (h : 'e' ∉ mantissa) (tail : List Char) :
    reading (mantissa ++ 'e' :: tail) = reading mantissa * 10 ^ readExponent tail := by
  rw [reading, reading, takeWhile_ne_append h, dropWhile_ne_append h, takeWhile_ne_of_notMem h,
    dropWhile_ne_of_notMem h, List.tail_cons, List.tail_nil, readExponent_nil, mul_assoc,
    ← zpow_add₀ (by norm_num)]
  congr 2
  ring

theorem reading_point (hw : '.' ∉ whole) (he : 'e' ∉ whole ++ '.' :: fraction) :
    reading (whole ++ '.' :: fraction) =
      Nat.ofDigitChars 10 (whole ++ fraction) 0 * 10 ^ (-(fraction.length : Int)) := by
  rw [reading, takeWhile_ne_of_notMem he, dropWhile_ne_of_notMem he, takeWhile_ne_append hw,
    dropWhile_ne_append hw, List.tail_cons, List.tail_nil, readExponent_nil, zero_sub]

theorem reading_digits (hp : '.' ∉ digits) (he : 'e' ∉ digits) :
    reading digits = Nat.ofDigitChars 10 digits 0 := by
  rw [reading, takeWhile_ne_of_notMem he, dropWhile_ne_of_notMem he, takeWhile_ne_of_notMem hp,
    dropWhile_ne_of_notMem hp, List.tail_nil, List.append_nil, readExponent_nil, List.length_nil,
    Nat.cast_zero, sub_zero, zpow_zero, mul_one]

/-- Digits with a point between them denote the number of all digits, scaled down by as many as
stand behind the point. -/
theorem denotes_point (hw : ∀ c ∈ whole, c.isDigit = true) (hne : whole ≠ [])
    (hf : ∀ c ∈ fraction, c.isDigit = true) : Denotes (whole ++ '.' :: fraction)
      (Nat.ofDigitChars 10 (whole ++ fraction) 0 * 10 ^ (-(fraction.length : Int))) := by
  refine ⟨⟨(unsigned_of_isDigit hw hne).append (List.forall_mem_cons.2 ⟨rfl, fun c hc =>
    isNumeral_of_isDigit (hf c hc)⟩), .inl (List.mem_append_right _ List.mem_cons_self)⟩,
    reading_point (notMem_of_isDigit rfl hw) (e_notMem_point hw hf)⟩

/-! ## Doubles -/

namespace Double

theorem isDigit_of_mem_zeros {n : Nat} (hc : c ∈ zeros n) : c.isDigit = true := by
  rw [List.eq_of_mem_replicate hc]
  rfl

variable {power : Int}

/-- Positional notation denotes what its digits do, with the leading one where it should be. -/
theorem denotes_positional (hd : ∀ c ∈ digits, c.isDigit = true) (hne : digits ≠ []) :
    Denotes (positional digits power)
      (Nat.ofDigitChars 10 digits 0 * 10 ^ (power + 1 - digits.length)) := by
  rw [positional]
  split
  · next hneg =>
    have hpoint := @denotes_point ['0'] (zeros ((-power).toNat - 1) ++ digits)
      (List.forall_mem_singleton.2 rfl) nofun fun c hc =>
        (List.mem_append.1 hc).elim isDigit_of_mem_zeros (hd c)
    have hvalue : Nat.ofDigitChars 10 (['0'] ++ (zeros ((-power).toNat - 1) ++ digits)) 0 =
        Nat.ofDigitChars 10 digits 0 := by
      rw [Nat.ofDigitChars_append, Nat.ofDigitChars_append, zeros, Nat.ofDigitChars_replicate_zero]
      rfl
    have hexp : -((zeros ((-power).toNat - 1) ++ digits).length : Int) =
        power + 1 - digits.length := by
      rw [List.length_append, zeros, List.length_replicate]
      omega
    rw [hvalue, hexp] at hpoint
    exact hpoint
  · next hpos =>
    simp only
    split
    · next hle =>
      have hpoint := @denotes_point (digits ++ zeros (power.toNat + 1 - digits.length)) ['0']
        (fun c hc => (List.mem_append.1 hc).elim (hd c) isDigit_of_mem_zeros)
        (List.append_ne_nil_of_left_ne_nil hne _) (List.forall_mem_singleton.2 rfl)
      obtain ⟨k, hk⟩ := Nat.exists_eq_add_of_le hle
      have hexp : power + 1 - digits.length = (k : Nat) := by omega
      rw [hk, Nat.add_sub_cancel_left] at hpoint ⊢
      have hvalue : Nat.ofDigitChars 10 (digits ++ zeros k ++ ['0']) 0 =
          10 * (10 ^ k * Nat.ofDigitChars 10 digits 0) := by
        rw [Nat.ofDigitChars_append, Nat.ofDigitChars_append, zeros,
          Nat.ofDigitChars_replicate_zero]
        rfl
      have hscaled : (Nat.ofDigitChars 10 (digits ++ zeros k ++ ['0']) 0 : ℚ) *
          10 ^ (-(['0'].length : Int)) =
          Nat.ofDigitChars 10 digits 0 * 10 ^ (power + 1 - digits.length) := by
        rw [hvalue, hexp, List.length_singleton, zpow_natCast, Nat.cast_one, zpow_neg, zpow_one]
        push_cast
        ring
      rw [hscaled, List.append_assoc] at hpoint
      rw [List.append_assoc]
      exact hpoint
    · next hlt =>
      have hpoint := @denotes_point (digits.take (power.toNat + 1)) (digits.drop (power.toNat + 1))
        (fun c hc => hd c (List.mem_of_mem_take hc)) (by simpa using hne)
        (fun c hc => hd c (List.mem_of_mem_drop hc))
      have hexp : -((digits.drop (power.toNat + 1)).length : Int) = power + 1 - digits.length := by
        rw [List.length_drop]
        omega
      rw [List.take_append_drop, hexp] at hpoint
      exact hpoint

theorem readExponent_sign (power : Int) :
    readExponent ((if power < 0 then '-' else '+') :: Nat.toDigits 10 power.natAbs) = power := by
  split <;> rw [readExponent, Nat.ofDigitChars_ten_toDigits] <;> omega

/-- Scientific notation denotes what its digits do, with the leading one where it should be. -/
theorem denotes_scientific (hd : ∀ c ∈ digits, c.isDigit = true) (hne : digits ≠ []) :
    Denotes (scientific digits power)
      (Nat.ofDigitChars 10 digits 0 * 10 ^ (power + 1 - digits.length)) := by
  have htail : ∀ c ∈ 'e' :: (if power < 0 then '-' else '+') :: Nat.toDigits 10 power.natAbs,
      isNumeral c = true := by
    refine List.forall_mem_cons.2 ⟨rfl, List.forall_mem_cons.2 ⟨?_, fun c hc => ?_⟩⟩
    · split <;> rfl
    · exact isNumeral_of_isDigit (isDigit_toDigits _ c hc)
  have hwith (mantissa : List Char) (hunsigned : Unsigned mantissa) (he : 'e' ∉ mantissa)
      (hreading : reading mantissa =
        Nat.ofDigitChars 10 digits 0 * 10 ^ (1 - digits.length : Int)) :
      Denotes (mantissa ++ 'e' :: (if power < 0 then '-' else '+') :: Nat.toDigits 10 power.natAbs)
        (Nat.ofDigitChars 10 digits 0 * 10 ^ (power + 1 - digits.length)) := by
    refine ⟨⟨hunsigned.append htail, .inr (List.mem_append_right _ List.mem_cons_self)⟩, ?_⟩
    rw [reading_exponent he, readExponent_sign, hreading, mul_assoc, ← zpow_add₀ (by norm_num)]
    congr 2
    ring
  match digits, hne with
  | [c], hne =>
    refine hwith [c] (unsigned_of_isDigit hd hne) (notMem_of_isDigit rfl hd) ?_
    rw [reading_digits (notMem_of_isDigit rfl hd) (notMem_of_isDigit rfl hd)]
    norm_num
  | lead :: more :: rest, _ =>
    obtain ⟨hlead, hrest⟩ := List.forall_mem_cons.1 hd
    have hone : ∀ c ∈ [lead], c.isDigit = true := List.forall_mem_singleton.2 hlead
    obtain ⟨hbroken, hreading⟩ := denotes_point hone (List.cons_ne_nil _ _) hrest
    refine hwith ([lead] ++ '.' :: more :: rest) hbroken.toUnsigned (e_notMem_point hone hrest) ?_
    rw [hreading, List.singleton_append]
    congr 2

/-- The text of a double without its sign. -/
def body (d : Double) : List Char :=
  if d.isZero then ['0', '.', '0']
  else
    let decimal := d.shortest
    let digits := Nat.toDigits 10 decimal.digits
    let power := decimal.exponent + digits.length - 1
    if leastPositional ≤ power ∧ power ≤ greatestPositional then positional digits power
    else scientific digits power

theorem toList_text (d : Double) :
    d.text.toList = if d.isNegative then '-' :: d.body else d.body := by
  rw [text, String.toList_ofList]
  rfl

/-- **A double is written as its shortest decimal**, and a zero as a zero. -/
theorem denotes_body (d : Double) :
    Denotes d.body (if d.isZero then 0 else d.shortest.value) := by
  rw [body]
  split
  · refine ⟨⟨⟨List.all_eq_true.1 rfl, '0', _, rfl, rfl⟩, .inl (by decide)⟩, ?_⟩
    rw [show ['0', '.', '0'] = ['0'] ++ '.' :: ['0'] from rfl,
      reading_point (by decide) (by decide)]
    simp [Nat.ofDigitChars]
  · have hd := isDigit_toDigits d.shortest.digits
    have hvalue (power : Int) (hp : power = d.shortest.exponent +
        (Nat.toDigits 10 d.shortest.digits).length - 1) :
        (Nat.ofDigitChars 10 (Nat.toDigits 10 d.shortest.digits) 0 : ℚ) *
          10 ^ (power + 1 - (Nat.toDigits 10 d.shortest.digits).length) = d.shortest.value := by
      rw [Nat.ofDigitChars_ten_toDigits, Decimal.value, hp]
      congr 2
      ring
    simp only
    rw [← hvalue _ rfl]
    split
    · exact denotes_positional hd Nat.toDigits_ne_nil
    · exact denotes_scientific hd Nat.toDigits_ne_nil

/-- Two doubles that are written alike but for their signs have the same magnitude. -/
theorem rank_eq_of_body {d d' : Double} (h : d.body = d'.body) : d.rank = d'.rank := by
  have hreading := (denotes_body d).2.symm.trans ((congrArg reading h).trans (denotes_body d').2)
  cases hz : d.isZero <;> cases hz' : d'.isZero <;> rw [hz, hz'] at hreading
  · have hsame : d.shortest.value = d'.shortest.value := by simpa using hreading
    exact rank_eq_of_roundsTo (roundsTo_shortest hz) (hsame ▸ roundsTo_shortest hz')
  · have hzero : d.shortest.value = 0 := by simpa using hreading
    exact absurd hzero (pos_of_roundsTo hz (roundsTo_shortest hz)).ne'
  · have hzero : 0 = d'.shortest.value := by simpa using hreading
    exact absurd hzero (pos_of_roundsTo hz' (roundsTo_shortest hz')).ne
  · rw [isZero_iff.1 hz, isZero_iff.1 hz']

theorem text_injective {d d' : Double} (h : d.text = d'.text) : d = d' := by
  have hlist : d.text.toList = d'.text.toList := congrArg String.toList h
  rw [toList_text, toList_text] at hlist
  obtain ⟨hsign, hbody⟩ :=
    (denotes_body d).1.toUnsigned.signed_inj (denotes_body d').1.toUnsigned hlist
  exact eq_of_rank (Bool.eq_iff_iff.2 hsign) (rank_eq_of_body hbody)

end Double

/-! ## Numbers -/

namespace Number

theorem toList_text_int (i : Int) : (int i).text.toList =
    if i < 0 then '-' :: Nat.toDigits 10 i.natAbs else Nat.toDigits 10 i.natAbs := by
  rw [text, Int.toString_eq_repr, Int.repr_eq_if]
  by_cases hneg : i < 0
  · rw [if_neg (by omega), if_pos hneg, String.toList_append, Nat.toList_repr,
      show (-i).toNat = i.natAbs by omega]
    rfl
  · rw [if_pos (by omega), if_neg hneg, Nat.toList_repr, show i.toNat = i.natAbs by omega]

theorem unsigned_toDigits (n : Nat) : Unsigned (Nat.toDigits 10 n) :=
  unsigned_of_isDigit (isDigit_toDigits n) Nat.toDigits_ne_nil

/-- A text of a double has a point or an exponent, and one of an integer has neither. -/
theorem mark_iff {n : Number} :
    ('.' ∈ n.text.toList ∨ 'e' ∈ n.text.toList) ↔ ∃ d, n = double d := by
  cases n with
  | int i =>
    have hpoint := notMem_of_isDigit (c := '.') rfl (isDigit_toDigits i.natAbs)
    have hexp := notMem_of_isDigit (c := 'e') rfl (isDigit_toDigits i.natAbs)
    rw [toList_text_int]
    split <;> simp [hpoint, hexp]
  | double d =>
    refine iff_of_true ?_ ⟨d, rfl⟩
    rw [text, Double.toList_text]
    split
    · exact (Double.denotes_body d).1.mark.imp (List.mem_cons_of_mem _) (List.mem_cons_of_mem _)
    · exact (Double.denotes_body d).1.mark

/-- A number is written without a sign, or with one in front. -/
theorem exists_unsigned (n : Number) :
    ∃ cs, Unsigned cs ∧ (n.text.toList = cs ∨ n.text.toList = '-' :: cs) := by
  cases n with
  | int i =>
    refine ⟨_, unsigned_toDigits i.natAbs, ?_⟩
    rw [toList_text_int]
    split
    · exact .inr rfl
    · exact .inl rfl
  | double d =>
    refine ⟨_, (Double.denotes_body d).1.toUnsigned, ?_⟩
    rw [text, Double.toList_text]
    split
    · exact .inr rfl
    · exact .inl rfl

/-- A number is written in digits, signs, points and exponents. -/
theorem isNumeral_text (n : Number) : ∀ c ∈ n.text.toList, isNumeral c = true := by
  obtain ⟨cs, hcs, htext | htext⟩ := n.exists_unsigned <;> rw [htext]
  · exact hcs.numerals
  · exact List.forall_mem_cons.2 ⟨rfl, hcs.numerals⟩

/-- A number is written in some characters. -/
theorem text_ne_nil (n : Number) : n.text.toList ≠ [] := by
  obtain ⟨cs, hcs, htext | htext⟩ := n.exists_unsigned <;> rw [htext]
  · obtain ⟨c, rest, rfl, -⟩ := hcs.head
    exact List.cons_ne_nil _ _
  · exact List.cons_ne_nil _ _

/-- **Two numbers with the same text are the same.** -/
theorem text_injective {n n' : Number} (h : n.text = n'.text) : n = n' := by
  have hlist : n.text.toList = n'.text.toList := congrArg String.toList h
  have hkind : (∃ d, n = double d) ↔ ∃ d, n' = double d := by
    rw [← mark_iff, ← mark_iff, hlist]
  cases n with
  | double d =>
    obtain ⟨d', rfl⟩ := hkind.1 ⟨d, rfl⟩
    rw [Double.text_injective h]
  | int i =>
    cases n' with
    | double d' => exact absurd (hkind.2 ⟨d', rfl⟩) nofun
    | int i' =>
      rw [toList_text_int, toList_text_int] at hlist
      obtain ⟨hsign, hdigits⟩ := (unsigned_toDigits _).signed_inj (unsigned_toDigits _) hlist
      have hsame : i.natAbs = i'.natAbs := by
        simpa using congrArg (Nat.ofDigitChars 10 · 0) hdigits
      congr 1
      omega

end Number

end Texts

end EventFlow

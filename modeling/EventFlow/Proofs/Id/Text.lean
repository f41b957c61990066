import EventFlow.Id

/-!
# The text of an identifier

Both words of an identifier are written with hexadecimal digits, all of them, in five groups of
fixed lengths.  So all identifiers are equally long, and the text of one tells its words.

## What is here

* `IdSource.length_next`: how long the identifiers are that are handed out.
* `mod_of_hexDigits`: digits tell the lower part of a word, the part that they are written for.
* **`IdSource.uuidText_inj`**: only the same two words have the same text.
-/

set_option autoImplicit false

namespace EventFlow

/-! ## Lengths -/

theorem length_hexDigits (width : Nat) (n : UInt64) : (hexDigits width n).length = width := by
  induction width generalizing n with
  | zero => rfl
  | succ width ih => rw [hexDigits, List.length_append, ih, List.length_singleton]

/-- How long the text of an identifier is. -/
def idLength : Nat := 36

theorem IdSource.length_next (s : IdSource) : s.next.1.length = idLength := by
  simp only [next, uuidText, String.length_ofList, List.length_append, List.length_cons,
    length_hexDigits, idLength]

/-! ## Reading digits back -/

theorem hexDigit_inj : ∀ m < 16, ∀ n < 16, hexDigit m = hexDigit n → m = n := by decide

theorem toNat_lowest (n : UInt64) : (n &&& 0xF).toNat = n.toNat % 16 := by
  rw [UInt64.toNat_and]
  exact Nat.and_two_pow_sub_one_eq_mod n.toNat 4

theorem toNat_upper (n : UInt64) : (n >>> 4).toNat = n.toNat / 16 := by
  rw [UInt64.toNat_shiftRight]
  exact Nat.shiftRight_eq_div_pow n.toNat 4

/-- Words with the same lowest digits agree as far as these go. -/
theorem mod_of_hexDigits {width : Nat} {m n : UInt64} (h : hexDigits width m = hexDigits width n) :
    m.toNat % Nat.pow 16 width = n.toNat % Nat.pow 16 width := by
  induction width generalizing m n with
  | zero => simp [Nat.mod_one]
  | succ width ih =>
    rw [hexDigits, hexDigits] at h
    obtain ⟨hupper, hlowest⟩ := List.append_inj' h rfl
    have hdigit := hexDigit_inj _ (by rw [toNat_lowest]; omega) _ (by rw [toNat_lowest]; omega)
      (List.singleton_inj.1 hlowest)
    have hrest := ih hupper
    rw [toNat_lowest, toNat_lowest] at hdigit
    rw [toNat_upper, toNat_upper] at hrest
    rw [show Nat.pow 16 (width + 1) = 16 * Nat.pow 16 width from Nat.mul_comm _ _, Nat.mod_mul,
      Nat.mod_mul, hdigit, hrest]

namespace IdSource

/-- **The text of an identifier tells both its words.** -/
theorem uuidText_inj {hi hi' lo lo' : UInt64} (h : uuidText hi lo = uuidText hi' lo') :
    hi = hi' ∧ lo = lo' := by
  have hlen (width : Nat) (m n : UInt64) :
      (hexDigits width m).length = (hexDigits width n).length := by
    rw [length_hexDigits, length_hexDigits]
  rw [uuidText, uuidText, String.ofList_inj] at h
  simp only [List.append_assoc, List.cons_append] at h
  obtain ⟨h8, h⟩ := List.append_inj h (hlen ..)
  obtain ⟨h4, h⟩ := List.append_inj (List.cons.inj h).2 (hlen ..)
  obtain ⟨h4', h⟩ := List.append_inj (List.cons.inj h).2 (hlen ..)
  obtain ⟨l4, h⟩ := List.append_inj (List.cons.inj h).2 (hlen ..)
  have l12 := (List.cons.inj h).2
  have hshift (n : UInt64) : (n >>> 32).toNat = n.toNat / 4294967296 ∧
      (n >>> 16).toNat = n.toNat / 65536 ∧ (n >>> 48).toNat = n.toNat / 281474976710656 := by
    simp only [UInt64.toNat_shiftRight, Nat.shiftRight_eq_div_pow]
    exact ⟨rfl, rfl, rfl⟩
  have hhi := hi.toNat_lt
  have hhi' := hi'.toNat_lt
  have hlo := lo.toNat_lt
  have hlo' := lo'.toNat_lt
  have h8 := mod_of_hexDigits h8
  have h4 := mod_of_hexDigits h4
  have h4' := mod_of_hexDigits h4'
  have l4 := mod_of_hexDigits l4
  have l12 := mod_of_hexDigits l12
  simp only [hshift] at h8 h4 l4
  rw [show Nat.pow 16 8 = 4294967296 from rfl] at h8
  rw [show Nat.pow 16 4 = 65536 from rfl] at h4 h4' l4
  rw [show Nat.pow 16 12 = 281474976710656 from rfl] at l12
  exact ⟨UInt64.toNat_inj.1 (by omega), UInt64.toNat_inj.1 (by omega)⟩

end IdSource

end EventFlow

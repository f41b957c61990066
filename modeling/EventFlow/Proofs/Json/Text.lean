import EventFlow.Json.Text
import EventFlow.Json.Token
import EventFlow.Proofs.Number

/-!
# Values are told apart by their texts

What a value is written as says where it ends: a text that begins with the text of one value, and
does not go on as a number, begins with the text of no other.

## What is here

* `intercalate_append_inj`: items that can be told from what stands behind them can be told from
  each other with separators between them.
* `takeChar?` takes an escaped character off a text, so a string ends at its quote
  (`quoted_append_inj`).
* `kind_eq_of_chars`: the first character of a text is the kind of its value.
* **`chars_append_inj`**: by induction on the value, its text says where it ends.
-/

set_option autoImplicit false

namespace EventFlow

/-! ## Separators -/

/-- **Items with separators between them are told apart up to their end**, if each of them is told
from what may stand behind it. -/
theorem intercalate_append_inj {α : Type} {write : α → List Char} {Stops : List Char → Prop}
    {sep close : Char} (hsep : sep ≠ close) (hstops : ∀ more, Stops (sep :: more))
    {rest rest' : List Char} (hrest : Stops (close :: rest)) (hrest' : Stops (close :: rest'))
    (hclose : ∀ a more tail, Stops more → Stops (close :: tail) → write a ++ more ≠ close :: tail)
    {items items' : List α}
    (hinj : ∀ a ∈ items, ∀ a' ∈ items', ∀ more more', Stops more → Stops more' →
      write a ++ more = write a' ++ more' → a = a' ∧ more = more')
    (h : [sep].intercalate (items.map write) ++ close :: rest =
      [sep].intercalate (items'.map write) ++ close :: rest') : items = items' ∧ rest = rest' := by
  -- what stands behind the first item either closes the list or goes on behind a separator
  have hcons (a : α) (l : List α) (tail : List Char) (htail : Stops (close :: tail)) :
      ∃ more, [sep].intercalate ((a :: l).map write) ++ close :: tail = write a ++ more ∧
        Stops more ∧ ((l = [] ∧ more = close :: tail) ∨
          more = sep :: ([sep].intercalate (l.map write) ++ close :: tail)) := by
    cases l with
    | nil => exact ⟨_, by simp, htail, .inl ⟨rfl, rfl⟩⟩
    | cons b l => exact ⟨_, by simp, hstops _, .inr rfl⟩
  induction items generalizing items' with
  | nil =>
    cases items' with
    | nil => exact ⟨rfl, (List.cons.inj h).2⟩
    | cons a' items' =>
      obtain ⟨more', hmore', hstop', -⟩ := hcons a' items' rest' hrest'
      exact absurd (hmore'.symm.trans h.symm) (hclose a' more' rest hstop' hrest)
  | cons a items ih =>
    obtain ⟨more, hmore, hstop, hnext⟩ := hcons a items rest hrest
    cases items' with
    | nil => exact absurd (hmore.symm.trans h) (hclose a more rest' hstop hrest')
    | cons a' items' =>
      obtain ⟨more', hmore', hstop', hnext'⟩ := hcons a' items' rest' hrest'
      rw [hmore, hmore'] at h
      obtain ⟨rfl, rfl⟩ := hinj a List.mem_cons_self a' List.mem_cons_self _ _ hstop hstop' h
      rcases hnext with ⟨rfl, rfl⟩ | rfl <;> rcases hnext' with ⟨rfl, heq⟩ | heq
      · exact ⟨rfl, (List.cons.inj heq).2⟩
      · exact absurd (List.cons.inj heq).1.symm hsep
      · exact absurd (List.cons.inj heq).1 hsep
      · obtain ⟨rfl, hrests⟩ := ih (fun b hb b' hb' =>
          hinj b (List.mem_cons_of_mem _ hb) b' (List.mem_cons_of_mem _ hb')) (List.cons.inj heq).2
        exact ⟨rfl, hrests⟩

namespace Json

/-! ## Escapes -/

/-- What a character of a string is written as. -/
def escaped (c : Char) : List Char := (pushEscaped "" c).toList

theorem toList_pushEscaped (out : String) (c : Char) :
    (pushEscaped out c).toList = out.toList ++ escaped c := by
  rw [escaped]
  unfold pushEscaped
  repeat' split
  all_goals simp

/-- A control character is read from its code. -/
theorem code?_hexDigit :
    ∀ n < 32, code? ['0', '0', hexDigit (n / 16), hexDigit (n % 16)] = some n := by decide

/-- The character that is written behind a backslash, and what follows it. -/
def takeEscape? : List Char → Option (Char × List Char)
  | 'u' :: a :: b :: c :: d :: rest => (code? [a, b, c, d]).map fun n => (Char.ofNat n, rest)
  | c :: rest => (ofEscape? c).map fun c => (c, rest)
  | [] => none

/-- The first character of the rest of a string, unless that is the quote at its end. -/
def takeChar? : List Char → Option (Char × List Char)
  | c :: rest => if c = '"' then none else if c = '\\' then takeEscape? rest else some (c, rest)
  | [] => none

theorem takeChar?_escaped (c : Char) (rest : List Char) :
    takeChar? (escaped c ++ rest) = some (c, rest) := by
  unfold escaped pushEscaped
  split
  · rfl
  · rfl
  · rfl
  · rfl
  · rfl
  · next hquote hslash _ _ _ =>
    split
    · next h8 => rw [← Char.ofNat_toNat c, h8]; rfl
    · split
      · next h12 => rw [← Char.ofNat_toNat c, h12]; rfl
      · split
        · next hlt => simp [takeChar?, takeEscape?, code?_hexDigit c.toNat hlt, Char.ofNat_toNat]
        · simp only [String.toList_push, String.toList_empty, List.nil_append,
            List.singleton_append, takeChar?]
          rw [if_neg hquote, if_neg hslash]

/-- What a string is written as. -/
def quoted (s : String) : List Char := '"' :: s.toList.flatMap escaped ++ ['"']

theorem toList_foldl_pushEscaped (cs : List Char) (out : String) :
    (cs.foldl pushEscaped out).toList = out.toList ++ cs.flatMap escaped := by
  induction cs generalizing out with
  | nil => simp
  | cons c cs ih =>
    rw [List.foldl_cons, ih, toList_pushEscaped, List.flatMap_cons, List.append_assoc]

theorem toList_pushQuoted (out s : String) :
    (pushQuoted out s).toList = out.toList ++ quoted s := by
  rw [pushQuoted, String.toList_push, String.foldl_eq_foldl_toList, toList_foldl_pushEscaped,
    String.toList_push, quoted]
  simp

/-- Escaped characters are those up to the next quote. -/
theorem escaped_append_inj {cs cs' rest rest' : List Char}
    (h : cs.flatMap escaped ++ '"' :: rest = cs'.flatMap escaped ++ '"' :: rest') :
    cs = cs' ∧ rest = rest' := by
  induction cs generalizing cs' with
  | nil =>
    cases cs' with
    | nil => exact ⟨rfl, List.cons.inj h |>.2⟩
    | cons c' cs' =>
      have hread := congrArg takeChar? h
      rw [List.flatMap_cons, List.append_assoc, takeChar?_escaped] at hread
      cases hread
  | cons c cs ih =>
    have hread := congrArg takeChar? h
    rw [List.flatMap_cons, List.append_assoc, takeChar?_escaped] at hread
    cases cs' with
    | nil => cases hread
    | cons c' cs' =>
      rw [List.flatMap_cons, List.append_assoc, takeChar?_escaped, Option.some_inj,
        Prod.mk.injEq] at hread
      obtain ⟨rfl, hmore⟩ := hread
      obtain ⟨rfl, hrest⟩ := ih hmore
      exact ⟨rfl, hrest⟩

theorem quoted_append_inj {s s' : String} {rest rest' : List Char}
    (h : quoted s ++ rest = quoted s' ++ rest') : s = s' ∧ rest = rest' := by
  simp only [quoted, List.cons_append, List.append_assoc, List.nil_append] at h
  obtain ⟨hs, hrest⟩ := escaped_append_inj (List.cons.inj h).2
  exact ⟨String.toList_inj.1 hs, hrest⟩

/-! ## Texts as characters -/

/-- What a value is written as. -/
def chars (j : Json) : List Char := j.text.toList

/-- What a member of an object is written as. -/
def member (field : String × Json) : List Char := quoted field.1 ++ ':' :: chars field.2

mutual

theorem toList_push (out : String) : ∀ j : Json, (push out j).toList = out.toList ++ chars j
  | .null | .bool true | .bool false => by rw [push, String.toList_append]; rfl
  | .num n => by simp [chars, text, push]
  | .str s => by rw [push, toList_pushQuoted, chars, text, push, toList_pushQuoted]; rfl
  | .arr items => by
    rw [chars, text, push, push, String.toList_push, String.toList_push, toList_pushItems _ items,
      toList_pushItems _ items]
    simp
  | .obj fields => by
    rw [chars, text, push, push, String.toList_push, String.toList_push, toList_pushFields _ fields,
      toList_pushFields _ fields]
    simp

theorem toList_pushItems (out : String) : ∀ items : List Json,
    (pushItems out items).toList = out.toList ++ [','].intercalate (items.map chars)
  | [] => by simp [pushItems]
  | [item] => by rw [pushItems, toList_push _ item]; simp
  | item :: more :: items => by
    rw [pushItems, toList_pushItems _ (more :: items), String.toList_push, toList_push _ item]
    · simp
    · nofun

theorem toList_pushFields (out : String) : ∀ fields : List (String × Json),
    (pushFields out fields).toList = out.toList ++ [','].intercalate (fields.map member)
  | [] => by simp [pushFields]
  | [(k, v)] => by
    rw [pushFields, toList_push _ v, String.toList_push, toList_pushQuoted]
    simp [member]
  | (k, v) :: more :: fields => by
    rw [pushFields, toList_pushFields _ (more :: fields), String.toList_push, toList_push _ v,
      String.toList_push, toList_pushQuoted]
    · simp [member]
    · nofun

end

theorem chars_num (n : Number) : chars (.num n) = n.text.toList := by
  simp [chars, text, push]

theorem chars_str (s : String) : chars (.str s) = quoted s := by
  rw [chars, text, push, toList_pushQuoted]
  rfl

theorem chars_arr (items : List Json) :
    chars (.arr items) = '[' :: ([','].intercalate (items.map chars) ++ [']']) := by
  rw [chars, text, push, String.toList_push, toList_pushItems]
  simp

theorem chars_obj (fields : List (String × Json)) :
    chars (.obj fields) = '\x7b' :: ([','].intercalate (fields.map member) ++ ['\x7d']) := by
  rw [chars, text, push, String.toList_push, toList_pushFields]
  simp

/-! ## Where a text ends -/

/-- Some characters do not go on with a number. -/
def Stops (rest : List Char) : Prop := ∀ c ∈ rest.head?, isNumeral c = false

theorem stops_cons {c : Char} {rest : List Char} (hc : isNumeral c = false) :
    Stops (c :: rest) := by
  rintro _ ⟨⟩
  exact hc

theorem Stops.takeWhile_append {digits rest : List Char} (hrest : Stops rest)
    (hd : ∀ c ∈ digits, isNumeral c = true) : (digits ++ rest).takeWhile isNumeral = digits := by
  rw [List.takeWhile_append_of_pos hd]
  cases rest with
  | nil => simp
  | cons c rest => simp [hrest c rfl]

/-- A number is told from what stands behind it. -/
theorem number_append_inj {n n' : Number} {rest rest' : List Char} (hrest : Stops rest)
    (hrest' : Stops rest') (h : n.text.toList ++ rest = n'.text.toList ++ rest') :
    n = n' ∧ rest = rest' := by
  have htext : n.text.toList = n'.text.toList := by
    rw [← hrest.takeWhile_append n.isNumeral_text, h, hrest'.takeWhile_append n'.isNumeral_text]
  rw [htext] at h
  exact ⟨Number.text_injective (String.toList_inj.1 htext), List.append_cancel_left h⟩

/-- The kinds of values that are told apart by their first characters. -/
inductive Kind
  | null
  | yes
  | no
  | num
  | str
  | arr
  | obj

/-- The kind of a value. -/
def kind : Json → Kind
  | .null => .null
  | .bool true => .yes
  | .bool false => .no
  | .num _ => .num
  | .str _ => .str
  | .arr _ => .arr
  | .obj _ => .obj

/-- The kind of the values that begin with a character. -/
def kindOf? : Char → Option Kind
  | 'n' => some .null
  | 't' => some .yes
  | 'f' => some .no
  | '"' => some .str
  | '[' => some .arr
  | '\x7b' => some .obj
  | c => if isNumeral c then some .num else none

theorem kindOf?_of_isNumeral {c : Char} (h : isNumeral c = true) : kindOf? c = some .num := by
  unfold kindOf?
  split
  any_goals cases h
  rw [if_pos h]

/-- A value begins with a character of its kind. -/
theorem exists_cons_chars (j : Json) : ∃ c rest, chars j = c :: rest ∧ kindOf? c = some j.kind := by
  cases j with
  | null => exact ⟨_, _, rfl, rfl⟩
  | bool value => cases value <;> exact ⟨_, _, rfl, rfl⟩
  | num n =>
    obtain ⟨c, rest, hcs⟩ := List.exists_cons_of_ne_nil n.text_ne_nil
    exact ⟨c, rest, (chars_num n).trans hcs,
      kindOf?_of_isNumeral (n.isNumeral_text c (hcs ▸ List.mem_cons_self))⟩
  | str s => exact ⟨_, _, chars_str s, rfl⟩
  | arr items => exact ⟨_, _, chars_arr items, rfl⟩
  | obj fields => exact ⟨_, _, chars_obj fields, rfl⟩

theorem kind_eq_of_chars {j j' : Json} {rest rest' : List Char}
    (h : chars j ++ rest = chars j' ++ rest') : j.kind = j'.kind := by
  obtain ⟨c, more, hcs, hc⟩ := exists_cons_chars j
  obtain ⟨c', more', hcs', hc'⟩ := exists_cons_chars j'
  rw [hcs, hcs', List.cons_append, List.cons_append, List.cons.injEq] at h
  rw [h.1, hc'] at hc
  exact (Option.some.inj hc).symm

/-- No value begins with a character of no kind. -/
theorem chars_append_ne {j : Json} {rest rest' : List Char} {c : Char} (hc : kindOf? c = none) :
    chars j ++ rest ≠ c :: rest' := by
  obtain ⟨c', more, hcs, hc'⟩ := exists_cons_chars j
  rw [hcs, List.cons_append]
  rintro ⟨⟩
  rw [hc] at hc'
  cases hc'

theorem member_append_ne {field : String × Json} {rest rest' : List Char} :
    member field ++ rest ≠ '\x7d' :: rest' := by
  rw [member, quoted]
  nofun

/-- **A text begins with the text of at most one value**, if it does not go on as a number. -/
theorem chars_append_inj : ∀ {j j' : Json} {rest rest' : List Char}, j.kind = j'.kind →
    Stops rest → Stops rest' → chars j ++ rest = chars j' ++ rest' → j = j' ∧ rest = rest'
  | .null, .null, _, _, _, _, _, h | .bool true, .bool true, _, _, _, _, _, h
  | .bool false, .bool false, _, _, _, _, _, h => ⟨rfl, List.append_cancel_left h⟩
  | .num n, .num n', _, _, _, hrest, hrest', h => by
    rw [chars_num, chars_num] at h
    obtain ⟨rfl, hmore⟩ := number_append_inj hrest hrest' h
    exact ⟨rfl, hmore⟩
  | .str s, .str s', _, _, _, _, _, h => by
    rw [chars_str, chars_str] at h
    obtain ⟨rfl, hmore⟩ := quoted_append_inj h
    exact ⟨rfl, hmore⟩
  | .arr items, .arr items', rest, rest', _, _, _, h => by
    rw [chars_arr, chars_arr, List.cons_append, List.cons_append, List.append_assoc,
      List.append_assoc, List.cons.injEq] at h
    obtain ⟨rfl, hmore⟩ := intercalate_append_inj (by decide) (fun _ => stops_cons rfl)
      (stops_cons rfl) (stops_cons rfl) (fun _ _ _ _ _ => chars_append_ne rfl)
      (fun item _ item' _ more more' hstop hstop' heq =>
        chars_append_inj (kind_eq_of_chars heq) hstop hstop' heq) h.2
    exact ⟨rfl, hmore⟩
  | .obj fields, .obj fields', rest, rest', _, _, _, h => by
    rw [chars_obj, chars_obj, List.cons_append, List.cons_append, List.append_assoc,
      List.append_assoc, List.cons.injEq] at h
    obtain ⟨rfl, hmore⟩ := intercalate_append_inj (by decide) (fun _ => stops_cons rfl)
      (stops_cons rfl) (stops_cons rfl) (fun _ _ _ _ _ => member_append_ne)
      (fun (k, v) hmem (k', v') _ more more' hstop hstop' heq => by
        have hlt : sizeOf v < sizeOf fields := by
          have hpair := List.sizeOf_lt_of_mem hmem
          rw [Prod.mk.sizeOf_spec] at hpair
          omega
        rw [member, member, List.append_assoc, List.append_assoc] at heq
        obtain ⟨rfl, hvalue⟩ := quoted_append_inj heq
        obtain ⟨rfl, hmore⟩ := chars_append_inj (kind_eq_of_chars (List.cons.inj hvalue).2)
          hstop hstop' (List.cons.inj hvalue).2
        exact ⟨rfl, hmore⟩) h.2
    exact ⟨rfl, hmore⟩
termination_by j => sizeOf j

end Json

end EventFlow

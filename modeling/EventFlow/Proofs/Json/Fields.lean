import EventFlow.Json.Fields
import EventFlow.Proofs.Dict

/-!
# Reading back what was written

Writing a record as JSON and reading it again gives the record, if that is so for each of its parts.
This file has what is needed for parts of every kind: members of objects, lists and maps, values
that may be absent, numbers, and numbers that are written as texts because they are keys.

## What is here

* `Dict.get?_ofList`: a member of an object is the last entry with its key.
* `record?_object` and `tagged?_object`: records are written as objects.
* `listOf?_list`, `dictOf?_map` and `nullable_option`: what is put together can be taken apart.
* `nat?_ofNat` and `int?_ofInt`: a number is read back if there is room for it.
* `Numeral.written?_toString`: the text of a number denotes the number.

Bounds of words are too large to compute with, so where a number is among what is read `simp` is
told to prove its steps instead of having them checked by computing (`-implicitDefEqProofs`).
-/

set_option autoImplicit false

namespace EventFlow

/-! ## Members -/

namespace Dict

variable {κ ν : Type} [DecidableEq κ]

theorem get?_append (d d' : Dict κ ν) (k : κ) :
    get? (d ++ d' : Dict κ ν) k = (get? d k).or (get? d' k) := by
  induction d with
  | nil => rfl
  | cons e d ih =>
    rw [List.cons_append, get?_cons, get?_cons, ih]
    split <;> rfl

variable [LT κ] [DecidableLT κ]

theorem get?_putAll (entries : List (κ × ν)) (d : Dict κ ν) (k : κ) :
    get? (putAll d entries) k = (get? entries.reverse k).or (get? d k) := by
  induction entries generalizing d with
  | nil => rfl
  | cons e entries ih =>
    rw [putAll, List.foldl_cons, ← putAll, ih, List.reverse_cons, get?_append, Option.or_assoc]
    rw [get?_put, get?_cons, get?_nil]
    by_cases h : k = e.1
    · rw [if_pos h, if_pos h.symm, Option.some_or]
    · rw [if_neg h, if_neg (Ne.symm h), Option.none_or]

/-- The entry of a list that counts is the last one with a key. -/
@[simp] theorem get?_ofList (entries : List (κ × ν)) (k : κ) :
    get? (ofList entries) k = get? entries.reverse k := by
  rw [ofList, get?_putAll, empty, get?_nil, Option.or_none]

end Dict

namespace Json

variable {α κ : Type} {read : Json → Option α} {write : α → Json}

@[simp] theorem fields?_object (entries : List (String × Json)) :
    (object entries).fields? = some (Dict.ofList entries) := rfl

@[simp] theorem record?_object (r : Row) (entries : List (String × Json)) :
    (object entries).record? r = some (Dict.ofList entries) := rfl

@[simp] theorem members?_obj (r : Row) (fields : Dict String Json) :
    (obj fields).members? r = some (.ofObject fields) := rfl

/-- A record that is written with its alternative as the first member is of this alternative. -/
theorem tagged?_object {d : Depth} {tag name : String} {rows : List (String × Row)}
    {members : List (String × Json)} (hname : name ∈ rows.map Prod.fst)
    (htag : ∀ e ∈ members, e.1 ≠ tag) :
    (obj (Dict.ofList ((tag, .str name) :: members))).tagged? d tag rows =
      some (name, .ofObject (Dict.ofList ((tag, .str name) :: members))) := by
  have hnone : Dict.get? members.reverse tag = none :=
    Dict.get?_eq_none_iff.2 fun hmem => by
      obtain ⟨e, he, heq⟩ := List.mem_map.1 hmem
      exact htag e (List.mem_reverse.1 he) heq
  have hrequired : required (Dict.ofList ((tag, .str name) :: members)) tag
      (alternative? d (rows.map Prod.fst)) = some name := by
    rw [required, Dict.get?_ofList, List.reverse_cons, Dict.get?_append, hnone, Option.none_or,
      Dict.get?_cons, if_pos rfl]
    exact if_pos hname
  rw [tagged?, hrequired]
  rfl

@[simp] theorem Members.fields_ofObject (fields : Dict String Json) :
    (Members.ofObject fields).fields = fields := rfl

/-- What is found with the reason why it is smaller is what is found. -/
theorem Members.get?_fields {j : Json} (m : Members j) (key : String) :
    Dict.get? m.fields key = (m.get? key).map Subtype.val := by
  unfold Members.get?
  split <;> assumption

/-! ## Equality -/

mutual

/-- Whether two values are equal, also in how their numbers are written. -/
def equal : Json → Json → Bool
  | .null, .null => true
  | .bool a, .bool b => a == b
  | .num a, .num b => a == b
  | .str a, .str b => a == b
  | .arr a, .arr b => equalItems a b
  | .obj a, .obj b => equalFields a b
  | _, _ => false

/-- Whether two lists hold equal values. -/
def equalItems : List Json → List Json → Bool
  | [], [] => true
  | a :: as, b :: bs => equal a b && equalItems as bs
  | _, _ => false

/-- Whether two lists of members hold equal values under the same keys. -/
def equalFields : List (String × Json) → List (String × Json) → Bool
  | [], [] => true
  | (k, a) :: as, (l, b) :: bs => k == l && equal a b && equalFields as bs
  | _, _ => false

end

mutual

theorem equal_iff : ∀ {a b : Json}, equal a b = true ↔ a = b
  | .null, b | .bool _, b | .num _, b | .str _, b => by cases b <;> simp [equal]
  | .arr as, b => by
    cases b with
    | arr bs => rw [equal, equalItems_iff, arr.injEq]
    | _ => simp [equal]
  | .obj as, b => by
    cases b with
    | obj bs => rw [equal, equalFields_iff, obj.injEq]
    | _ => simp [equal]

theorem equalItems_iff : ∀ {as bs : List Json}, equalItems as bs = true ↔ as = bs
  | [], bs => by cases bs <;> simp [equalItems]
  | a :: as, [] => by simp [equalItems]
  | a :: as, b :: bs => by
    rw [equalItems, Bool.and_eq_true, equal_iff, equalItems_iff, List.cons.injEq]

theorem equalFields_iff : ∀ {as bs : List (String × Json)}, equalFields as bs = true ↔ as = bs
  | [], bs => by cases bs <;> simp [equalFields]
  | (k, a) :: as, [] => by simp [equalFields]
  | (k, a) :: as, (l, b) :: bs => by
    rw [equalFields, Bool.and_eq_true, Bool.and_eq_true, beq_iff_eq, equal_iff, equalFields_iff,
      List.cons.injEq, Prod.mk.injEq]

end

instance : DecidableEq Json := fun _ _ => decidable_of_iff _ equal_iff

/-! ## Lists, maps and absent values -/

theorem mapM_map {β γ δ : Type} {f : β → Option γ} {g : δ → β} {v : δ → γ} {items : List δ}
    (h : ∀ a ∈ items, f (g a) = some (v a)) : (items.map g).mapM f = some (items.map v) := by
  induction items with
  | nil => rfl
  | cons a items ih =>
    obtain ⟨ha, hrest⟩ := List.forall_mem_cons.1 h
    rw [List.map_cons, List.mapM_cons, ha, ih hrest]
    rfl

theorem mapM_of_isSome {β γ : Type} {f : β → Option γ} {items : List β}
    (h : ∀ a ∈ items, (f a).isSome = true) : items.mapM f = some (items.filterMap f) := by
  induction items with
  | nil => rfl
  | cons a items ih =>
    obtain ⟨ha, hrest⟩ := List.forall_mem_cons.1 h
    obtain ⟨c, hc⟩ := Option.isSome_iff_exists.1 ha
    rw [List.mapM_cons, hc, ih hrest, List.filterMap_cons_some hc]
    rfl

/-- A list of values that can be read back can be read back. -/
theorem listOf?_list {items : List α} (h : ∀ a ∈ items, read (write a) = some a) :
    listOf? read (list write items) = some items :=
  (mapM_map h).trans (by rw [List.map_id'])

/-- A map is read entry by entry. -/
theorem dictOf?_map {β : Type} (text : κ → String) (write : β → Json) (v : β → α) {d : Dict κ β}
    (h : ∀ e ∈ d, read (write e.2) = some (v e.2)) :
    dictOf? read (.obj (d.map fun e => (text e.1, write e.2))) =
      some (d.map fun e => (text e.1, v e.2)) := by
  refine mapM_map fun e he => ?_
  rw [h e he]
  rfl

/-- A value that may be absent can be read back, if it is not written as `null` when it is there. -/
theorem nullable_option {o : Option α}
    (h : ∀ a ∈ o, (write a).isNull = false ∧ read (write a) = some a) :
    nullable read (option write o) = some o := by
  cases o with
  | none => rfl
  | some a =>
    obtain ⟨hnull, hread⟩ := h a rfl
    rw [option]
    generalize write a = j at hnull hread
    cases j with
    | null => cases hnull
    | _ => rw [nullable, hread] <;> first | rfl | nofun

/-! ## Numbers -/

theorem nat?_ofNat {bound n : Nat} (h : n < bound) : nat? bound (.ofNat n) = some n := by
  rw [ofNat, nat?, if_pos ⟨Int.natCast_nonneg n, Int.ofNat_lt.2 h⟩, Int.toNat_natCast]

theorem nat32?_ofNat {n : Nat} (h : n < UInt32.size) : nat32? (.ofNat n) = some n := nat?_ofNat h

theorem nat64?_ofNat {n : Nat} (h : n < UInt64.size) : nat64? (.ofNat n) = some n := nat?_ofNat h

theorem int32?_ofInt {i : Int} (h : -Numeral.int32Bound ≤ i ∧ i < Numeral.int32Bound) :
    int32? (.ofInt i) = some i :=
  if_pos h

end Json

/-! ## Numbers as texts -/

namespace Numeral

theorem hexValue?_of_isDigit {c : Char} (h : c.isDigit = true) :
    hexValue? c = some (c.toNat - '0'.toNat) ∧ c.toNat - '0'.toNat < 10 := by
  rw [Char.isDigit, Bool.and_eq_true, decide_eq_true_iff, decide_eq_true_iff] at h
  obtain ⟨hlow, hhigh⟩ := h
  refine ⟨if_pos ⟨hlow, hhigh⟩, ?_⟩
  have hle : c.toNat ≤ '9'.toNat := UInt32.le_iff_toNat_le.1 hhigh
  have hnine : '9'.toNat = 57 := rfl
  have hzero : '0'.toNat = 48 := rfl
  omega

/-- Decimal digits denote the number whose digits they are. -/
theorem digits?_of_isDigit {cs : List Char} (hne : cs ≠ [])
    (hall : ∀ c ∈ cs, c.isDigit = true) : digits? cs = some (Nat.ofDigitChars 10 cs 0) := by
  have hfold : ∀ n, cs.foldlM (fun n c => (hexValue? c).bind fun d =>
      if d < 10 then some (10 * n + d) else none) n = some (Nat.ofDigitChars 10 cs n) := by
    clear hne
    induction cs with
    | nil => exact fun n => rfl
    | cons c cs ih =>
      intro n
      obtain ⟨hc, hcs⟩ := List.forall_mem_cons.1 hall
      obtain ⟨hvalue, hlt⟩ := hexValue?_of_isDigit hc
      rw [List.foldlM_cons, hvalue, Option.bind_some, if_pos hlt]
      exact ih hcs _
  rw [digits?, digitsIn?, if_neg (by simpa using hne), hfold 0]

theorem isDigit_of_mem_toString {c : Char} {n : Nat} (h : c ∈ (toString n).toList) :
    c.isDigit = true := by
  rw [show (toString n).toList = Nat.toDigits 10 n from Nat.toList_repr] at h
  exact Nat.isDigit_of_mem_toDigits (by decide) (by decide) h

theorem digits?_toString (n : Nat) : digits? (toString n).toList = some n := by
  have hall : ∀ c ∈ (toString n).toList, c.isDigit = true := fun _ => isDigit_of_mem_toString
  rw [show (toString n).toList = Nat.toDigits 10 n from Nat.toList_repr] at hall ⊢
  rw [digits?_of_isDigit Nat.toDigits_ne_nil hall,
    Nat.ofDigitChars_toDigits (by decide) (by decide)]

theorem toString_inj {m n : Nat} (h : toString m = toString n) : m = n := by
  have hm := digits?_toString m
  rw [h, digits?_toString] at hm
  exact (Option.some.inj hm).symm

/-- The text of a number denotes the number, and is how it is written. -/
theorem written?_toString {bound n : Nat} (h : n < bound) :
    written? bound (toString n) = some n := by
  have hnatural : natural? bound (toString n) = some n := by
    rw [natural?]
    split
    · next cs hcs =>
      have hplus := @isDigit_of_mem_toString '+' n (by rw [hcs]; exact .head _)
      cases hplus
    · rw [digits?_toString, Option.filter_some, if_pos (decide_eq_true h)]
  rw [written?, hnatural, Option.filter_some, if_pos (beq_self_eq_true _)]

end Numeral

end EventFlow

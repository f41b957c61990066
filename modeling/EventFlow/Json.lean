import EventFlow.Dict
import EventFlow.Number

/-!
# JSON values

Payloads, variables and snapshots are JSON.  Objects hold their members in key order
(`EventFlow.Dict`), so two spellings of one object are one value.

`same` is the equality by which patterns, bindings and joins compare values: structural, except
that numbers are compared by `Number.same`.  It is an equivalence, and it is finer than numeric
equality: `1` and `1.0` differ, at any depth.
-/

set_option autoImplicit false

namespace EventFlow

/-- A JSON value. -/
inductive Json
  | null
  | bool (value : Bool)
  | num (value : Number)
  | str (value : String)
  | arr (items : List Json)
  | obj (fields : List (String × Json))
deriving Inhabited

namespace Json

/-- An integer. -/
def ofInt (i : Int) : Json := .num (.int i)

/-- A natural number. -/
def ofNat (n : Nat) : Json := .num (.int n)

/-- The object with the given members. -/
def object (entries : List (String × Json)) : Json := .obj (Dict.ofList entries)

/-- A list of values, each written by `write`. -/
def list {α : Type} (write : α → Json) (items : List α) : Json := .arr (items.map write)

/-- A value that may be absent, which is written as `null`. -/
def option {α : Type} (write : α → Json) : Option α → Json
  | none => .null
  | some a => write a

/-- A list of texts. -/
def texts (items : List String) : Json := list .str items

/-- Whether a value is `null`. -/
def isNull : Json → Bool
  | .null => true
  | _ => false

/-! ## Equality -/

mutual

/-- Whether two values are the same. -/
def same : Json → Json → Bool
  | .null, .null => true
  | .bool a, .bool b => a == b
  | .num a, .num b => a.same b
  | .str a, .str b => a == b
  | .arr a, .arr b => sameItems a b
  | .obj a, .obj b => sameFields a b
  | _, _ => false

/-- Whether two lists hold the same values in the same order. -/
def sameItems : List Json → List Json → Bool
  | [], [] => true
  | a :: as, b :: bs => same a b && sameItems as bs
  | _, _ => false

/-- Whether two lists of members have the same keys with the same values in the same order. -/
def sameFields : List (String × Json) → List (String × Json) → Bool
  | [], [] => true
  | (k, a) :: as, (l, b) :: bs => k == l && same a b && sameFields as bs
  | _, _ => false

end

mutual

theorem same_refl : ∀ a : Json, same a a = true
  | .null => rfl
  | .bool b => by simp [same]
  | .num n => by simp [same, Number.same_refl]
  | .str s => by simp [same]
  | .arr items => by simpa [same] using sameItems_refl items
  | .obj fields => by simpa [same] using sameFields_refl fields

theorem sameItems_refl : ∀ as : List Json, sameItems as as = true
  | [] => rfl
  | a :: as => by simp [sameItems, same_refl a, sameItems_refl as]

theorem sameFields_refl : ∀ as : List (String × Json), sameFields as as = true
  | [] => rfl
  | (k, a) :: as => by simp [sameFields, same_refl a, sameFields_refl as]

end

mutual

theorem same_symm : ∀ {a b : Json}, same a b = true → same b a = true
  | .null, b, h => by cases b <;> simp_all [same]
  | .bool _, b, h => by cases b <;> simp_all [same]
  | .num x, b, h => by
    cases b with
    | num y => exact Number.same_symm (by simpa [same] using h)
    | _ => simp [same] at h
  | .str _, b, h => by cases b <;> simp_all [same]
  | .arr xs, b, h => by
    cases b with
    | arr ys => simpa [same] using sameItems_symm (by simpa [same] using h)
    | _ => simp [same] at h
  | .obj xs, b, h => by
    cases b with
    | obj ys => simpa [same] using sameFields_symm (by simpa [same] using h)
    | _ => simp [same] at h

theorem sameItems_symm : ∀ {as bs : List Json}, sameItems as bs = true → sameItems bs as = true
  | [], bs, h => by cases bs <;> simp_all [sameItems]
  | a :: as, bs, h => by
    cases bs with
    | nil => simp [sameItems] at h
    | cons b bs =>
      simp only [sameItems, Bool.and_eq_true] at h ⊢
      exact ⟨same_symm h.1, sameItems_symm h.2⟩

theorem sameFields_symm : ∀ {as bs : List (String × Json)},
    sameFields as bs = true → sameFields bs as = true
  | [], bs, h => by cases bs <;> simp_all [sameFields]
  | (k, a) :: as, bs, h => by
    cases bs with
    | nil => simp [sameFields] at h
    | cons e bs =>
      obtain ⟨l, b⟩ := e
      simp only [sameFields, Bool.and_eq_true, beq_iff_eq] at h ⊢
      exact ⟨⟨h.1.1.symm, same_symm h.1.2⟩, sameFields_symm h.2⟩

end

mutual

theorem same_trans : ∀ {a b c : Json}, same a b = true → same b c = true → same a c = true
  | .null, b, c, h, h' => by cases b <;> cases c <;> simp_all [same]
  | .bool _, b, c, h, h' => by cases b <;> cases c <;> simp_all [same]
  | .num x, b, c, h, h' => by
    cases b with
    | num y =>
      cases c with
      | num z =>
        simp only [same] at h h' ⊢
        exact Number.same_trans h h'
      | _ => simp [same] at h'
    | _ => simp [same] at h
  | .str _, b, c, h, h' => by cases b <;> cases c <;> simp_all [same]
  | .arr xs, b, c, h, h' => by
    cases b with
    | arr ys =>
      cases c with
      | arr zs =>
        simp only [same] at h h' ⊢
        exact sameItems_trans h h'
      | _ => simp [same] at h'
    | _ => simp [same] at h
  | .obj xs, b, c, h, h' => by
    cases b with
    | obj ys =>
      cases c with
      | obj zs =>
        simp only [same] at h h' ⊢
        exact sameFields_trans h h'
      | _ => simp [same] at h'
    | _ => simp [same] at h

theorem sameItems_trans : ∀ {as bs cs : List Json},
    sameItems as bs = true → sameItems bs cs = true → sameItems as cs = true
  | [], bs, cs, h, h' => by cases bs <;> cases cs <;> simp_all [sameItems]
  | a :: as, bs, cs, h, h' => by
    cases bs with
    | nil => simp [sameItems] at h
    | cons b bs =>
      cases cs with
      | nil => simp [sameItems] at h'
      | cons c cs =>
        simp only [sameItems, Bool.and_eq_true] at h h' ⊢
        exact ⟨same_trans h.1 h'.1, sameItems_trans h.2 h'.2⟩

theorem sameFields_trans : ∀ {as bs cs : List (String × Json)},
    sameFields as bs = true → sameFields bs cs = true → sameFields as cs = true
  | [], bs, cs, h, h' => by cases bs <;> cases cs <;> simp_all [sameFields]
  | (k, a) :: as, bs, cs, h, h' => by
    cases bs with
    | nil => simp [sameFields] at h
    | cons e bs =>
      cases cs with
      | nil => simp [sameFields] at h'
      | cons e' cs =>
        obtain ⟨l, b⟩ := e
        obtain ⟨m, c⟩ := e'
        simp only [sameFields, Bool.and_eq_true, beq_iff_eq] at h h' ⊢
        exact ⟨⟨h.1.1.trans h'.1.1, same_trans h.1.2 h'.1.2⟩, sameFields_trans h.2 h'.2⟩

end

end Json

end EventFlow

/-!
# Finite maps in key order

A `Dict κ ν` is a list of entries that every operation here keeps in increasing key order with each
key once, so that walking it visits the keys in order.  Objects, payloads, bindings and the
engine's tables are all of this form.

The laws of `get?` under `put` and `remove` hold of *every* list of entries, ordered or not: `put`
replaces the first entry of its key or adds one before any entry that could hide it.  Nothing below
needs the order to be a linear one.
-/

set_option autoImplicit false

namespace EventFlow

/-- A finite map from `κ` to `ν`, as its list of entries. -/
abbrev Dict (κ ν : Type) := List (κ × ν)

namespace Dict

variable {κ ν μ : Type}

/-- The map without entries. -/
def empty : Dict κ ν := []

/-- The keys, in order. -/
def keys (d : Dict κ ν) : List κ := d.map Prod.fst

/-- The values, in the order of their keys. -/
def values (d : Dict κ ν) : List ν := d.map Prod.snd

/-- Apply `f` to every value. -/
def mapValues (f : ν → μ) (d : Dict κ ν) : Dict κ μ := d.map fun e => (e.1, f e.2)

section Lookup

variable [DecidableEq κ]

/-- The value of a key. -/
def get? : Dict κ ν → κ → Option ν
  | [], _ => none
  | (k', v) :: rest, k => if k' = k then some v else get? rest k

/-- Whether a key has a value. -/
def has (d : Dict κ ν) (k : κ) : Bool := (get? d k).isSome

/-- Forget a key. -/
def remove (d : Dict κ ν) (k : κ) : Dict κ ν := d.filter fun e => e.1 ≠ k

@[simp] theorem get?_nil (k : κ) : get? ([] : Dict κ ν) k = none := rfl

theorem get?_cons (e : κ × ν) (d : Dict κ ν) (k : κ) :
    get? (e :: d) k = if e.1 = k then some e.2 else get? d k := rfl

theorem get?_remove_self (d : Dict κ ν) (k : κ) : get? (remove d k) k = none := by
  induction d with
  | nil => rfl
  | cons e d ih =>
    by_cases h : e.1 = k
    · simpa [remove, h] using ih
    · simpa [remove, h, get?_cons] using ih

theorem get?_remove_of_ne {k k' : κ} (h : k' ≠ k) (d : Dict κ ν) :
    get? (remove d k) k' = get? d k' := by
  induction d with
  | nil => rfl
  | cons e d ih =>
    by_cases hk : e.1 = k
    · have : e.1 ≠ k' := fun h' => h (h'.symm.trans hk)
      simpa [remove, hk, get?_cons, Ne.symm h] using ih
    · simp only [remove, ne_eq, hk, not_false_eq_true, decide_true, List.filter_cons_of_pos,
        get?_cons]
      rw [← ih]; rfl

theorem mem_of_get? {d : Dict κ ν} {k : κ} {v : ν} (h : get? d k = some v) : (k, v) ∈ d := by
  induction d with
  | nil => simp at h
  | cons e d ih =>
    rw [get?_cons] at h
    split at h
    · next hk => cases h; subst hk; exact List.mem_cons_self
    · exact List.mem_cons_of_mem _ (ih h)

end Lookup

section Order

variable [DecidableEq κ] [LT κ] [DecidableLT κ]

/-- Give a key a value, in place of any earlier one. -/
def put : Dict κ ν → κ → ν → Dict κ ν
  | [], k, v => [(k, v)]
  | (k', v') :: rest, k, v =>
    if k' = k then (k, v) :: rest
    else if k < k' then (k, v) :: (k', v') :: rest
    else (k', v') :: put rest k v

/-- Put every entry of a list in turn, so that the last of several entries of one key stays. -/
def putAll (d : Dict κ ν) (entries : List (κ × ν)) : Dict κ ν :=
  entries.foldl (fun d e => put d e.1 e.2) d

/-- The map holding the entries of a list, the last of several entries of one key. -/
def ofList (entries : List (κ × ν)) : Dict κ ν := putAll empty entries

@[simp] theorem get?_put_self (d : Dict κ ν) (k : κ) (v : ν) : get? (put d k v) k = some v := by
  induction d with
  | nil => simp [put, get?_cons]
  | cons e d ih =>
    obtain ⟨k', v'⟩ := e
    simp only [put]
    split
    · simp [get?_cons]
    · next h =>
      split
      · simp [get?_cons]
      · simp [get?_cons, h, ih]

theorem get?_put_of_ne {k k' : κ} (h : k' ≠ k) (d : Dict κ ν) (v : ν) :
    get? (put d k v) k' = get? d k' := by
  induction d with
  | nil => simp [put, get?_cons, Ne.symm h]
  | cons e d ih =>
    obtain ⟨k₁, v₁⟩ := e
    simp only [put]
    split
    · next h₁ => subst h₁; simp [get?_cons, Ne.symm h]
    · split
      · simp [get?_cons, Ne.symm h]
      · simp [get?_cons, ih]

theorem get?_put (d : Dict κ ν) (k k' : κ) (v : ν) :
    get? (put d k v) k' = if k' = k then some v else get? d k' := by
  split
  · next h => rw [h, get?_put_self]
  · next h => exact get?_put_of_ne h d v

end Order

end Dict

end EventFlow

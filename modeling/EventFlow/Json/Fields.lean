import EventFlow.Json
import EventFlow.Text.Numeral

/-!
# Reading records from JSON

Records are read member by member, and a member is of one of three kinds: `required` members must be
there, `optional` ones may be missing or `null`, and members read by `orElse` may be missing but not
`null`.  A record is an object, of which members nobody asks for are ignored, or an array with the
values of the members in their order (`Row`).  Of an array no item is ignored, and only the last
members may be missing.

An alternative without data is read by `tag?` from its name, or from an object with its name as the
only key and `null` as the value.  The alternative of a record is told by a member, or by the first
item of an array (`tagged?`).  In the parts of such a record, `Depth.inner`, the value of an
alternative without data may be an empty object too, and alternatives of records may be told by
their number (`alternative?`).
-/

set_option autoImplicit false

namespace EventFlow

namespace Json

variable {α : Type}

/-- Whether a value is a part of a record whose alternative is told by one of its parts. -/
inductive Depth
  | outer
  | inner
deriving DecidableEq

/-- The members of an object. -/
def fields? : Json → Option (Dict String Json)
  | .obj fields => some fields
  | _ => none

/-- The items of an array. -/
def items? : Json → Option (List Json)
  | .arr items => some items
  | _ => none

/-- The text of a string. -/
def str? : Json → Option String
  | .str s => some s
  | _ => none

/-- A truth value. -/
def bool? : Json → Option Bool
  | .bool b => some b
  | _ => none

/-- An integer from `least` up to but not including `bound`. -/
def int? (least bound : Int) : Json → Option Int
  | .num (.int i) => if least ≤ i ∧ i < bound then some i else none
  | _ => none

/-- A natural number below `bound`. -/
def nat? (bound : Nat) : Json → Option Nat
  | .num (.int i) => if 0 ≤ i ∧ i < bound then some i.toNat else none
  | _ => none

/-- A natural number of 32 bits. -/
def nat32? (j : Json) : Option Nat := nat? UInt32.size j

/-- A natural number of 64 bits. -/
def nat64? (j : Json) : Option Nat := nat? UInt64.size j

/-- A signed integer of 32 bits. -/
def int32? (j : Json) : Option Int := int? (-Numeral.int32Bound) Numeral.int32Bound j

/-- The name of an alternative without data. -/
def tag? (d : Depth) : Json → Option String
  | .str name => some name
  | .obj [(name, .null)] => some name
  | .obj [(name, .obj [])] => if d = .inner then some name else none
  | _ => none

/-- The name of one of some alternatives, as a part of a record tells it. -/
def alternative? (d : Depth) (names : List String) : Json → Option String
  | .str name => if name ∈ names then some name else none
  | .num (.int i) => if d = .inner ∧ 0 ≤ i then names[i.toNat]? else none
  | _ => none

/-- A list whose every item `read` accepts. -/
def listOf? (read : Json → Option α) (j : Json) : Option (List α) :=
  j.items? >>= fun items => items.mapM read

/-- A map with every value read by `read`. -/
def dictOf? (read : Json → Option α) (j : Json) : Option (Dict String α) :=
  j.fields? >>= fun fields => fields.mapM fun e => (read e.2).map (e.1, ·)

/-- A value or `null`. -/
def nullable (read : Json → Option α) : Json → Option (Option α)
  | .null => some none
  | j => (read j).map some

/-- A member that must be there. -/
def required (fields : Dict String Json) (key : String) (read : Json → Option α) : Option α :=
  (Dict.get? fields key).bind read

/-- A member that may be missing or `null`. -/
def optional (fields : Dict String Json) (key : String) (read : Json → Option α) :
    Option (Option α) :=
  match Dict.get? fields key with
  | none => some none
  | some j => nullable read j

/-- A member that stands for `default` when it is missing. -/
def orElse (fields : Dict String Json) (key : String) (default : α) (read : Json → Option α) :
    Option α :=
  match Dict.get? fields key with
  | none => some default
  | some j => read j

/-! ## Records -/

/-- The members of a value.  They are smaller than it, so recursion into them ends. -/
structure Members (j : Json) where
  fields : Dict String Json
  smaller : ∀ e ∈ fields, sizeOf e.2 < sizeOf j

/-- A member, with the reason why recursion into it ends. -/
def Members.get? {j : Json} (m : Members j) (key : String) :
    Option { i : Json // sizeOf i < sizeOf j } :=
  match h : Dict.get? m.fields key with
  | none => none
  | some i => some ⟨i, m.smaller _ (Dict.mem_of_get? h)⟩

/-- The members of an object. -/
def Members.ofObject (fields : Dict String Json) : Members (.obj fields) where
  fields := fields
  smaller e he := by
    have hmem := List.sizeOf_lt_of_mem he
    obtain ⟨key, i⟩ := e
    rw [Prod.mk.sizeOf_spec] at hmem
    rw [obj.sizeOf_spec]
    change sizeOf i < 1 + sizeOf fields
    omega

/-- The members of a record in their order.  An array may end before the `further` ones. -/
structure Row where
  needed : List String
  further : List String

/-- The members whose values are some items of an array. -/
def Row.ofItems? (r : Row) {items all : List Json} (h : items ⊆ all) :
    Option (Members (.arr all)) :=
  let names := r.needed ++ r.further
  if r.needed.length ≤ items.length ∧ items.length ≤ names.length then
    some {
      fields := names.zip items
      smaller := fun e he => by
        have hmem := List.sizeOf_lt_of_mem (h (List.of_mem_zip he).2)
        rw [arr.sizeOf_spec]
        omega }
  else none

/-- The members of a record. -/
def members? (r : Row) : (j : Json) → Option (Members j)
  | .obj fields => some (.ofObject fields)
  | .arr items => r.ofItems? (List.Subset.refl items)
  | _ => none

/-- The members of a record by their names. -/
def record? (r : Row) (j : Json) : Option (Dict String Json) :=
  (j.members? r).map Members.fields

/-- The alternative of a record and its members. -/
def tagged? (d : Depth) (tag : String) (rows : List (String × Row)) :
    (j : Json) → Option (String × Members j)
  | .obj fields => do
    let name ← required fields tag (alternative? d (rows.map Prod.fst))
    return (name, .ofObject fields)
  | .arr (first :: items) => do
    let name ← alternative? d (rows.map Prod.fst) first
    let r ← Dict.get? rows name
    let members ← r.ofItems? (List.subset_cons_self first items)
    return (name, members)
  | _ => none

/-- A map written with every value written by `write`. -/
def ofDict (write : α → Json) (d : Dict String α) : Json := .obj (Dict.mapValues write d)

end Json

end EventFlow

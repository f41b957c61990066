import EventFlow.Json.Draft

/-!
# Reading JSON text

A text is taken apart (`Json.Draft`) and read as a whole.  Of several members with one key the last
stays; values nested deeper than `maxDepth` are refused.
-/

set_option autoImplicit false

namespace EventFlow

namespace Json

/-- How many arrays and objects may be open at once. -/
def maxDepth : Nat := 127

namespace Draft

mutual

/-- The value that a draft stands for, in which some arrays and objects may be open at once. -/
def value? : Nat → Draft → Option Json
  | _, .word chars => ofWord? chars
  | _, .text chars => (unescape? chars).map .str
  | 0, _ => none
  | depth + 1, .arr items => (values? depth items).map .arr
  | depth + 1, .obj members => (memberValues? depth members).map .object

/-- The values of the items of an array. -/
def values? (depth : Nat) : List Draft → Option (List Json)
  | [] => some []
  | x :: xs => do
    let j ← value? depth x
    let js ← values? depth xs
    some (j :: js)

/-- The values of the members of an object. -/
def memberValues? (depth : Nat) : List (List Char × Draft) → Option (List (String × Json))
  | [] => some []
  | (key, x) :: ms => do
    let key ← unescape? key
    let j ← value? depth x
    let js ← memberValues? depth ms
    some ((key, j) :: js)

end

end Draft

/-- The value a text denotes. -/
def parse? (text : String) : Option Json := (Draft.ofText? text).bind (Draft.value? maxDepth)

end Json

end EventFlow

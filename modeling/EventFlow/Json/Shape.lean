import EventFlow.Json.Fields
import EventFlow.Json.Parse

/-!
# Reading records from JSON text

A text that holds a record says more than is asked: it may have members that nobody knows.  They
have to be written rightly, but are not read, so numbers there may be too large, half characters may
stand in texts, and nothing is nested too deeply.  A `Shape` says what is read.  Members that are
known must not be given twice; of the entries of a map with one key the last stays, but all of them
must be acceptable.  A record may be an array, and then its items are the members in their order.

What `Shape.read?` gives is JSON in which only that is left which is read.  To refuse what has
another form than its shape is left to the reader of the record.
-/

set_option autoImplicit false

namespace EventFlow

namespace Json

/-- What is read of a value. -/
inductive Shape
  /-- All of it. -/
  | all
  /-- The name of an alternative without data. -/
  | name
  /-- Nothing, if it is `null`. -/
  | nullable (shape : Shape)
  /-- Every item. -/
  | list (item : Shape)
  /-- Every entry, which must be acceptable; keys may have to be written without escapes. -/
  | map (escapes : Bool) (item : Shape) (accepts : Json → Bool)
  /-- Some members, in their order. -/
  | record (members : List (String × Shape))
  /-- All of it, of which those members count that an alternative has, its name among them. -/
  | tagged (tag : String) (alternatives : List (String × Shape))

namespace Shape

/-- The members of an object by their keys. -/
def keyed? (members : List (List Char × Draft)) : Option (List (String × Draft)) :=
  members.mapM fun m => (unescape? m.1).map fun key => (key, m.2)

/-- The key of an entry of a map. -/
def key? (escapes : Bool) (chars : List Char) : Option String :=
  if escapes then unescape? chars else some (String.ofList chars)

/-- The name that the only member with some key gives, or the first item of an array. -/
def tagOf? (tag : String) : Draft → Option String
  | .obj members => do
    match (← keyed? members).filter (·.1 = tag) with
    | [(_, .text chars)] => unescape? chars
    | _ => none
  | .arr (.text chars :: _) => unescape? chars
  | _ => none

mutual

/-- What is read of a draft, in which some arrays and objects may be open at once. -/
def readAt? : Shape → Nat → Draft → Option Json
  | .all, depth, x => x.value? depth
  | .name, depth, x =>
    match x with
    | .obj members => if members.length = 1 then x.value? depth else none
    | x => x.value? depth
  | .nullable shape, depth, x =>
    match x with
    | .word ['n', 'u', 'l', 'l'] => some .null
    | x => readAt? shape depth x
  | .list item, depth, x =>
    match depth, x with
    | depth + 1, .arr items => (items.mapM (readAt? item depth)).map .arr
    | depth, x => x.value? depth
  | .map escapes item accepts, depth, x =>
    match depth, x with
    | depth + 1, .obj members => do
      let entries ← members.mapM fun m => do
        let key ← key? escapes m.1
        let j ← readAt? item depth m.2
        if accepts j then some (key, j) else none
      some (.object entries)
    | depth, x => x.value? depth
  | .record members, depth, x =>
    match depth, x with
    | depth + 1, .obj given => do
      let given ← keyed? given
      (readMembers? members depth given).map .object
    | depth + 1, .arr items => (readItems? members depth items).map .arr
    | depth, x => x.value? depth
  | .tagged tag alternatives, depth, x => do
    let _ ← x.value? depth
    let name ← tagOf? tag x
    readAlternative? alternatives name depth x

/-- What is read of the members of a record. -/
def readMembers? : List (String × Shape) → Nat → List (String × Draft) →
    Option (List (String × Json))
  | [], _, _ => some []
  | (key, shape) :: members, depth, given =>
    match given.filter (·.1 = key) with
    | [] => readMembers? members depth given
    | [m] => do
      let j ← readAt? shape depth m.2
      let rest ← readMembers? members depth given
      some ((key, j) :: rest)
    | _ => none

/-- What is read of an array with the values of the members of a record. -/
def readItems? : List (String × Shape) → Nat → List Draft → Option (List Json)
  | _, _, [] => some []
  | [], _, _ :: _ => none
  | (_, shape) :: members, depth, x :: items => do
    let j ← readAt? shape depth x
    let rest ← readItems? members depth items
    some (j :: rest)

/-- What is read of a record that is the named one of some alternatives. -/
def readAlternative? : List (String × Shape) → String → Nat → Draft → Option Json
  | [], _, _, _ => none
  | (alternative, shape) :: rest, wanted, depth, x =>
    if alternative = wanted then readAt? shape depth x else readAlternative? rest wanted depth x

end

/-- What is read of a text. -/
def read? (shape : Shape) (text : String) : Option Json :=
  (Draft.ofText? text).bind (shape.readAt? maxDepth)

end Shape

end Json

end EventFlow

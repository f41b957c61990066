import EventFlow.Json
import EventFlow.Text.Numeral

/-!
# Dotted paths

A path such as `value.pass` names a location below a map of values: its first segment is a key of
the map, each further one a key of an object or, when it is a numeral, a position in an array.

`get?` reads a location and `set` writes one.  Writing makes objects of whatever stands in the way:
missing members, scalars, and arrays too.
-/

set_option autoImplicit false

namespace EventFlow

/-- The pieces of a list between the occurrences of `sep`; always at least one. -/
def cutAt (sep : Char) : List Char → List (List Char)
  | [] => [[]]
  | c :: cs =>
    if c = sep then [] :: cutAt sep cs
    else
      match cutAt sep cs with
      | [] => [[c]]
      | piece :: pieces => (c :: piece) :: pieces

/-- What follows `start` in a list that begins with it. -/
def after? : List Char → List Char → Option (List Char)
  | [], cs => some cs
  | _ :: _, [] => none
  | s :: ss, c :: cs => if s = c then after? ss cs else none

namespace Path

/-- The segments of a dotted path; always at least one, possibly empty ones. -/
def segments (path : String) : List String := (cutAt '.' path.toList).map String.ofList

/-- Whether every segment of a path has at least one character. -/
def isWellFormed (path : String) : Bool := (segments path).all fun s => !s.isEmpty

/-- The first segment. -/
def root (path : String) : String := (segments path).headD ""

/-- How many items an array can be indexed through. -/
def indexBound : Nat := UInt64.size

/-- The value some segments below a value. -/
def descend : Json → List String → Option Json
  | value, [] => some value
  | .obj fields, s :: rest =>
    match Dict.get? fields s with
    | some child => descend child rest
    | none => none
  | .arr items, s :: rest =>
    match (Numeral.natural? indexBound s).bind (items[·]?) with
    | some child => descend child rest
    | none => none
  | _, _ :: _ => none

/-- The value with `new` some segments below it. -/
def assign (value : Json) (path : List String) (new : Json) : Json :=
  match path with
  | [] => new
  | s :: rest =>
    let fields :=
      match value with
      | .obj fields => fields
      | _ => []
    .obj (Dict.put fields s (assign ((Dict.get? fields s).getD (.obj [])) rest new))

/-- The value at a location given by its segments. -/
def getAt? (values : Dict String Json) : List String → Option Json
  | [] => none
  | s :: rest => (Dict.get? values s).bind (descend · rest)

/-- The values with `new` at a location given by its segments. -/
def setAt (values : Dict String Json) (path : List String) (new : Json) : Dict String Json :=
  match path with
  | [] => values
  | s :: rest => Dict.put values s (assign ((Dict.get? values s).getD (.obj [])) rest new)

/-- The value a path names. -/
def get? (values : Dict String Json) (path : String) : Option Json :=
  getAt? values (segments path)

/-- The values with `new` where a path says. -/
def set (values : Dict String Json) (path : String) (new : Json) : Dict String Json :=
  setAt values (segments path) new

end Path

end EventFlow

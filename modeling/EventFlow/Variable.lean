import EventFlow.Error
import EventFlow.Json.Fields
import EventFlow.Path

/-!
# Variables

A variable is a dotted path in one of two places: the bindings of a head, or the scope that the
whole conversation shares.  In text, `global.` in front tells the second from the first.

Three names cannot be variables of a head, because queries find something else under them.
-/

set_option autoImplicit false

namespace EventFlow

/-- Whose variable it is. -/
inductive Owner
  | head
  | conversation
deriving DecidableEq

/-- A reference to a variable. -/
structure Variable where
  owner : Owner
  name : String
deriving DecidableEq

namespace Variable

/-- What marks a variable of the conversation. -/
def sharedMark : String := "global."

/-- The names a head cannot use. -/
def reserved : List String := ["global", "instance_id", "flow"]

/-- The variable a text refers to. -/
def ofText (text : String) : Variable :=
  match after? sharedMark.toList text.toList with
  | some name => ⟨.conversation, String.ofList name⟩
  | none => ⟨.head, text⟩

/-- The text that refers to a variable. -/
def text (v : Variable) : String :=
  match v.owner with
  | .head => v.name
  | .conversation => sharedMark ++ v.name

/-- The first segment of a variable's path. -/
def root (v : Variable) : String := Path.root v.name

/-- A variable that is written to has a well-formed path and does not hide a reserved name. -/
def check (v : Variable) : Check := do
  Check.refuseIf (!Path.isWellFormed v.name) (.malformedVariable v.text)
  Check.refuseIf (v.owner = .head && reserved.contains v.root) (.reservedVariable v.root)

/-- A variable written as JSON. -/
def toJson (v : Variable) : Json := .str v.text

/-- The variable that JSON holds. -/
def ofJson? (j : Json) : Option Variable := j.str?.map ofText

end Variable

end EventFlow

import EventFlow.Conflict
import EventFlow.Emission.Record

/-!
# Resolutions as JSON

What lost is written in full, with the instance it lost to; what won by its identity alone.
-/

set_option autoImplicit false

namespace EventFlow

/-- An emission that lost, written as JSON. -/
def Overridden.toJson (o : Overridden) : Json :=
  .object [("emission", o.emission.toJson), ("winner", .str o.winner.text)]

/-- A tie written as JSON. -/
def Tie.toJson (t : Tie) : Json :=
  .object
    [("conflict_key", .str t.key), ("winner", .str t.winner.text),
     ("runner_up", .str t.runnerUp.text), ("unresolvable", .bool t.unresolvable)]

/-- The members that show a resolution. -/
def Resolution.members (r : Resolution) : List (String × Json) :=
  [("winners", Json.list (fun e : Emission => .str e.id) r.winners),
   ("overridden", Json.list Overridden.toJson r.overridden), ("ties", Json.list Tie.toJson r.ties)]

end EventFlow

import EventFlow.Call
import EventFlow.Instance.Record
import EventFlow.Instance.Run

/-!
# The state of an engine

Everything an engine carries from one step to the next.  It is plain data: written as JSON and read
back it is a snapshot, from which an engine with the same flows goes on where the other one stopped.
-/

set_option autoImplicit false

namespace EventFlow

/-- What an engine carries from one step to the next. -/
structure State where
  /-- The instances that can be seen, in the order of creation. -/
  instances : List Instance
  globals : Dict String Json
  calls : Calls
  /-- The timers that are running, and the instances they belong to. -/
  timers : Dict TimerId InstanceId
  ids : IdSource
  /-- How many steps there were. -/
  step : Nat
  /-- The number of the next instance. -/
  nextInstance : Nat

namespace State

/-- The state before the first step. -/
def initial (ids : IdSource) : State := ⟨[], [], [], [], ids, 0, 0⟩

/-- The first instance with an identity. -/
def instance? (s : State) (id : InstanceId) : Option Instance :=
  s.instances.find? fun i => i.id = id

/-- What heads share with the rest of the conversation. -/
def world (s : State) : World := ⟨s.globals, s.ids⟩

/-- Let heads have changed what they share. -/
def setWorld (s : State) (w : World) : State := { s with globals := w.globals, ids := w.ids }

/-- Write a variable of the conversation between steps. -/
def setGlobal (s : State) (path : String) (value : Json) : State :=
  { s with globals := Path.set s.globals path value }

/-- A state written as JSON. -/
def toJson (s : State) : Json :=
  .object
    [("instances", Json.list Instance.toJson s.instances), ("global", .obj s.globals),
     ("pending_actions", s.calls.toJson),
     ("timers", .obj (s.timers.map fun t => (t.1.text, .str t.2.text))), ("ids", s.ids.toJson),
     ("step", .ofNat s.step), ("next_instance_seq", .ofNat s.nextInstance)]

/-- The state that JSON holds. -/
def ofJson? (j : Json) : Option State := do
  let fields ← j.record?
    ⟨["instances", "global", "pending_actions", "timers", "ids", "step", "next_instance_seq"], []⟩
  let instances ← Json.required fields "instances" (Json.listOf? Instance.ofJson?)
  let globals ← Json.required fields "global" Json.fields?
  let calls ← Json.required fields "pending_actions" Calls.ofJson?
  let timers ← Json.required fields "timers" (Json.dictOf? Json.str?)
  let ids ← Json.required fields "ids" IdSource.ofJson?
  let step ← Json.required fields "step" Json.nat64?
  let nextInstance ← Json.required fields "next_instance_seq" Json.nat64?
  return ⟨instances, globals, calls, timers.map fun t => (⟨t.1⟩, ⟨t.2⟩), ids, step, nextInstance⟩

/-- What is read of a state. -/
def shape : Json.Shape :=
  .record
    [("instances", .list Instance.shape), ("global", .all), ("pending_actions", Calls.shape),
     ("timers", .map true .all fun j => j.str?.isSome), ("ids", IdSource.shape), ("step", .all),
     ("next_instance_seq", .all)]

/-- The state that a text holds. -/
def ofText? (text : String) : Option State := (shape.read? text).bind ofJson?

end State

end EventFlow

import EventFlow.Emission
import EventFlow.Flow.Record

/-!
# Emissions as JSON

An emission is written with what it would do, what decides whether it wins, and its name and
identity, which are not needed to read it back.
-/

set_option autoImplicit false

namespace EventFlow

namespace CallRequest

/-- A request to call an action, written as JSON. -/
def toJson (r : CallRequest) : Json :=
  .object
    [("invocation_id", .str r.invocation.text), ("action", .str r.action),
     ("arguments", .obj r.arguments), ("head", .ofNat r.head.number)]

/-- The request to call an action that JSON holds. -/
def ofJson? (j : Json) : Option CallRequest := do
  let fields ← j.fields?
  let invocation ← Json.required fields "invocation_id" Json.str?
  let action ← Json.required fields "action" Json.str?
  let arguments ← Json.required fields "arguments" Json.fields?
  let head ← Json.required fields "head" Json.nat32?
  return ⟨⟨invocation⟩, action, arguments, ⟨head⟩⟩

end CallRequest

namespace Intent

/-- An intent written as JSON. -/
def toJson : Intent → Json
  | send event delivery =>
    .object [("send", .object [("event", event.toJson), ("delivery", delivery.toJson)])]
  | call request => .object [("execute", request.toJson)]

/-- An event to send and its delivery, read from JSON. -/
def sendOfJson? (j : Json) : Option Intent := do
  let fields ← j.fields?
  let event ← Json.required fields "event" Event.ofJson?
  let delivery ← Json.required fields "delivery" (Delivery.ofJson? .outer)
  return send event delivery

/-- The intent that JSON holds: an event to send, if there is one. -/
def ofJson? (j : Json) : Option Intent := do
  let fields ← j.fields?
  match Dict.get? fields "send" with
  | some s => sendOfJson? s
  | none => (Json.required fields "execute" CallRequest.ofJson?).map call

end Intent

namespace Emission

/-- An emission written as JSON. -/
def toJson (e : Emission) : Json :=
  .object
    [("intent", e.intent.toJson), ("conflict_key", Json.option .str e.key),
     ("instance_id", .str e.instanceId.text), ("flow", .str e.flow.text),
     ("head", .ofNat e.head.number), ("priority", .ofInt e.priority),
     ("specificity", .ofNat e.specificity), ("created_at", .ofNat e.createdAt),
     ("name", .str e.name), ("id", .str e.id)]

/-- The emission that JSON holds. -/
def ofJson? (j : Json) : Option Emission := do
  let fields ← j.fields?
  let intent ← Json.required fields "intent" Intent.ofJson?
  let key ← Json.optional fields "conflict_key" Json.str?
  let instanceId ← Json.required fields "instance_id" Json.str?
  let flow ← Json.required fields "flow" Json.str?
  let head ← Json.required fields "head" Json.nat32?
  let priority ← Json.required fields "priority" Json.int32?
  let specificity ← Json.required fields "specificity" Json.nat32?
  let createdAt ← Json.required fields "created_at" Json.nat64?
  return ⟨intent, key, ⟨instanceId⟩, ⟨flow⟩, ⟨head⟩, priority, specificity, createdAt⟩

end Emission

namespace Effects

/-- A timer a head asks for, written as JSON. -/
def timerToJson (t : TimerRequest) : Json :=
  .object
    [("timer_id", .str t.timer.text), ("duration_ms", .ofNat t.duration),
     ("head", .ofNat t.head.number)]

/-- A flow a head starts, written as JSON. -/
def childToJson (c : ChildRequest) : Json :=
  .object
    [("flow", .str c.flow.text), ("instance_id", .str c.instanceId.text),
     ("bindings", .obj c.bindings), ("head", .ofNat c.head.number)]

/-- What some heads asked for, written as JSON. -/
def toJson (e : Effects) : Json :=
  .object
    [("emissions", Json.list Emission.toJson e.emissions),
     ("sends", Json.list (fun s : Event => .str s.id.text) e.sends),
     ("actions", Json.list (fun c : CallRequest => .str c.invocation.text) e.calls),
     ("timers", Json.list timerToJson e.timers),
     ("flow_starts", Json.list childToJson e.children),
     ("new_heads", Json.list (fun h : HeadId => .ofNat h.number) e.newHeads)]

end Effects

end EventFlow

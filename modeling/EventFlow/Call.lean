import EventFlow.Emission

/-!
# Calls of actions

A call that wins is dispatched: it goes into the table of pending calls and to whoever runs actions.
Its result is accepted once, while it is in flight; any later result, like one of a call that was
cancelled or never made, comes too late.
-/

set_option autoImplicit false

namespace EventFlow

/-- What whoever runs actions is asked to do. -/
structure Dispatch where
  invocation : InvocationId
  action : String
  arguments : Dict String Json

/-- How far a call has come. -/
inductive CallStatus
  | inFlight
  | completed
  | failed
deriving DecidableEq

/-- A call that was dispatched. -/
structure PendingCall where
  invocation : InvocationId
  action : String
  arguments : Dict String Json
  instanceId : InstanceId
  head : HeadId
  status : CallStatus
  result : Option Outcome

/-- The table of pending calls. -/
abbrev Calls := Dict InvocationId PendingCall

/-- What to run, written as JSON. -/
def Dispatch.toJson (d : Dispatch) : Json :=
  .object
    [("invocation_id", .str d.invocation.text), ("action", .str d.action),
     ("arguments", .obj d.arguments)]

/-- What to run for a call. -/
def CallRequest.dispatch (r : CallRequest) : Dispatch := ⟨r.invocation, r.action, r.arguments⟩

namespace Outcome

/-- The outcome a result reports; what it leaves open is taken from its reason. -/
def ofEvent (e : Event) : Outcome :=
  if e.text? "status" = some "completed" then .completed ((e.field? "value").getD .null)
  else
    match (e.field? "error").bind (Failure.ofJson? .outer) with
    | some failure => .failed failure
    | none =>
      let reason := (e.text? "reason").getD FailureKind.transient.name
      .failed ⟨(FailureKind.ofName? reason).getD .transient, reason⟩

end Outcome

namespace CallStatus

/-- The name of a status. -/
def name : CallStatus → String
  | inFlight => "in-flight"
  | completed => "completed"
  | failed => "failed"

/-- The status with a name. -/
def ofName? : String → Option CallStatus
  | "in-flight" => some inFlight
  | "completed" => some completed
  | "failed" => some failed
  | _ => none

/-- The status of a call that ended. -/
def ofOutcome (o : Outcome) : CallStatus := if o.isSuccess then .completed else .failed

end CallStatus

namespace PendingCall

/-- Whether a call has no result yet. -/
def isInFlight (c : PendingCall) : Bool := c.status = .inFlight

/-- A pending call written as JSON. -/
def toJson (c : PendingCall) : Json :=
  .object
    [("invocation_id", .str c.invocation.text), ("action", .str c.action),
     ("arguments", .obj c.arguments), ("instance_id", .str c.instanceId.text),
     ("head", .ofNat c.head.number), ("status", .str c.status.name),
     ("result", Json.option Outcome.toJson c.result)]

/-- The pending call that JSON holds. -/
def ofJson? (j : Json) : Option PendingCall := do
  let fields ← j.record?
    ⟨["invocation_id", "action", "arguments", "instance_id", "head", "status", "result"], []⟩
  let invocation ← Json.required fields "invocation_id" Json.str?
  let action ← Json.required fields "action" Json.str?
  let arguments ← Json.required fields "arguments" Json.fields?
  let instanceId ← Json.required fields "instance_id" Json.str?
  let head ← Json.required fields "head" Json.nat32?
  let status ← Json.required fields "status" fun s => (s.tag? .outer).bind CallStatus.ofName?
  let result ← Json.optional fields "result" Outcome.ofJson?
  return ⟨⟨invocation⟩, action, arguments, ⟨instanceId⟩, ⟨head⟩, status, result⟩

/-- What is read of a pending call. -/
def shape : Json.Shape :=
  .record
    [("invocation_id", .all), ("action", .all), ("arguments", .all), ("instance_id", .all),
     ("head", .all), ("status", .name), ("result", .nullable Outcome.shape)]

end PendingCall

namespace Calls

/-- The invocations of an instance that are in flight, in the order of the table. -/
def inFlightFor (calls : Calls) (id : InstanceId) : List InvocationId :=
  ((Dict.values calls).filter fun c => c.instanceId = id && c.isInFlight).map
    PendingCall.invocation

/-- How many calls are in flight. -/
def inFlight (calls : Calls) : Nat := (Dict.values calls).countP PendingCall.isInFlight

/-- Enter a call of an instance. -/
def invoke (calls : Calls) (id : InstanceId) (r : CallRequest) : Calls :=
  Dict.put calls r.invocation
    ⟨r.invocation, r.action, r.arguments, id, r.head, .inFlight, none⟩

/-- Enter the result of a call that is in flight; none when the result comes too late. -/
def accept? (calls : Calls) (e : Event) : Option Calls := do
  let invocation ← e.invocation?
  let call ← Dict.get? calls invocation
  if call.isInFlight then
    let outcome := Outcome.ofEvent e
    return Dict.put calls invocation
      { call with status := .ofOutcome outcome, result := some outcome }
  else none

/-- A table of calls written as JSON. -/
def toJson (calls : Calls) : Json := .obj (calls.map fun c => (c.1.text, c.2.toJson))

/-- The table of calls that JSON holds. -/
def ofJson? (j : Json) : Option Calls :=
  (Json.dictOf? PendingCall.ofJson? j).map fun calls => calls.map fun c => (⟨c.1⟩, c.2)

/-- What is read of a table of calls. -/
def shape : Json.Shape := .map true PendingCall.shape fun j => (PendingCall.ofJson? j).isSome

end Calls

end EventFlow

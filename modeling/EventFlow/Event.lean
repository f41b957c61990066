import EventFlow.Error
import EventFlow.Path
import EventFlow.Json.Shape
import EventFlow.Text.Blank

/-!
# Events

An event is a named payload with an identity and an origin.  The engine itself produces five kinds
of events, whose names are reserved; of these, results of actions and firings of timers may also be
handed in from outside and must then have the members that make sense of them (`Event.check`).

The identity of a result is made from the invocation's, and that of a firing from the timer's, so a
completion that is delivered twice is recognised.
-/

set_option autoImplicit false

namespace EventFlow

/-- Where an event came from. -/
inductive Source
  | external
  | internal
  | actionResult
deriving DecidableEq

/-- A named payload. -/
structure Event where
  id : EventId
  name : String
  payload : Dict String Json
  source : Source

/-- Why an action failed. -/
inductive FailureKind
  | transient
  | invalidArguments
  | unavailable
  | overridden
deriving DecidableEq

/-- The name of a kind of failure. -/
def FailureKind.name : FailureKind → String
  | transient => "transient"
  | invalidArguments => "invalid-arguments"
  | unavailable => "unavailable"
  | overridden => "overridden"

/-- The kind of failure with a name. -/
def FailureKind.ofName? : String → Option FailureKind
  | "transient" => some .transient
  | "invalid-arguments" => some .invalidArguments
  | "unavailable" => some .unavailable
  | "overridden" => some .overridden
  | _ => none

/-- A failed call of an action. -/
structure Failure where
  kind : FailureKind
  message : String
deriving DecidableEq

/-- How a call of an action ended. -/
inductive Outcome
  | completed (value : Json)
  | failed (failure : Failure)

namespace Source

/-- A source written as JSON. -/
def toJson : Source → Json
  | external => .str "external"
  | internal => .str "internal"
  | actionResult => .str "action-result"

/-- The source that JSON holds. -/
def ofJson? (j : Json) : Option Source :=
  match j.tag? .outer with
  | some "external" => some external
  | some "internal" => some internal
  | some "action-result" => some actionResult
  | _ => none

end Source

namespace Failure

/-- A failure in words. -/
def text (f : Failure) : String := f.kind.name ++ ": " ++ f.message

/-- A failure written as JSON. -/
def toJson (f : Failure) : Json :=
  .object [("kind", .str f.kind.name), ("message", .str f.message)]

/-- The failure that JSON holds. -/
def ofJson? (d : Json.Depth) (j : Json) : Option Failure := do
  let fields ← j.record? ⟨["kind", "message"], []⟩
  let kind ← Json.required fields "kind" fun k => (k.tag? d).bind FailureKind.ofName?
  let message ← Json.required fields "message" Json.str?
  return ⟨kind, message⟩

end Failure

namespace Outcome

/-- Whether the action returned a value. -/
def isSuccess : Outcome → Bool
  | completed _ => true
  | failed _ => false

/-- An outcome written as JSON. -/
def toJson : Outcome → Json
  | completed value => .object [("status", .str "completed"), ("value", value)]
  | failed failure => .object [("status", .str "failed"), ("error", failure.toJson)]

/-- The members of an outcome. -/
def rows : List (String × Json.Row) :=
  [("completed", ⟨["value"], []⟩), ("failed", ⟨["error"], []⟩)]

/-- The outcome that JSON holds. -/
def ofJson? (j : Json) : Option Outcome := do
  let (status, m) ← j.tagged? .outer "status" rows
  match status with
  | "completed" => (Json.required m.fields "value" some).map completed
  | "failed" => (Json.required m.fields "error" (Failure.ofJson? .inner)).map failed
  | _ => none

/-- What is read of an outcome. -/
def shape : Json.Shape :=
  .tagged "status"
    [("completed", .record [("status", .all), ("value", .all)]),
     ("failed",
      .record [("status", .all), ("error", .record [("kind", .name), ("message", .all)])])]

end Outcome

namespace Event

/-- The name of the result of an action. -/
def actionResultName : String := "action-result"

/-- The name of the notice that another instance's emission won. -/
def overriddenName : String := "emission-overridden"

/-- The name of a timer's firing. -/
def timerFiredName : String := "timer-fired"

/-- The name of the notice that an instance finished. -/
def finishedName : String := "flow-finished"

/-- The name of the notice that an instance aborted. -/
def abortedName : String := "flow-aborted"

/-- The event an outcome of a call is reported by. -/
def actionResult (call : InvocationId) (action : String) (outcome : Outcome) : Event where
  id := ⟨call.text ++ ":result"⟩
  name := actionResultName
  payload := Dict.ofList <|
    ("invocation_id", .str call.text) :: ("action", .str action) ::
      match outcome with
      | .completed value => [("status", .str "completed"), ("value", value)]
      | .failed failure =>
        [("status", .str "failed"), ("reason", .str failure.kind.name), ("error", failure.toJson)]
  source := .actionResult

/-- The event the firing of a timer is reported by. -/
def timerFired (timer : TimerId) : Event where
  id := ⟨timer.text ++ ":fired"⟩
  name := timerFiredName
  payload := [("timer_id", .str timer.text)]
  source := .internal

/-- The value at a dotted path of the payload. -/
def field? (e : Event) (path : String) : Option Json := Path.get? e.payload path

/-- The text at a dotted path of the payload. -/
def text? (e : Event) (path : String) : Option String := (e.field? path).bind Json.str?

/-- The invocation whose result an event is. -/
def invocation? (e : Event) : Option InvocationId :=
  if e.name = actionResultName then (e.text? "invocation_id").map InvocationId.mk else none

/-- The timer whose firing an event is. -/
def timer? (e : Event) : Option TimerId :=
  if e.name = timerFiredName then (e.text? "timer_id").map TimerId.mk else none

/-- What the result of an action must hold. -/
def checkResult (e : Event) : Check := do
  Check.refuseIf (e.text? "invocation_id").isNone .resultWithoutInvocation
  match e.text? "status" with
  | some "completed" => .ok ()
  | some "failed" => Check.refuseIf (e.field? "reason").isNone .failureWithoutReason
  | status => .error (.invalid (.invalidStatus status))

/-- What every event handed in must be. -/
def check (e : Event) : Check := do
  Check.refuseIf (isBlank e.name) .blankEventName
  Check.refuseIf e.id.text.isEmpty (.emptyEventId e.name)
  if e.name = actionResultName then e.checkResult
  else if e.name = timerFiredName then
    Check.refuseIf (e.text? "timer_id").isNone .firingWithoutTimer
  else .ok ()

/-- An event written as JSON. -/
def toJson (e : Event) : Json :=
  .object
    [("id", .str e.id.text), ("name", .str e.name), ("payload", .obj e.payload),
     ("source", e.source.toJson)]

/-- The event that JSON holds. -/
def ofJson? (j : Json) : Option Event := do
  let fields ← j.record? ⟨["id", "name", "payload", "source"], []⟩
  let id ← Json.required fields "id" Json.str?
  let name ← Json.required fields "name" Json.str?
  let payload ← Json.orElse fields "payload" [] Json.fields?
  let source ← Json.required fields "source" Source.ofJson?
  return ⟨⟨id⟩, name, payload, source⟩

end Event

end EventFlow

import EventFlow.Flow.Element

/-!
# Emissions

What heads want from outside while they run.  Events to send and actions to call are *emissions*:
they compete with those of other instances, and only winners take effect (`EventFlow.Conflict`).
Timers and child flows are granted without competition.
-/

set_option autoImplicit false

namespace EventFlow

/-- An action a head calls. -/
structure CallRequest where
  invocation : InvocationId
  action : String
  arguments : Dict String Json
  head : HeadId

/-- A timer a head asks for. -/
structure TimerRequest where
  timer : TimerId
  duration : Nat
  head : HeadId

/-- A flow a head starts: the identity set aside for its instance, and what that will know. -/
structure ChildRequest where
  flow : FlowId
  instanceId : InstanceId
  bindings : Bindings
  head : HeadId

/-- What an emission does if it wins. -/
inductive Intent
  | send (event : Event) (delivery : Delivery)
  | call (request : CallRequest)

/-- An event to send or an action to call, with what decides whether it wins. -/
structure Emission where
  intent : Intent
  /-- The group it competes in; none if it does not. -/
  key : Option String
  instanceId : InstanceId
  flow : FlowId
  head : HeadId
  priority : Int
  /-- How specific the match was that led the head here. -/
  specificity : Nat
  /-- The number of the instance in the order of creation. -/
  createdAt : Nat

namespace Emission

/-- The name of the event or the action. -/
def name (e : Emission) : String :=
  match e.intent with
  | .send event _ => event.name
  | .call request => request.action

/-- The identity of the event or the invocation. -/
def id (e : Emission) : String :=
  match e.intent with
  | .send event _ => event.id.text
  | .call request => request.invocation.text

end Emission

/-- What some heads asked for, each kind in the order it was asked for. -/
structure Effects where
  emissions : List Emission
  timers : List TimerRequest
  children : List ChildRequest
  newHeads : List HeadId

namespace Effects

/-- Nothing. -/
def none : Effects := ⟨[], [], [], []⟩

/-- One set of requests after another. -/
def append (a b : Effects) : Effects :=
  ⟨a.emissions ++ b.emissions, a.timers ++ b.timers, a.children ++ b.children,
    a.newHeads ++ b.newHeads⟩

/-- A single emission. -/
def ofEmission (e : Emission) : Effects := ⟨[e], [], [], []⟩

/-- A single timer. -/
def ofTimer (t : TimerRequest) : Effects := ⟨[], [t], [], []⟩

/-- A single child. -/
def ofChild (c : ChildRequest) : Effects := ⟨[], [], [c], []⟩

/-- New heads. -/
def ofHeads (ids : List HeadId) : Effects := ⟨[], [], [], ids⟩

/-- The events to send. -/
def sends (e : Effects) : List Event :=
  e.emissions.filterMap fun m =>
    match m.intent with
    | .send event _ => some event
    | .call _ => Option.none

/-- The actions to call. -/
def calls (e : Effects) : List CallRequest :=
  e.emissions.filterMap fun m =>
    match m.intent with
    | .send _ _ => Option.none
    | .call request => some request

end Effects

end EventFlow

import EventFlow.Catalog
import EventFlow.Conflict
import EventFlow.Engine.State

/-!
# Steps in progress

A `Step` is the state of an engine while it works off a queue of events.  What leaves the engine
goes into one list of `Signal`s: what it observes and what it asks of whoever runs actions and
timers, in the order in which it happens.

Instances keep their own observations until they are collected (`drain`), which happens after every
round.
-/

set_option autoImplicit false

namespace EventFlow

/-- An engine: the flows it may run, and how it runs them. -/
structure Engine where
  catalog : Catalog
  config : Config

/-- Something that leaves an engine besides events. -/
inductive Signal
  | observed (o : Observation)
  | dispatched (d : Dispatch)
  | cancelled (invocation : InvocationId)
  | scheduled (timer : TimerId) (duration : Nat)
  | timerCancelled (timer : TimerId)

namespace Signal

/-- What was observed. -/
def observation? : Signal → Option Observation
  | observed o => some o
  | _ => none

/-- What was dispatched. -/
def dispatch? : Signal → Option Dispatch
  | dispatched d => some d
  | _ => none

/-- The call that was cancelled. -/
def cancellation? : Signal → Option InvocationId
  | cancelled invocation => some invocation
  | _ => none

/-- The timer that was started, and how long it runs. -/
def timer? : Signal → Option (TimerId × Nat)
  | scheduled timer duration => some (timer, duration)
  | _ => none

/-- The timer that was stopped. -/
def stoppedTimer? : Signal → Option TimerId
  | timerCancelled timer => some timer
  | _ => none

end Signal

/-- A step in progress. -/
structure Step where
  state : State
  signals : List Signal
  /-- The events to process, the next one in front. -/
  queue : List Event
  /-- The identities of the events that were processed. -/
  seen : List EventId
  /-- How often each activation pattern has started its flow. -/
  counts : Dict String Nat
  /-- The events for the outside. -/
  outputs : List Event

namespace Step

/-- A step without events. -/
def begin (s : State) : Step := ⟨s, [], [], [], [], []⟩

/-- Send a signal. -/
def emit (s : Step) (signal : Signal) : Step := { s with signals := s.signals ++ [signal] }

/-- Make an observation. -/
def observe (s : Step) (o : Observation) : Step := s.emit (.observed o)

/-- Queue an event. -/
def enqueue (s : Step) (e : Event) : Step := { s with queue := s.queue ++ [e] }

/-- Change the state. -/
def update (s : Step) (f : State → State) : Step := { s with state := f s.state }

/-- Collect the observations of all instances. -/
def drain (s : Step) : Step :=
  let observations := s.state.instances.flatMap Instance.observations
  { s with
    signals := s.signals ++ observations.map .observed
    state :=
      { s.state with instances := s.state.instances.map fun i => { i with observations := [] } } }

/-- The identity of a new event. -/
def nextEvent (s : Step) : EventId × Step :=
  let (id, ids) := s.state.ids.nextEvent
  (id, s.update fun s => { s with ids })

/-- Queue an event of the engine's own. -/
def announce (s : Step) (name : String) (payload : Dict String Json) : Step :=
  let (id, s) := s.nextEvent
  s.enqueue ⟨id, name, payload, .internal⟩

/-- Cancel a call. -/
def cancelCall (s : Step) (invocation : InvocationId) : Step :=
  match Dict.get? s.state.calls invocation with
  | none => s
  | some call =>
    let s := s.update fun s => { s with calls := Dict.remove s.calls invocation }
    let s := if call.isInFlight then s.emit (.cancelled invocation) else s
    s.observe (.actionCancelled call.invocation call.action)

/-- Cancel the calls of an instance that are in flight. -/
def cancelCallsOf (s : Step) (id : InstanceId) : Step :=
  (s.state.calls.inFlightFor id).foldl cancelCall s

/-- Stop the timers of an instance. -/
def stopTimersOf (s : Step) (id : InstanceId) : Step :=
  let owned := (s.state.timers.filter fun t => t.2 = id).map Prod.fst
  owned.foldl
    (fun s t =>
      (s.update fun s => { s with timers := Dict.remove s.timers t }).emit (.timerCancelled t)) s

/-- Dispatch a call of an instance. -/
def dispatch (s : Step) (id : InstanceId) (r : CallRequest) : Step :=
  let s := s.update fun s => { s with calls := s.calls.invoke id r }
  (s.emit (.dispatched r.dispatch)).observe (.actionDispatched id r.invocation r.action)

/-- Start a timer of an instance. -/
def schedule (s : Step) (id : InstanceId) (t : TimerRequest) : Step :=
  (s.update fun s => { s with timers := Dict.put s.timers t.timer id }).emit
    (.scheduled t.timer t.duration)

/-- Change the first instance with an identity. -/
def updateInstance (s : Step) (id : InstanceId) (f : Instance → Instance) : Step :=
  match s.state.instances.findIdx? fun i => i.id = id with
  | none => s
  | some k => s.update fun s => { s with instances := s.instances.modify k f }

end Step

end EventFlow

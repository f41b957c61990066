import EventFlow.Engine.Round
import EventFlow.Json.Text

/-!
# Processing events

`Engine.handle` takes an event from outside through one step: the queue is worked off until nothing
is left to do, and what was sent to the outside comes back with the state to go on from.  Results of
calls that are not in flight and firings of timers that are not running are not processed, though
they do count as steps.

`Engine.abort` ends an instance from outside, with all consequences.
-/

set_option autoImplicit false

namespace EventFlow

variable {Compiled Found : Type} [Query.Library Compiled Found]

/-- What a request to an engine leads to: the events for the outside or an error, the signals that
were sent, and the state afterwards. -/
structure Reply where
  outcome : Except Error (List Event)
  signals : List Signal
  state : State

namespace Reply

/-- A request that is refused. -/
def refuse (s : State) (e : Error) : Reply := ⟨.error e, [], s⟩

/-- The reply at the end of a step. -/
def ofStep (s : Step) : Reply :=
  let s := s.drain
  ⟨.ok s.outputs, s.signals, s.state⟩

end Reply

namespace Engine

/-- Whether an instance ended more steps ago than it can be seen. -/
def isStale (e : Engine) (step : Nat) (i : Instance) : Bool :=
  match i.terminatedAt with
  | some at' => step - at' > e.config.graceSteps
  | none => false

/-- Give up the calls of an instance that is no longer seen. -/
def evict (s : Step) (i : Instance) : Step :=
  (s.cancelCallsOf i.id).observe (.instanceEvicted i.id i.flow)

/-- Begin a step: count it, and let go of the instances that ended long ago. -/
def beginStep (e : Engine) (s : State) : Step :=
  let step := s.step + 1
  let (stale, kept) := s.instances.partition (e.isStale step)
  stale.foldl evict (.begin { s with step, instances := kept })

/-- Process an event to quiescence. -/
def runEvent (e : Engine) (s : Step) (event : Event) : Step :=
  e.runQueue e.config.maxEventsPerStep (s.enqueue event)

/-- Deliver the result of a call, which is pending until the step is over. -/
def handleResult (e : Engine) (s : Step) (event : Event) : Step :=
  match event.invocation? with
  | none => s
  | some invocation =>
    match s.state.calls.accept? event with
    | none => s.observe (.lateResult invocation)
    | some calls =>
      (e.runEvent (s.update fun s => { s with calls }) event).update fun s =>
        { s with calls := Dict.remove s.calls invocation }

/-- Deliver the firing of a timer, unless it is not running. -/
def handleTimer (e : Engine) (s : Step) (event : Event) : Step :=
  match event.timer? with
  | none => s
  | some timer =>
    if Dict.has s.state.timers timer then
      e.runEvent (s.update fun s => { s with timers := Dict.remove s.timers timer }) event
    else s

/-- Take an event from outside through one step. -/
def handle (e : Engine) (s : State) (event : Event) : Reply :=
  match event.check with
  | .error err => .refuse s err
  | .ok () =>
    let step := e.beginStep s
    .ofStep <|
      if event.name = Event.actionResultName then e.handleResult step event
      else if event.name = Event.timerFiredName then e.handleTimer step event
      else e.runEvent step event

/-- Take a named payload through one step, as an event with a new identity. -/
def process (e : Engine) (s : State) (name : String) (payload : Dict String Json) : Reply :=
  let (id, ids) := s.ids.nextEvent
  e.handle { s with ids } ⟨id, name, payload, .external⟩

/-- Abort an instance from outside. -/
def abort (e : Engine) (s : State) (id : InstanceId) (reason : String) : Reply :=
  match s.instance? id with
  | none => .refuse s (.unknownInstance id)
  | some i =>
    if i.status.isTerminal then .refuse s (.unknownInstance id)
    else
      let step := (e.beginStep s).updateInstance id (·.abort reason)
      .ofStep (e.runQueue e.config.maxEventsPerStep (windUpEnded step))

/-- An engine for some flows, which must be complete, under a configuration that can work. -/
def create (flows : List Flow) (config : Config) : Except Error Engine := do
  let catalog ← Catalog.ofFlows flows
  config.check
  return ⟨catalog, config⟩

/-- Whether an engine can go on from a state: all flows of its instances are loaded. -/
def checkState (e : Engine) (s : State) : Check :=
  s.instances.forM fun i => (e.catalog.require i.flow).map fun _ => ()

/-- The state a snapshot holds, if the engine can go on from it. -/
def restore (e : Engine) (text : String) : Except Error State := do
  match State.ofText? text with
  | none => throw .malformedJson
  | some s =>
    e.checkState s
    return s

end Engine

/-- The snapshot of a state. -/
def State.snapshot (s : State) : String := s.toJson.text

end EventFlow

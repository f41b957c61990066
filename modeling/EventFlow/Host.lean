import EventFlow.Engine.Process
import EventFlow.Host.Executor

/-!
# Hosts

A `Host` is an engine with an executor beside it: what the engine asks for is run, and what
completes is taken back, one completion after the other, when the host is told to.  A host may keep
snapshots of its engine under keys.

Nobody else has a turn of the engine or looks into the channel while a host has hold of them; it may
have to wait until it has (`reach`).
-/

set_option autoImplicit false

namespace EventFlow

variable {Compiled Found : Type} [Query.Library Compiled Found]

/-- An engine with an executor beside it. -/
structure Host (X : Type) where
  engine : Engine
  state : State
  executor : X
  /-- Whether snapshots can be kept. -/
  persistent : Bool
  /-- The snapshots that are kept. -/
  snapshots : Dict String String
  /-- What was observed so far. -/
  observations : List Observation

namespace Host

variable {X : Type} [Executor X]

/-- A host that has seen nothing yet. -/
def create (engine : Engine) (state : State) (executor : X) (persistent : Bool) : Host X :=
  ⟨engine, state, executor, persistent, [], []⟩

/-- A new host with the snapshots and observations of this one. -/
def replace (h : Host X) (engine : Engine) (state : State) (executor : X) (persistent : Bool) :
    Host X :=
  { h with engine, state, executor, persistent }

/-- Get hold of the engine or the channel. -/
def reach (h : Host X) : Host X := { h with executor := Executor.reach h.executor }

/-- Let a signal of the engine take effect. -/
def obey (h : Host X) : Signal → Host X
  | .observed o => { h with observations := h.observations ++ [o] }
  | .dispatched d => { h with executor := Executor.dispatch h.executor d }
  | .cancelled invocation => { h with executor := Executor.cancel h.executor invocation }
  | .scheduled timer duration => { h with executor := Executor.schedule h.executor timer duration }
  | .timerCancelled timer => { h with executor := Executor.cancelTimer h.executor timer }

/-- Take over what a request to the engine leads to. -/
def accept (h : Host X) (request : State → Reply) : Except Error (List Event) × Host X :=
  let h := h.reach
  let r := request h.state
  (r.outcome, r.signals.foldl obey { h with state := r.state })

/-- Process a named payload. -/
def process (h : Host X) (name : String) (payload : Dict String Json) :
    Except Error (List Event) × Host X :=
  h.accept fun s => h.engine.process s name payload

/-- Process an event. -/
def handle (h : Host X) (e : Event) : Except Error (List Event) × Host X :=
  h.accept fun s => h.engine.handle s e

/-- Abort an instance. -/
def abort (h : Host X) (id : InstanceId) (reason : String) : Except Error (List Event) × Host X :=
  h.accept fun s => h.engine.abort s id reason

/-- Take the next completion and process it, after waiting for it, but not longer than some
milliseconds. -/
def nextOf (h : Host X) (patience : Nat) : Option (Except Error (List Event)) × Host X :=
  match Executor.receive h.executor patience with
  | (none, executor) => (none, { h with executor })
  | (some e, executor) =>
    let (outcome, h) := handle { h with executor } e
    (some outcome, h)

/-- Wait for a completion, but not longer than some milliseconds, and process it. -/
def nextCompletion (h : Host X) (patience : Nat) : Option (Except Error (List Event)) × Host X :=
  h.reach.nextOf patience

/-- Process at most `limit` completions, until none arrives for some milliseconds. -/
def processCompletions (patience : Nat) :
    Nat → List Event → Host X → Except Error (List Event) × Host X
  | 0, outputs, h => (.ok outputs, h)
  | limit + 1, outputs, h =>
    match h.nextOf patience with
    | (none, h) => (.ok outputs, h)
    | (some (.ok more), h) => processCompletions patience limit (outputs ++ more) h
    | (some (.error err), h) => (.error err, h)

/-- Process at most `limit` completions, until none arrives for some milliseconds. -/
def runUntilIdle (h : Host X) (patience limit : Nat) : Except Error (List Event) × Host X :=
  processCompletions patience limit [] h.reach

/-- Write a variable of the conversation. -/
def setGlobal (h : Host X) (path : String) (value : Json) : Host X :=
  { h.reach with state := h.state.setGlobal path value }

/-- A copy of the engine's state. -/
def snapshot (h : Host X) : State × Host X := (h.state, h.reach)

/-- Keep a snapshot under a key. -/
def checkpoint (h : Host X) (key : String) : Except Error (Host X) :=
  if h.persistent then
    .ok { h.reach with snapshots := Dict.put h.snapshots key h.state.snapshot }
  else .error .noRepository

/-- Go on from the snapshot under a key; none when there is none. -/
def resume (h : Host X) (key : String) : Except Error (Option State) × Host X :=
  if h.persistent then
    match Dict.get? h.snapshots key with
    | none => (.ok none, h)
    | some text =>
      match h.engine.restore text with
      | .ok state => (.ok (some state), { h.reach with state })
      | .error e => (.error e, h.reach)
  else (.error .noRepository, h)

/-- Go on from a state. -/
def restore (h : Host X) (state : State) : Except Error Unit × Host X :=
  match h.engine.checkState state with
  | .ok () => (.ok (), { h.reach with state })
  | .error e => (.error e, h.reach)

end Host

end EventFlow

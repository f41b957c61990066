import EventFlow.Call
import EventFlow.Host.Action

/-!
# Backends

Calls and timers are run by tasks beside the engine, and what completes goes, as an event, into one
channel.  A `Backend` is what the tasks and whoever starts them share: the channel, and a table in
which tasks that can be stopped are found by the call or the timer they were started for.

A call is checked first, and one that cannot be run completes at once.  For any other a task is
spawned.  Its work waits at a gate, which opens when the task is in the table.  When its work has
ended, the task clears the entry in the table, and then it sends its completion.  Who stops a task
takes its entry out of the table and asks for the task to be aborted; that takes effect later, or
not at all if the task is just about to complete.

Whoever starts tasks, and all of the tasks, may go on at the same time.  So the code is cut into
`Move`s where others may come between.  Which moves are made, in which order, and how the work of a
task ends, is not decided here: a run is any list of moves.  A move for which it is not the time
changes nothing.
-/

set_option autoImplicit false

namespace EventFlow

/-- What a task was started for. -/
inductive Errand
  | call (dispatch : Dispatch)
  | timer (timer : TimerId)

/-- What a task is found by that was started for an errand. -/
def Errand.key : Errand → InvocationId ⊕ TimerId
  | call d => .inl d.invocation
  | timer t => .inr t

/-- How the work of a task ends: the action returns, fails or breaks down.  The work of a timer is
over when its time has come. -/
inductive Finish
  | returned (value : Json)
  | failed (failure : Failure)
  | panicked

/-- The outcome of a call whose work has ended. -/
def Outcome.ofFinish : Finish → Outcome
  | .returned value => .completed value
  | .failed failure => .failed failure
  | .panicked => .failed ⟨.transient, "action panicked"⟩

/-- The event that reports the end of a task. -/
def Errand.event (ending : Finish) : Errand → Event
  | call d => .actionResult d.invocation d.action (.ofFinish ending)
  | timer t => .timerFired t

/-- How far a task is. -/
inductive Task.Stage
  /-- It is not in the table yet. -/
  | spawned
  /-- It is in the table, and its gate is closed. -/
  | registered
  /-- Its gate is open. -/
  | working
  /-- Its work has ended. -/
  | ended (event : Event)
  /-- It has cleared its entry and is going to send an event. -/
  | cleared (event : Event)

/-- A task. -/
structure Task where
  number : Nat
  errand : Errand
  stage : Task.Stage
  /-- Whether somebody has asked for it to be stopped. -/
  aborted : Bool

/-- What tasks and those who start them share. -/
structure Backend where
  actions : Actions
  /-- How many tasks were spawned. -/
  spawned : Nat
  /-- The tasks that have neither completed nor been stopped. -/
  tasks : List Task
  /-- The numbers of the tasks that can be stopped. -/
  table : Dict (InvocationId ⊕ TimerId) Nat
  /-- All that was ever sent, first things first. -/
  sent : List Event
  /-- How much of that was taken from the channel. -/
  taken : Nat

/-- What happens to a backend without anything coming between. -/
inductive Move
  /-- A call is checked, inside an asynchronous runtime or not, and completes or gets a task. -/
  | call (d : Dispatch) (inside : Bool)
  /-- A timer gets a task, if it is started inside an asynchronous runtime. -/
  | timer (t : TimerId) (inside : Bool)
  /-- Who started a task puts it into the table. -/
  | register (task : Nat)
  /-- Who started a task opens its gate. -/
  | arm (task : Nat)
  /-- The work of a task ends. -/
  | finish (task : Nat) (ending : Finish)
  /-- A task takes its entry out of the table. -/
  | clear (task : Nat)
  /-- A task sends its completion, and is over. -/
  | send (task : Nat)
  /-- Somebody takes an entry out of the table and asks for its task to be stopped. -/
  | cancel (key : InvocationId ⊕ TimerId)
  /-- A task that was asked to stop is over. -/
  | drop (task : Nat)
  /-- Somebody takes the first event from the channel. -/
  | take

/-- Whether a move is made by those who start and stop tasks and take events from the channel.  The
others are made by the tasks and by what runs them. -/
def Move.isOwn : Move → Bool
  | call .. | timer .. | register _ | arm _ | cancel _ | take => true
  | finish .. | clear _ | send _ | drop _ => false

namespace Backend

/-- A backend that was not used yet. -/
def idle (actions : Actions) : Backend := ⟨actions, 0, [], [], [], 0⟩

variable (b : Backend)

/-- The events in the channel. -/
def channel : List Event := b.sent.drop b.taken

/-- How many calls are in the table. -/
def running : Nat := b.table.countP (·.1.isLeft)

/-- How many timers are in the table. -/
def scheduled : Nat := b.table.countP (·.1.isRight)

/-- A task that is not over. -/
def task? (k : Nat) : Option Task := b.tasks.find? (·.number = k)

/-- Put an event into the channel. -/
def put (e : Event) : Backend := { b with sent := b.sent ++ [e] }

/-- A call completes without having been run. -/
def reject (d : Dispatch) (f : Failure) : Backend :=
  b.put (.actionResult d.invocation d.action (.failed f))

/-- Start a task. -/
def spawn (errand : Errand) : Backend :=
  { b with tasks := b.tasks ++ [⟨b.spawned, errand, .spawned, false⟩], spawned := b.spawned + 1 }

/-- Move a task to a stage. -/
def setStage (k : Nat) (stage : Task.Stage) : Backend :=
  { b with tasks := b.tasks.map fun t => if t.number = k then { t with stage } else t }

/-- What becomes of the table and of the tasks when somebody stops the task under a key. -/
def stop (key : InvocationId ⊕ TimerId) (k : Nat) : Backend :=
  { b with
    table := Dict.remove b.table key
    tasks := b.tasks.map fun t => if t.number = k then { t with aborted := true } else t }

/-- Make a move. -/
def make : Move → Backend
  | .call d inside =>
    match b.actions.prepare d.action d.arguments with
    | .error f => b.reject d f
    | .ok _ =>
      if inside then b.spawn (.call d) else b.reject d ⟨.unavailable, "no async runtime"⟩
  | .timer t inside => if inside then b.spawn (.timer t) else b
  | .register k =>
    match b.task? k with
    | some ⟨_, errand, .spawned, _⟩ =>
      { b.setStage k .registered with
        table := (errand.key, k) :: Dict.remove b.table errand.key }
    | _ => b
  | .arm k =>
    match b.task? k with
    | some ⟨_, _, .registered, _⟩ => b.setStage k .working
    | _ => b
  | .finish k ending =>
    match b.task? k with
    | some ⟨_, errand, .working, _⟩ => b.setStage k (.ended (errand.event ending))
    | _ => b
  | .clear k =>
    match b.task? k with
    | some ⟨_, errand, .ended e, _⟩ =>
      { b.setStage k (.cleared e) with table := Dict.remove b.table errand.key }
    | _ => b
  | .send k =>
    match b.task? k with
    | some ⟨_, _, .cleared e, _⟩ => put { b with tasks := b.tasks.filter (·.number ≠ k) } e
    | _ => b
  | .cancel key =>
    match Dict.get? b.table key with
    | some k => b.stop key k
    | none => b
  | .drop k => { b with tasks := b.tasks.filter fun t => !(t.number == k && t.aborted) }
  | .take => { b with taken := min (b.taken + 1) b.sent.length }

/-- Make one move after the other. -/
def makes (moves : List Move) : Backend := moves.foldl make b

/-- Start the task of a timer or of a call that may be run, with nothing in between. -/
def starting (first : Move) : List Move := [first, .register b.spawned, .arm b.spawned]

end Backend

end EventFlow

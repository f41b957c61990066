import EventFlow.Emission
import EventFlow.Instance.Head
import EventFlow.Observation

/-!
# Instances

An instance is one execution of a flow: its heads, in the order they were made, and what is known
about all of them together.  Its `status` sums up the states of its heads and is brought up to date
(`refresh`) whenever they have moved; the observation that an instance has ended is made when the
status changes.

Every open fork has a *base*, the bindings of the forking head, against which a join finds out what
its branches have changed.
-/

set_option autoImplicit false

namespace EventFlow

/-- What an instance is doing. -/
inductive Status
  | starting
  /-- Some head is live. -/
  | active
  /-- Every live head waits for the result of a call. -/
  | waiting
  /-- All heads finished. -/
  | finished
  /-- All heads have come to their end, and some were aborted. -/
  | aborted
deriving DecidableEq

/-- Whether no head of the instance can move any more. -/
def Status.isTerminal : Status → Bool
  | finished | aborted => true
  | _ => false

/-- One execution of a flow. -/
structure Instance where
  id : InstanceId
  flow : FlowId
  priority : Int
  status : Status
  /-- In the order they were made. -/
  heads : List Head
  /-- The number of the instance in the order of creation. -/
  createdAt : Nat
  parent : Option InstanceId
  /-- The step in which it ended. -/
  terminatedAt : Option Nat
  /-- The reason of the head that was aborted first. -/
  abortReason : Option String
  /-- The identities of its emissions that lost. -/
  overridden : List String
  nextHead : Nat
  nextGroup : Nat
  /-- What the forking head knew, for every open fork. -/
  bases : Dict Nat Bindings
  /-- Observations that were not handed on yet. -/
  observations : List Observation

namespace Instance

/-- A new instance, with one head at the start, which keeps the bindings in the order of their
names. -/
def spawn (id : InstanceId) (flow : FlowId) (priority : Int) (createdAt : Nat)
    (parent : Option InstanceId) (bindings : Bindings) (specificity : Nat) : Instance where
  id
  flow
  priority
  status := .starting
  heads := [⟨⟨0⟩, 0, .ready, Dict.ofList bindings, [], specificity⟩]
  createdAt
  parent
  terminatedAt := none
  abortReason := none
  overridden := []
  nextHead := 1
  nextGroup := 0
  bases := []
  observations := []

/-- Make an observation. -/
def observe (i : Instance) (o : Observation) : Instance :=
  { i with observations := i.observations ++ [o] }

/-- The first head with an identity, and where it is in the list. -/
def slot? (i : Instance) (id : HeadId) : Option (Head × Nat) :=
  i.heads.zipIdx.find? fun s => s.1.id = id

/-- The first head with an identity. -/
def head? (i : Instance) (id : HeadId) : Option Head := i.heads.find? fun h => h.id = id

/-- Replace the head at a place in the list. -/
def setHead (i : Instance) (k : Nat) (h : Head) : Instance := { i with heads := i.heads.set k h }

/-- The heads that have not come to their end. -/
def liveHeads (i : Instance) : List Head := i.heads.filter fun h => !h.isTerminal

/-- What the states of the heads amount to. -/
def summary (i : Instance) : Status :=
  if i.heads.all Head.isTerminal then
    if i.abortReason.isSome then .aborted else .finished
  else if i.liveHeads.all (·.state.isWaiting) then .waiting
  else .active

/-- Bring the status up to date; an instance that has ended stays as it is. -/
def refresh (i : Instance) : Instance :=
  if i.status.isTerminal then i
  else
    let i := { i with status := i.summary }
    match i.status with
    | .finished => i.observe (.instanceFinished i.id i.flow)
    | .aborted => i.observe (.instanceAborted i.id i.flow (i.abortReason.getD ""))
    | _ => i

/-- Abort every live head from outside. -/
def abort (i : Instance) (reason : String) : Instance :=
  if i.status.isTerminal then i
  else
    let stop (h : Head) : Head := if h.isTerminal then h else { h with state := .aborted reason }
    refresh
      { i with heads := i.heads.map stop, abortReason := some (i.abortReason.getD reason) }

/-- The invocations whose results heads wait for. -/
def pendingCalls (i : Instance) : List InvocationId :=
  i.heads.filterMap fun h =>
    match h.state with
    | .waiting invocation _ _ => some invocation
    | _ => none

/-- The variables of all heads, those of later heads over those of earlier ones. -/
def localContext (i : Instance) : Bindings :=
  i.heads.foldl (fun context h => Dict.putAll context h.bindings) []

/-- Whether an event is a notice to another instance that its emission lost. -/
def addressedElsewhere (i : Instance) (e : Event) : Bool :=
  e.name = Event.overriddenName && e.text? "instance_id" != some i.id.text

/-- Whether an instance takes no notice of an event. -/
def isDeafTo (i : Instance) (e : Event) : Bool := i.status.isTerminal || i.addressedElsewhere e

/-- The heads an event moves, in order. -/
def matchingHeads (i : Instance) (e : Event) : List HeadId :=
  if i.isDeafTo e then []
  else (i.heads.filter fun h => (h.match? e).isSome).map Head.id

/-- Remember an emission that lost. -/
def noteOverridden (i : Instance) (id : String) : Instance :=
  { i with overridden := i.overridden ++ [id] }

/-- What an expression, a template or a condition of a head can see. -/
def scope (i : Instance) (globals : Dict String Json) (h : Head) : Scope :=
  ⟨h.bindings, globals, i.id, i.flow⟩

end Instance

end EventFlow

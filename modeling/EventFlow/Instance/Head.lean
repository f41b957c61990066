import EventFlow.Flow.Program

/-!
# Heads

A head is a cursor into the program of its flow, with variables of its own.  It is about to execute
an instruction (`ready`), waits for events, for the result of a call or for the other heads of a
fork, or has come to its end.

A head that a fork made belongs to one of its branches; memberships are listed innermost first.
-/

set_option autoImplicit false

namespace EventFlow

/-- An event a head waits for, and where it goes on then. -/
structure Expectation where
  pattern : Pattern
  resume : Nat

/-- What a head is doing. -/
inductive HeadState
  /-- About to execute the instruction at its position. -/
  | ready
  /-- Waiting for the first of some events; of two that one event matches, the earlier one wins. -/
  | expecting (expectations : List Expectation)
  /-- Waiting for the result of a call, which goes into a variable. -/
  | waiting (invocation : InvocationId) (result : Option Variable) (resume : Nat)
  /-- Waiting for the other heads of a fork. -/
  | atJoin (group : Nat)
  | finished
  | aborted (reason : String)

/-- The branch of a fork a head belongs to. -/
structure Branch where
  /-- The number of the fork within the instance. -/
  group : Nat
  /-- How many branches the fork has. -/
  size : Nat
  /-- The number of the branch. -/
  index : Nat
deriving DecidableEq

/-- A cursor into the program of a flow. -/
structure Head where
  id : HeadId
  position : Nat
  state : HeadState
  bindings : Bindings
  /-- The branches it belongs to, innermost first. -/
  branches : List Branch
  /-- How specific the last match was that moved it. -/
  specificity : Nat

/-- How an event moves a head. -/
structure HeadMatch where
  resume : Nat
  bindings : Bindings
  specificity : Nat
  /-- The variable that takes the event's payload. -/
  result : Option Variable

namespace HeadState

/-- Whether a head has come to its end. -/
def isTerminal : HeadState → Bool
  | finished | aborted _ => true
  | _ => false

/-- Whether a head is about to execute an instruction. -/
def isReady : HeadState → Bool
  | ready => true
  | _ => false

/-- Whether a head was aborted. -/
def isAborted : HeadState → Bool
  | aborted _ => true
  | _ => false

/-- Whether a head waits for the result of a call. -/
def isWaiting : HeadState → Bool
  | waiting .. => true
  | _ => false

/-- The fork whose other heads are waited for. -/
def joining? : HeadState → Option Nat
  | atJoin group => some group
  | _ => none

end HeadState

/-- The pattern of the result of one invocation. -/
def resultPattern (invocation : InvocationId) : Pattern :=
  ⟨Event.actionResultName, [("invocation_id", .literal (.str invocation.text))]⟩

namespace Head

/-- Whether a head has come to its end. -/
def isTerminal (h : Head) : Bool := h.state.isTerminal

/-- The events a head waits for. -/
def expectations (h : Head) : List Expectation :=
  match h.state with
  | .expecting expectations => expectations
  | .waiting invocation _ resume => [⟨resultPattern invocation, resume⟩]
  | _ => []

/-- The variable that takes the payload of the event a head waits for. -/
def resultTarget (h : Head) : Option Variable :=
  match h.state with
  | .waiting _ result _ => result
  | _ => none

/-- How an event moves a head: by the first expectation that it satisfies. -/
def match? (h : Head) (e : Event) : Option HeadMatch :=
  h.expectations.findSome? fun x =>
    (x.pattern.match? e h.bindings).map fun bindings =>
      ⟨x.resume, bindings, x.pattern.specificity, h.resultTarget⟩

/-- A head that waits for events. -/
def await (h : Head) (expectations : List Expectation) : Head :=
  { h with state := .expecting expectations }

/-- A head that stands elsewhere. -/
def goTo (h : Head) (position : Nat) : Head := { h with position }

/-- A head that has moved on by one instruction. -/
def advance (h : Head) : Head := h.goTo (h.position + 1)

/-- A head that goes down a branch of a fork. -/
def goDown (h : Head) (id : HeadId) (branch : Branch) (start : Nat) : Head :=
  { h with id, position := start, branches := branch :: h.branches }

/-- A head's place among those that join a fork: by branch, and in front if it has none. -/
def joinOrder (h : Head) : Nat :=
  match h.branches with
  | [] => 0
  | b :: _ => b.index + 1

end Head

end EventFlow

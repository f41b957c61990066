import EventFlow.Template

/-!
# Elements of flows

A flow's body is a list of elements, some of which hold further lists: the arms of a branch, the
branches of a fork, the arms of a race.  Elements name what they need by patterns, templates and
variables.
-/

set_option autoImplicit false

namespace EventFlow

/-- Where a sent event goes: back into the engine, or out of it. -/
inductive Delivery
  | internal
  | external
deriving DecidableEq

/-- The group in which an event or a call competes with those of other instances. -/
inductive Competition
  | byName
  | custom (key : String)
  | exempt
deriving DecidableEq

/-- An event to send. -/
structure SendSpec where
  name : String
  payload : Dict String Template
  delivery : Delivery
  competition : Competition

/-- Whether a head waits for the result of its call. -/
inductive CallMode
  | await
  | start
deriving DecidableEq

/-- A call of an action. -/
structure CallSpec where
  action : String
  args : Dict String Template
  result : Option Variable
  mode : CallMode
  invocation : Option Variable
  competition : Competition

/-- An element of the body of a flow. -/
inductive Element
  /-- Wait for an event. -/
  | expect (pattern : Pattern)
  /-- Send an event. -/
  | send (event : SendSpec)
  /-- Call an action. -/
  | call (spec : CallSpec)
  /-- Go on with one of two sequences. -/
  | branch (condition : String) (yes no : List Element)
  /-- Go on with several sequences at once, one head for each. -/
  | fork (branches : List (List Element))
  /-- Wait for the other heads of the innermost fork. -/
  | join
  /-- Wait for the first of several events; of two arms one event matches, the earlier one wins. -/
  | race (arms : List (Pattern × List Element))
  /-- Write a variable. -/
  | assign (target : Variable) (value : Template)
  /-- Ask to be told when some milliseconds have passed. -/
  | startTimer (duration : Nat) (timer : Option Variable)
  /-- Start another flow. -/
  | startFlow (flow : FlowId) (child : Option Variable)
  /-- Abort the head. -/
  | abort (reason : String)

/-- A flow: what starts it, and what it does. -/
structure Flow where
  id : FlowId
  description : Option String
  priority : Option Int
  activation : Option Pattern
  body : List Element

/-- The key under which an event or action with a name competes; none when it does not. -/
def Competition.keyFor (c : Competition) (name : String) : Option String :=
  match c with
  | .byName => some name
  | .custom key => some key
  | .exempt => none

mutual

/-- The flows an element starts, in order. -/
def Element.children : Element → List FlowId
  | .startFlow flow _ => [flow]
  | .branch _ yes no => bodyChildren yes ++ bodyChildren no
  | .fork branches => branchChildren branches
  | .race arms => armChildren arms
  | _ => []

/-- The flows the elements of a sequence start, in order. -/
def bodyChildren : List Element → List FlowId
  | [] => []
  | e :: es => e.children ++ bodyChildren es

/-- The flows the branches of a fork start, in order. -/
def branchChildren : List (List Element) → List FlowId
  | [] => []
  | b :: bs => bodyChildren b ++ branchChildren bs

/-- The flows the arms of a race start, in order. -/
def armChildren : List (Pattern × List Element) → List FlowId
  | [] => []
  | (_, b) :: arms => bodyChildren b ++ armChildren arms

end

namespace Flow

/-- The flows a flow starts, in order and as often as it names them. -/
def children (f : Flow) : List FlowId := bodyChildren f.body

end Flow

/-! ## Building flows -/

namespace SendSpec

/-- An internal event without a payload. -/
def named (name : String) : SendSpec := ⟨name, [], .internal, .byName⟩

/-- Give a member of the payload. -/
def withField (s : SendSpec) (field : String) (value : Template) : SendSpec :=
  { s with payload := Dict.put s.payload field value }

end SendSpec

namespace CallSpec

/-- An awaited call without arguments. -/
def named (action : String) : CallSpec := ⟨action, [], none, .await, none, .byName⟩

/-- Give an argument. -/
def withArg (c : CallSpec) (name : String) (value : Template) : CallSpec :=
  { c with args := Dict.put c.args name value }

/-- Do not wait for the result, but keep the invocation's identity in a variable. -/
def started (c : CallSpec) (invocation : Variable) : CallSpec :=
  { c with mode := .start, invocation := some invocation }

end CallSpec

namespace Flow

/-- A flow without a body. -/
def named (id : FlowId) : Flow := ⟨id, none, none, none, []⟩

/-- Append an element. -/
def andThen (f : Flow) (e : Element) : Flow := { f with body := f.body ++ [e] }

end Flow

end EventFlow

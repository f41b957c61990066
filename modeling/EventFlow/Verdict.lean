import EventFlow.Event
import EventFlow.Json.Text

/-!
# Verdicts

The built-in action `evaluate_verdicts` sums up the results of several evaluators: every one has to
pass, or one is enough.  What is not a list of results does not pass; an empty list passes only if
every one has to.
-/

set_option autoImplicit false

namespace EventFlow

/-- How results are summed up. -/
inductive Strategy
  | allPass
  | anyPass
deriving DecidableEq

namespace Strategy

/-- The strategy that JSON holds. -/
def ofJson? (j : Json) : Option Strategy :=
  match j.tag? .outer with
  | some "all_pass" => some allPass
  | some "any_pass" => some anyPass
  | _ => none

end Strategy

namespace Verdict

/-- The name of the action. -/
def actionName : String := "evaluate_verdicts"

/-- The arguments the action cannot do without. -/
def required : List String := ["response"]

/-- Whether a value counts as a pass: anything but absence, falsehood, zero and emptiness. -/
def isPositive : Json → Bool
  | .null => false
  | .bool b => b
  | .num n => !n.toDouble.isZero
  | .str s => !s.isEmpty
  | .arr items => !items.isEmpty
  | .obj fields => !fields.isEmpty

/-- The member of an object. -/
def member? (j : Json) (key : String) : Option Json :=
  j.fields?.bind fun fields => Dict.get? fields key

/-- Whether an evaluator passed. -/
def passed (result : Json) : Bool :=
  ((member? result "evaluation_result").bind (member? · "pass")).any isPositive

/-- Whether a response passes. -/
def passes (s : Strategy) (response : Json) : Bool :=
  match (member? response "results").bind Json.items? with
  | none => false
  | some results =>
    match s with
    | .allPass => results.all passed
    | .anyPass => results.any passed

/-- The strategy among the arguments of a call, or why it is none. -/
def strategy (arguments : Dict String Json) : Except Failure Strategy :=
  match Dict.get? arguments "success_strategy" with
  | none | some .null => .ok .allPass
  | some j =>
    match Strategy.ofJson? j with
    | some s => .ok s
    | none =>
      .error ⟨.invalidArguments,
        "success_strategy must be 'all_pass' or 'any_pass', got " ++ j.text⟩

/-- What the action returns. -/
def evaluate (arguments : Dict String Json) : Except Failure Json := do
  let s ← strategy arguments
  let response := (Dict.get? arguments "response").getD .null
  return .object [("pass", .bool (passes s response))]

end Verdict

end EventFlow

import EventFlow.Flow.Element
import EventFlow.Text.Blank

/-!
# Which flows may be loaded

Every element must be well-formed by itself, and forks and joins must pair up: a join closes the
latest open fork of its own sequence, and a nested sequence has to close all the forks it opens.  A
fork that the flow's own sequence leaves open is never joined, which is allowed.

The check walks a sequence with the number of open forks and reports the first thing that is wrong.
-/

set_option autoImplicit false

namespace EventFlow

variable {Compiled Found : Type} [Query.Library Compiled Found]

/-- A key that competitors share is not empty. -/
def Competition.check (owner : String) : Competition → Check
  | .custom key => Check.refuseIf key.isEmpty (.emptyConflictKey owner)
  | _ => .ok ()

/-- All templates of a map are well-formed. -/
def checkTemplates (templates : Dict String Template) : Check :=
  (Dict.values templates).forM Template.check

/-- A variable, if there is one, may be written to. -/
def checkTarget : Option Variable → Check
  | none => .ok ()
  | some v => v.check

/-- An event to send has a name, and its parts are well-formed. -/
def SendSpec.check (s : SendSpec) : Check := do
  Check.refuseIf (isBlank s.name) .blankSend
  s.competition.check ("send " ++ s.name)
  checkTemplates s.payload

/-- A call names an action, and its parts are well-formed. -/
def CallSpec.check (c : CallSpec) : Check := do
  Check.refuseIf (isBlank c.action) .blankAction
  c.competition.check ("execute " ++ c.action)
  checkTemplates c.args
  checkTarget c.result
  checkTarget c.invocation

mutual

/-- What is wrong within an element. -/
def Element.check : Element → Check
  | .expect pattern => pattern.check
  | .send event => event.check
  | .call spec => spec.check
  | .branch condition yes no => do
    checkExpression condition
    checkBody true 0 yes
    checkBody true 0 no
  | .fork branches => do
    Check.refuseIf branches.isEmpty .emptyFork
    checkBranches branches
  | .join => .ok ()
  | .race arms => do
    Check.refuseIf arms.isEmpty .emptyRace
    checkArms arms
  | .assign target value => do
    target.check
    value.check
  | .startTimer _ timer => checkTarget timer
  | .startFlow flow child => do
    Check.refuseIf (isBlank flow.text) .blankChildFlow
    checkTarget child
  | .abort _ => .ok ()

/-- What is wrong in a sequence behind `opened` forks that are not joined yet. -/
def checkBody (nested : Bool) (opened : Nat) : List Element → Check
  | [] => Check.refuseIf (nested && opened != 0) .unjoinedFork
  | .join :: rest =>
    match opened with
    | 0 => .error (.invalid .strayJoin)
    | opened + 1 => checkBody nested opened rest
  | .fork branches :: rest => do
    (Element.fork branches).check
    checkBody nested (opened + 1) rest
  | e :: rest => do
    e.check
    checkBody nested opened rest

/-- What is wrong in the branches of a fork. -/
def checkBranches : List (List Element) → Check
  | [] => .ok ()
  | b :: bs => do
    checkBody true 0 b
    checkBranches bs

/-- What is wrong in the arms of a race. -/
def checkArms : List (Pattern × List Element) → Check
  | [] => .ok ()
  | (pattern, b) :: arms => do
    pattern.check
    checkBody true 0 b
    checkArms arms

end

/-- An error found in the body of a flow: a flaw is reported with the flow it is in. -/
def Error.inFlow (id : FlowId) : Error → Error
  | .invalid flaw => .invalid (.inFlow id flaw)
  | e => e

/-- A flow has a name, and its activation and its body are well-formed. -/
def Flow.check (f : Flow) : Check := do
  Check.refuseIf (isBlank f.id.text) .blankFlowId
  match f.activation with
  | some pattern => pattern.check
  | none => .ok ()
  (checkBody false 0 f.body).mapError (Error.inFlow f.id)

end EventFlow

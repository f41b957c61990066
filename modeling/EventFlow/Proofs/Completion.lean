import EventFlow.Proofs.Engine.Record
import EventFlow.Proofs.Path

/-!
# Completions

A call that ends and a timer that fires are reported by events.  These events pass the check that
every event handed in has to pass, and the result of a call says how the call ended: whoever reads
the outcome from it reads the outcome that was written, values that are `null` and failures of all
kinds included.

## What is here

* `check_actionResult` and `check_timerFired`: completions are never refused.
* **`ofEvent_actionResult`**: the outcome of a call is read back from its result.
* **`accept?_actionResult`**: the result of a call in flight is entered as it is.
-/

set_option autoImplicit false

namespace EventFlow

variable {n : InvocationId} {action key : String} {o : Outcome}

namespace Event

/-- A key without a dot is looked up among the members of the payload. -/
theorem field?_of_notMem {e : Event} (h : '.' ∉ key.toList) :
    e.field? key = Dict.get? e.payload key :=
  Path.get?_of_notMem h

/-- The members of a result that tell the outcome. -/
theorem fields_actionResult (n : InvocationId) (action : String) (o : Outcome) :
    let e := Event.actionResult n action o
    e.text? "invocation_id" = some n.text ∧
      match o with
      | .completed value => e.text? "status" = some "completed" ∧ e.field? "value" = some value
      | .failed f =>
        e.text? "status" = some "failed" ∧ e.field? "reason" = some (.str f.kind.name) ∧
          e.field? "error" = some f.toJson := by
  have hinvocation : '.' ∉ "invocation_id".toList := by decide
  have hstatus : '.' ∉ "status".toList := by decide
  have hvalue : '.' ∉ "value".toList := by decide
  have hreason : '.' ∉ "reason".toList := by decide
  have herror : '.' ∉ "error".toList := by decide
  cases o <;>
    simp [text?, field?_of_notMem hinvocation, field?_of_notMem hstatus, field?_of_notMem hvalue,
      field?_of_notMem hreason, field?_of_notMem herror, actionResult, Dict.get?_cons, Json.str?]

theorem isEmpty_append (s : String) {t : String} (ht : t ≠ "") : (s ++ t).isEmpty = false := by
  simp [ht]

theorem invocation?_actionResult (n : InvocationId) (action : String) (o : Outcome) :
    (actionResult n action o).invocation? = some n := by
  rw [invocation?, (fields_actionResult n action o).1]
  rfl

/-- **The result of a call passes the check for events.** -/
theorem check_actionResult (n : InvocationId) (action : String) (o : Outcome) :
    (actionResult n action o).check = .ok () := by
  obtain ⟨hinvocation, houtcome⟩ := fields_actionResult n action o
  have hname : isBlank actionResultName = false := by decide
  have hid : (actionResult n action o).id.text.isEmpty = false :=
    isEmpty_append n.text (by decide)
  rw [check, show (actionResult n action o).name = actionResultName from rfl, hname, hid]
  change (actionResult n action o).checkResult = .ok ()
  rw [checkResult, hinvocation]
  cases o with
  | completed value =>
    rw [houtcome.1]
    rfl
  | failed f =>
    rw [houtcome.1, houtcome.2.1]
    rfl

/-- The firing of a timer passes the check for events. -/
theorem check_timerFired (t : TimerId) : (timerFired t).check = .ok () := by
  have hname : isBlank timerFiredName = false := by decide
  have hid : (timerFired t).id.text.isEmpty = false := isEmpty_append t.text (by decide)
  have htimer : (timerFired t).text? "timer_id" = some t.text := by
    have hdot : '.' ∉ "timer_id".toList := by decide
    rw [text?, field?_of_notMem hdot]
    rfl
  rw [check, show (timerFired t).name = timerFiredName from rfl, hname, hid, htimer]
  rfl

end Event

/-- **The outcome of a call is read back from its result.** -/
theorem Outcome.ofEvent_actionResult (n : InvocationId) (action : String) (o : Outcome) :
    ofEvent (.actionResult n action o) = o := by
  obtain ⟨-, houtcome⟩ := Event.fields_actionResult n action o
  cases o with
  | completed value =>
    rw [ofEvent, if_pos houtcome.1, houtcome.2]
    rfl
  | failed f =>
    have hnot : (Event.actionResult n action (.failed f)).text? "status" ≠ some "completed" := by
      rw [houtcome.1]
      decide
    rw [ofEvent, if_neg hnot, houtcome.2.2, Option.bind_some, f.ofJson?_toJson .outer]

/-- **The result of a call that is in flight is entered, with the outcome it was made from.** -/
theorem Calls.accept?_actionResult {calls : Calls} {call : PendingCall}
    (hcall : Dict.get? calls n = some call) (hflight : call.isInFlight = true) :
    calls.accept? (.actionResult n action o) =
      some (Dict.put calls n { call with status := .ofOutcome o, result := some o }) := by
  rw [accept?, Event.invocation?_actionResult, Option.bind_eq_bind, Option.bind_some, hcall,
    Option.bind_eq_bind, Option.bind_some, if_pos hflight, Outcome.ofEvent_actionResult]
  rfl

end EventFlow

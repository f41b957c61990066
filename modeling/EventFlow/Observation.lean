import EventFlow.Id
import EventFlow.Json.Fields

/-!
# Observations

An `Observation` is something worth reporting about a run.  Observations never influence what
happens; they are handed to whoever watches, those of instances after every round.
-/

set_option autoImplicit false

namespace EventFlow

/-- Something worth reporting. -/
inductive Observation
  | instanceSpawned (instanceId : InstanceId) (flow : FlowId) (parent : Option InstanceId)
  | instanceFinished (instanceId : InstanceId) (flow : FlowId)
  | instanceAborted (instanceId : InstanceId) (flow : FlowId) (reason : String)
  | instanceEvicted (instanceId : InstanceId) (flow : FlowId)
  | headAborted (instanceId : InstanceId) (head : HeadId) (reason : String)
  | emissionOverridden (instanceId : InstanceId) (eventName key : String) (winner : InstanceId)
  | tieBroken (key : String) (winner runnerUp : InstanceId) (unresolvable : Bool)
  | activationLimitReached (flow : FlowId) (pattern : String) (limit : Nat)
  | actionDispatched (instanceId : InstanceId) (invocation : InvocationId) (action : String)
  | actionCancelled (invocation : InvocationId) (action : String)
  | lateResult (invocation : InvocationId)
  | duplicateDropped (event : EventId) (eventName : String)
  | budgetExhausted (step : Nat) (dropped : Nat)
deriving DecidableEq

namespace Observation

/-- The dotted name of a kind of observation. -/
def name : Observation → String
  | instanceSpawned .. => "instance.spawned"
  | instanceFinished .. => "instance.finished"
  | instanceAborted .. => "instance.aborted"
  | instanceEvicted .. => "instance.evicted"
  | headAborted .. => "head.aborted"
  | emissionOverridden .. => "emission.overridden"
  | tieBroken .. => "conflict.tie_broken"
  | activationLimitReached .. => "activation.limit_reached"
  | actionDispatched .. => "action.dispatched"
  | actionCancelled .. => "action.cancelled"
  | lateResult .. => "action.late_result"
  | duplicateDropped .. => "event.duplicate_dropped"
  | budgetExhausted .. => "step.budget_exhausted"

/-- The instance an observation is about; of a broken tie, the winner. -/
def instanceId? : Observation → Option InstanceId
  | instanceSpawned i _ _ | instanceFinished i _ | instanceAborted i _ _ | instanceEvicted i _
  | headAborted i _ _ | emissionOverridden i _ _ _ | actionDispatched i _ _ => some i
  | tieBroken _ winner _ _ => some winner
  | _ => none

/-- An observation written as JSON. -/
def toJson : Observation → Json
  | instanceSpawned i flow parent =>
    .object
      [("type", .str "instance_spawned"), ("instance_id", .str i.text), ("flow", .str flow.text),
       ("parent", Json.option (fun p => .str p.text) parent)]
  | instanceFinished i flow =>
    .object
      [("type", .str "instance_finished"), ("instance_id", .str i.text), ("flow", .str flow.text)]
  | instanceAborted i flow reason =>
    .object
      [("type", .str "instance_aborted"), ("instance_id", .str i.text), ("flow", .str flow.text),
       ("reason", .str reason)]
  | instanceEvicted i flow =>
    .object
      [("type", .str "instance_evicted"), ("instance_id", .str i.text), ("flow", .str flow.text)]
  | headAborted i head reason =>
    .object
      [("type", .str "head_aborted"), ("instance_id", .str i.text), ("head", .ofNat head.number),
       ("reason", .str reason)]
  | emissionOverridden i eventName key winner =>
    .object
      [("type", .str "emission_overridden"), ("instance_id", .str i.text),
       ("event_name", .str eventName), ("conflict_key", .str key), ("winner", .str winner.text)]
  | tieBroken key winner runnerUp unresolvable =>
    .object
      [("type", .str "conflict_tie_broken"), ("conflict_key", .str key),
       ("winner", .str winner.text), ("runner_up", .str runnerUp.text),
       ("unresolvable", .bool unresolvable)]
  | activationLimitReached flow pattern limit =>
    .object
      [("type", .str "activation_limit_reached"), ("flow", .str flow.text),
       ("pattern", .str pattern), ("limit", .ofNat limit)]
  | actionDispatched i invocation action =>
    .object
      [("type", .str "action_dispatched"), ("instance_id", .str i.text),
       ("invocation_id", .str invocation.text), ("action", .str action)]
  | actionCancelled invocation action =>
    .object
      [("type", .str "action_cancelled"), ("invocation_id", .str invocation.text),
       ("action", .str action)]
  | lateResult invocation =>
    .object [("type", .str "late_action_result"), ("invocation_id", .str invocation.text)]
  | duplicateDropped event eventName =>
    .object
      [("type", .str "duplicate_event_dropped"), ("event_id", .str event.text),
       ("event_name", .str eventName)]
  | budgetExhausted step dropped =>
    .object
      [("type", .str "step_budget_exhausted"), ("step", .ofNat step), ("dropped", .ofNat dropped)]

/-- The types of observations. -/
def types : List String :=
  ["instance_spawned", "instance_finished", "instance_aborted", "instance_evicted", "head_aborted",
   "emission_overridden", "conflict_tie_broken", "activation_limit_reached", "action_dispatched",
   "action_cancelled", "late_action_result", "duplicate_event_dropped", "step_budget_exhausted"]

/-- The observation that JSON holds. -/
def ofJson? (j : Json) : Option Observation := do
  let fields ← j.fields?
  let text (key : String) : Option String := Json.required fields key Json.str?
  match ← text "type" with
  | "instance_spawned" => do
    let parent ← Json.optional fields "parent" Json.str?
    return instanceSpawned ⟨← text "instance_id"⟩ ⟨← text "flow"⟩ (parent.map InstanceId.mk)
  | "instance_finished" => return instanceFinished ⟨← text "instance_id"⟩ ⟨← text "flow"⟩
  | "instance_aborted" =>
    return instanceAborted ⟨← text "instance_id"⟩ ⟨← text "flow"⟩ (← text "reason")
  | "instance_evicted" => return instanceEvicted ⟨← text "instance_id"⟩ ⟨← text "flow"⟩
  | "head_aborted" => do
    let head ← Json.required fields "head" Json.nat32?
    return headAborted ⟨← text "instance_id"⟩ ⟨head⟩ (← text "reason")
  | "emission_overridden" =>
    return emissionOverridden ⟨← text "instance_id"⟩ (← text "event_name") (← text "conflict_key")
      ⟨← text "winner"⟩
  | "conflict_tie_broken" => do
    let unresolvable ← Json.required fields "unresolvable" Json.bool?
    return tieBroken (← text "conflict_key") ⟨← text "winner"⟩ ⟨← text "runner_up"⟩ unresolvable
  | "activation_limit_reached" => do
    let limit ← Json.required fields "limit" Json.nat64?
    return activationLimitReached ⟨← text "flow"⟩ (← text "pattern") limit
  | "action_dispatched" =>
    return actionDispatched ⟨← text "instance_id"⟩ ⟨← text "invocation_id"⟩ (← text "action")
  | "action_cancelled" => return actionCancelled ⟨← text "invocation_id"⟩ (← text "action")
  | "late_action_result" => return lateResult ⟨← text "invocation_id"⟩
  | "duplicate_event_dropped" => return duplicateDropped ⟨← text "event_id"⟩ (← text "event_name")
  | "step_budget_exhausted" => do
    let step ← Json.required fields "step" Json.nat64?
    let dropped ← Json.required fields "dropped" Json.nat64?
    return budgetExhausted step dropped
  | _ => none

end Observation

end EventFlow

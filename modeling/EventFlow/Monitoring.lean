import EventFlow.Observation

/-!
# Monitoring

A `Tally` counts the observations that say how an engine is doing.  `Monitoring` says whether it is
kept, and how the log looks.
-/

set_option autoImplicit false

namespace EventFlow

/-- How often each of some observations was made. -/
structure Tally where
  instancesSpawned : Nat
  instancesFinished : Nat
  instancesAborted : Nat
  emissionsOverridden : Nat
  ties : Nat
  actionsDispatched : Nat
  actionsCancelled : Nat
  lateResults : Nat
  activationLimits : Nat
  budgetsExhausted : Nat
deriving DecidableEq

namespace Tally

/-- The tally of no observations. -/
def zero : Tally := ⟨0, 0, 0, 0, 0, 0, 0, 0, 0, 0⟩

/-- Count one observation. -/
def record (t : Tally) : Observation → Tally
  | .instanceSpawned .. => { t with instancesSpawned := t.instancesSpawned + 1 }
  | .instanceFinished .. => { t with instancesFinished := t.instancesFinished + 1 }
  | .instanceAborted .. => { t with instancesAborted := t.instancesAborted + 1 }
  | .emissionOverridden .. => { t with emissionsOverridden := t.emissionsOverridden + 1 }
  | .tieBroken .. => { t with ties := t.ties + 1 }
  | .actionDispatched .. => { t with actionsDispatched := t.actionsDispatched + 1 }
  | .actionCancelled .. => { t with actionsCancelled := t.actionsCancelled + 1 }
  | .lateResult .. => { t with lateResults := t.lateResults + 1 }
  | .activationLimitReached .. => { t with activationLimits := t.activationLimits + 1 }
  | .budgetExhausted .. => { t with budgetsExhausted := t.budgetsExhausted + 1 }
  | .instanceEvicted .. | .headAborted .. | .duplicateDropped .. => t

/-- Count some observations. -/
def ofObservations (os : List Observation) : Tally := os.foldl record zero

/-- A tally written as JSON. -/
def toJson (t : Tally) : Json :=
  .object
    [("instances_spawned", .ofNat t.instancesSpawned),
     ("instances_finished", .ofNat t.instancesFinished),
     ("instances_aborted", .ofNat t.instancesAborted),
     ("emissions_overridden", .ofNat t.emissionsOverridden), ("conflict_ties", .ofNat t.ties),
     ("actions_dispatched", .ofNat t.actionsDispatched),
     ("actions_cancelled", .ofNat t.actionsCancelled), ("late_results", .ofNat t.lateResults),
     ("activation_limits", .ofNat t.activationLimits),
     ("budget_exhausted", .ofNat t.budgetsExhausted)]

end Tally

/-- How an engine is monitored. -/
structure Monitoring where
  serviceName : String
  /-- Whether observations are counted. -/
  metrics : Bool
  logFilter : String
  jsonLogging : Bool
deriving DecidableEq

namespace Monitoring

/-- The default of every setting. -/
def default : Monitoring := ⟨"railflow", true, "info", false⟩

/-- What is counted of some observations. -/
def tally (m : Monitoring) (os : List Observation) : Tally :=
  if m.metrics then .ofObservations os else .zero

/-- The settings written as JSON. -/
def toJson (m : Monitoring) : Json :=
  .object
    [("service_name", .str m.serviceName), ("enable_metrics", .bool m.metrics),
     ("log_filter", .str m.logFilter), ("enable_json_logging", .bool m.jsonLogging)]

/-- The settings that JSON holds. -/
def ofJson? (j : Json) : Option Monitoring := do
  let fields ← j.record?
    ⟨[], ["service_name", "enable_metrics", "log_filter", "enable_json_logging"]⟩
  let serviceName ← Json.orElse fields "service_name" default.serviceName Json.str?
  let metrics ← Json.orElse fields "enable_metrics" default.metrics Json.bool?
  let logFilter ← Json.orElse fields "log_filter" default.logFilter Json.str?
  let jsonLogging ← Json.orElse fields "enable_json_logging" default.jsonLogging Json.bool?
  return ⟨serviceName, metrics, logFilter, jsonLogging⟩

end Monitoring

end EventFlow

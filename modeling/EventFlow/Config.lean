import EventFlow.Error
import EventFlow.Json.Fields

/-!
# Configuration

The limits of a step and the rules for priorities and ties.  Every setting has a default, so the
empty object is a configuration.
-/

set_option autoImplicit false

namespace EventFlow

/-- Which of two instances of equal rank wins. -/
inductive TieBreak
  | earliestFirst
  | latestFirst
deriving DecidableEq

/-- How an engine runs. -/
structure Config where
  /-- How often one activation pattern may start its flow in a step. -/
  maxInstancesPerPattern : Nat
  /-- How many events a step may process. -/
  maxEventsPerStep : Nat
  /-- How many steps an instance that has ended can still be seen. -/
  graceSteps : Nat
  /-- The priority of flows that have none of their own. -/
  defaultPriority : Int
  tieBreak : TieBreak
  /-- Where identifiers start; anywhere when it is not given. -/
  idSeed : Option Nat
deriving DecidableEq

namespace TieBreak

/-- The name of a tie-break. -/
def name : TieBreak → String
  | earliestFirst => "earliest-first"
  | latestFirst => "latest-first"

/-- The tie-break with a name. -/
def ofName? : String → Option TieBreak
  | "earliest-first" => some earliestFirst
  | "latest-first" => some latestFirst
  | _ => none

end TieBreak

namespace Config

/-- The default of every setting. -/
def default : Config := ⟨8, 1000, 1, 50, .earliestFirst, none⟩

/-- Limits that would stop every step are refused. -/
def check (c : Config) : Check := do
  if c.maxInstancesPerPattern = 0 then throw (.zeroLimit "max_instances_per_pattern")
  if c.maxEventsPerStep = 0 then throw (.zeroLimit "max_events_per_step")

/-- A configuration written as JSON. -/
def toJson (c : Config) : Json :=
  .object
    [("max_instances_per_pattern", .ofNat c.maxInstancesPerPattern),
     ("max_events_per_step", .ofNat c.maxEventsPerStep),
     ("terminal_grace_steps", .ofNat c.graceSteps), ("default_priority", .ofInt c.defaultPriority),
     ("tie_break", .str c.tieBreak.name), ("id_seed", Json.option .ofNat c.idSeed)]

/-- The configuration with the given members. -/
def ofFields? (fields : Dict String Json) : Option Config := do
  let maxInstancesPerPattern ←
    Json.orElse fields "max_instances_per_pattern" default.maxInstancesPerPattern Json.nat64?
  let maxEventsPerStep ←
    Json.orElse fields "max_events_per_step" default.maxEventsPerStep Json.nat64?
  let graceSteps ← Json.orElse fields "terminal_grace_steps" default.graceSteps Json.nat64?
  let defaultPriority ← Json.orElse fields "default_priority" default.defaultPriority Json.int32?
  let tieBreak ←
    Json.orElse fields "tie_break" default.tieBreak fun t => (t.tag? .outer).bind TieBreak.ofName?
  let idSeed ← Json.optional fields "id_seed" Json.nat64?
  return ⟨maxInstancesPerPattern, maxEventsPerStep, graceSteps, defaultPriority, tieBreak, idSeed⟩

/-- The members of a configuration. -/
def row : Json.Row where
  needed := []
  further :=
    ["max_instances_per_pattern", "max_events_per_step", "terminal_grace_steps",
     "default_priority", "tie_break", "id_seed"]

/-- The configuration that JSON holds. -/
def ofJson? (j : Json) : Option Config := (j.record? row).bind ofFields?

end Config

end EventFlow

import EventFlow.Config
import EventFlow.Text.Numeral

/-!
# Configurations from environments

Variables of the environment override settings.  A variable whose value the setting cannot have
changes nothing.
-/

set_option autoImplicit false

namespace EventFlow

/-- The tie-break with a name in letters of either case. -/
def TieBreak.ofVariable? (text : String) : Option TieBreak := ofName? (text.map Char.toLower)

namespace Config

/-- Override a setting by a variable, if that is there and `read` accepts it. -/
def overrideBy {α : Type} (environment : Dict String String) (key : String)
    (read : String → Option α) (set : Config → α → Config) (c : Config) : Config :=
  match (Dict.get? environment key).bind read with
  | some value => set c value
  | none => c

/-- Override settings by the variables of an environment. -/
def override (environment : Dict String String) (c : Config) : Config :=
  let nat64? := Numeral.natural? UInt64.size
  let int32? := Numeral.integer? (-Numeral.int32Bound) Numeral.int32Bound
  c |> overrideBy environment "RAILFLOW_MAX_INSTANCES_PER_PATTERN" nat64?
      (fun c n => { c with maxInstancesPerPattern := n })
    |> overrideBy environment "RAILFLOW_MAX_EVENTS_PER_STEP" nat64?
      (fun c n => { c with maxEventsPerStep := n })
    |> overrideBy environment "RAILFLOW_TERMINAL_GRACE_STEPS" nat64?
      (fun c n => { c with graceSteps := n })
    |> overrideBy environment "RAILFLOW_DEFAULT_PRIORITY" int32?
      (fun c i => { c with defaultPriority := i })
    |> overrideBy environment "RAILFLOW_TIE_BREAK" TieBreak.ofVariable?
      (fun c t => { c with tieBreak := t })
    |> overrideBy environment "RAILFLOW_ID_SEED" nat64? (fun c n => { c with idSeed := some n })

/-- The configuration of an environment, if an engine can run with it. -/
def ofEnvironment (environment : Dict String String) : Except Error Config :=
  let c := default.override environment
  c.check.map fun _ => c

end Config

end EventFlow

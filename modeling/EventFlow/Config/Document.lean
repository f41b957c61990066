import EventFlow.Config
import EventFlow.Yaml.Parse

/-!
# Configurations in documents

A document gives settings by name; what it leaves out has its default, and names that are no
settings are ignored.  A setting given twice is refused, like a value that the setting cannot have.
-/

set_option autoImplicit false

namespace EventFlow

namespace Config

/-- The names of the settings. -/
def settings : List String :=
  ["max_instances_per_pattern", "max_events_per_step", "terminal_grace_steps", "default_priority",
   "tie_break", "id_seed"]

/-- Give a setting a value. -/
def set? (c : Config) (name : String) (value : Yaml) : Option Config :=
  match name with
  | "max_instances_per_pattern" => value.nat64?.map fun n => { c with maxInstancesPerPattern := n }
  | "max_events_per_step" => value.nat64?.map fun n => { c with maxEventsPerStep := n }
  | "terminal_grace_steps" => value.nat64?.map fun n => { c with graceSteps := n }
  | "default_priority" => value.int32?.map fun i => { c with defaultPriority := i }
  | "tie_break" => (value.choice?.bind TieBreak.ofName?).map fun t => { c with tieBreak := t }
  | "id_seed" => (value.optional? Yaml.nat64?).map fun n => { c with idSeed := n }
  | _ => some c

/-- The configuration with the given settings. -/
def ofSettings? (entries : List (String × Yaml)) : Option Config :=
  let known := (entries.map Prod.fst).filter settings.contains
  if known.eraseDups.length = known.length then
    entries.foldlM (fun c e => c.set? e.1 e.2) default
  else none

/-- The configuration that the value of a document holds. -/
def ofYaml? (document : Yaml) : Option Config :=
  match document with
  | .scalar _ .plain text => if text.isEmpty then some default else none
  | .mapping _ entries => do
    let entries ← entries.mapM fun e =>
      (document.resolve e.1).text?.map fun name => (name, document.resolve e.2)
    ofSettings? entries
  | _ => none

/-- The configuration that a document holds, if an engine can run with it. -/
def ofDocument (text : String) : Except Error Config :=
  match (Yaml.parse? text).bind ofYaml? with
  | none => .error .malformedDocument
  | some c => c.check.map fun _ => c

end Config

end EventFlow

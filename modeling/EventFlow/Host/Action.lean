import EventFlow.Text.Quoted
import EventFlow.Verdict

/-!
# Actions

An action has a name and declares the arguments that it cannot do without.  What it does when it is
called is up to whoever wrote it: it may take as long as it likes, depend on anything, return
another value each time, fail or break down.
-/

set_option autoImplicit false

namespace EventFlow

/-- What is known of an action that can be called. -/
structure Action where
  name : String
  /-- The arguments it cannot do without. -/
  required : List String

/-- The actions that can be called, by name. -/
abbrev Actions := Dict String Action

namespace Actions

/-- The actions that are always there. -/
def builtIn : Actions := [(Verdict.actionName, ⟨Verdict.actionName, Verdict.required⟩)]

/-- Add an action, in place of any other of its name. -/
def register (actions : Actions) (a : Action) : Actions := Dict.put actions a.name a

/-- The action to call by a name with some arguments, or why it cannot be called. -/
def prepare (actions : Actions) (name : String) (arguments : Dict String Json) :
    Except Failure Action :=
  match Dict.get? actions name with
  | none => .error ⟨.unavailable, "no action registered as '" ++ name ++ "'"⟩
  | some a =>
    let missing := a.required.filter fun key => !Dict.has arguments key
    if missing.isEmpty then .ok a
    else
      .error ⟨.invalidArguments,
        "'" ++ name ++ "' is missing arguments: " ++ ", ".intercalate missing⟩

/-- The names of the actions, in a text. -/
def text (actions : Actions) : String :=
  "ActionRegistry \x7b actions: [" ++ ", ".intercalate ((Dict.keys actions).map Quoted.encode) ++
    "] \x7d"

end Actions

end EventFlow

import EventFlow.Host.Backend

/-!
# Plans

A `Plan` is a simple way to say what a call does: what it returns or fails with, after how long.  A
`Script` is an action together with the plans of its calls.
-/

set_option autoImplicit false

namespace EventFlow

/-- What a call of an action does. -/
inductive Plan
  /-- Return the arguments. -/
  | echo
  | value (value : Json)
  | fail (failure : Failure)
  /-- Break down. -/
  | panic
  /-- Wait some milliseconds before going on. -/
  | sleep (duration : Nat) (next : Plan)

/-- An action, and what it does. -/
structure Script extends Action where
  /-- What a call with some arguments does. -/
  plan : Dict String Json → Plan

/-- Some actions and what they do, by name. -/
abbrev Scripts := Dict String Script

namespace Plan

/-- How often a plan waits. -/
def sleeps : Plan → Nat
  | sleep _ next => next.sleeps + 1
  | _ => 0

/-- How far a plan gets without waiting. -/
inductive Progress
  | done (ending : Finish)
  | asleep (duration : Nat) (next : Plan)

/-- Return a result or fail, at once. -/
def ofResult : Except Failure Json → Plan
  | .ok result => value result
  | .error failure => fail failure

/-- Go on with a plan until it has to wait. -/
def run (arguments : Dict String Json) : Plan → Progress
  | echo => .done (.returned (.obj arguments))
  | value v => .done (.returned v)
  | fail failure => .done (.failed failure)
  | panic => .done .panicked
  | sleep 0 next => next.run arguments
  | sleep duration next => .asleep duration next

theorem sleeps_run {arguments : Dict String Json} {duration : Nat} {next : Plan} :
    ∀ {p : Plan}, p.run arguments = .asleep duration next → next.sleeps < p.sleeps
  | sleep 0 q, h => by
    have := sleeps_run (p := q) (by simpa [run] using h)
    simp only [sleeps]
    omega
  | sleep (n + 1) q, h => by
    cases h
    simp [sleeps]
  | echo, h | value _, h | fail _, h | panic, h => by cases h

/-- The longest time that is waited at once, in milliseconds: thirty years. -/
def longestWait : Nat := 946080000000

/-- The milliseconds to wait that JSON holds.  What is too long is cut. -/
def wait? (j : Json) : Option Nat := j.nat64?.map (min longestWait)

/-- The kinds of plans that can be read. -/
def kinds : List String := ["echo", "value", "fail", "panic", "sleep"]

/-- The plan that JSON holds; a value that is missing is `null`. -/
def ofJson? : Json → Option Plan
  | .obj fields => do
    match ← Json.required fields "kind" Json.str? with
    | "echo" => some echo
    | "value" => some (value ((Dict.get? fields "value").getD .null))
    | "fail" => (Json.required fields "error" (Failure.ofJson? .outer)).map fail
    | "panic" => some panic
    | "sleep" => do
      let duration ← Json.required fields "ms" wait?
      match (Json.Members.ofObject fields).get? "then" with
      | none => none
      | some ⟨j, hlt⟩ =>
        have : sizeOf j < 1 + sizeOf fields := Json.obj.sizeOf_spec fields ▸ hlt
        (ofJson? j).map (sleep duration)
    | _ => none
  | _ => none
termination_by j => sizeOf j

end Plan

namespace Script

/-- The action that JSON holds, which does the same whatever its arguments are. -/
def ofJson? (j : Json) : Option Script := do
  let fields ← j.fields?
  let name ← Json.required fields "name" Json.str?
  let required ← Json.orElse fields "requires" [] (Json.listOf? Json.str?)
  let plan ← Json.required fields "plan" Plan.ofJson?
  return ⟨⟨name, required⟩, fun _ => plan⟩

/-- What the action does that is always there. -/
def verdict : Script :=
  ⟨⟨Verdict.actionName, Verdict.required⟩, fun arguments => .ofResult (Verdict.evaluate arguments)⟩

end Script

namespace Scripts

/-- The actions. -/
def actions (scripts : Scripts) : Actions := Dict.mapValues Script.toAction scripts

/-- What the actions do that are always there. -/
def builtIn : Scripts := [(Verdict.actionName, .verdict)]

/-- Add an action, in place of any other of its name. -/
def register (scripts : Scripts) (s : Script) : Scripts := Dict.put scripts s.name s

/-- What a call with some arguments does. -/
def plan? (scripts : Scripts) (name : String) (arguments : Dict String Json) : Option Plan :=
  match scripts.actions.prepare name arguments with
  | .ok _ => (Dict.get? scripts name).map fun s => s.plan arguments
  | .error _ => none

end Scripts

end EventFlow

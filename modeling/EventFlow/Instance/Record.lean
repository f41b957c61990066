import EventFlow.Instance.Basic

/-!
# Instances as JSON

Heads and instances are written with all they hold, except for observations that were not handed on:
those are handed on before anything is written.  The numbers of forks are keys of an object, so they
are written as texts.  Branches are written innermost last.
-/

set_option autoImplicit false

namespace EventFlow

namespace Expectation

/-- An expectation written as JSON. -/
def toJson (x : Expectation) : Json :=
  .object [("pattern", x.pattern.toJson), ("resume", .ofNat x.resume)]

/-- The expectation that JSON holds, which is a member of the state of a head. -/
def ofJson? (j : Json) : Option Expectation := do
  let fields ← j.record? ⟨["pattern", "resume"], []⟩
  let pattern ← Json.required fields "pattern" (Pattern.ofJson? .inner)
  let resume ← Json.required fields "resume" Json.nat32?
  return ⟨pattern, resume⟩

/-- What is read of an expectation. -/
def shape : Json.Shape := .record [("pattern", Pattern.shape), ("resume", .all)]

end Expectation

namespace HeadState

/-- The state of a head written as JSON. -/
def toJson : HeadState → Json
  | ready => .object [("state", .str "ready")]
  | expecting expectations =>
    .object
      [("state", .str "expecting"), ("expectations", Json.list Expectation.toJson expectations)]
  | waiting invocation result resume =>
    .object
      [("state", .str "waiting_on_action"), ("invocation_id", .str invocation.text),
       ("result", Json.option Variable.toJson result), ("resume", .ofNat resume)]
  | atJoin group => .object [("state", .str "at_join"), ("group", .ofNat group)]
  | finished => .object [("state", .str "finished")]
  | aborted reason => .object [("state", .str "aborted"), ("reason", .str reason)]

/-- The members of a head's state. -/
def rows : List (String × Json.Row) :=
  [("ready", ⟨[], []⟩), ("expecting", ⟨["expectations"], []⟩),
   ("waiting_on_action", ⟨["invocation_id", "result", "resume"], []⟩), ("at_join", ⟨["group"], []⟩),
   ("finished", ⟨[], []⟩), ("aborted", ⟨["reason"], []⟩)]

/-- The state of a head that JSON holds. -/
def ofJson? (j : Json) : Option HeadState := do
  let (state, m) ← j.tagged? .outer "state" rows
  match state with
  | "ready" => return ready
  | "expecting" =>
    (Json.required m.fields "expectations" (Json.listOf? Expectation.ofJson?)).map expecting
  | "waiting_on_action" => do
    let invocation ← Json.required m.fields "invocation_id" Json.str?
    let result ← Json.optional m.fields "result" Variable.ofJson?
    let resume ← Json.required m.fields "resume" Json.nat32?
    return waiting ⟨invocation⟩ result resume
  | "at_join" => (Json.required m.fields "group" Json.nat32?).map atJoin
  | "finished" => return finished
  | "aborted" => (Json.required m.fields "reason" Json.str?).map aborted
  | _ => none

/-- What is read of the state of a head. -/
def shape : Json.Shape :=
  let alternative (members : List (String × Json.Shape)) : Json.Shape :=
    .record (("state", .all) :: members)
  .tagged "state"
    [("ready", alternative []),
     ("expecting", alternative [("expectations", .list Expectation.shape)]),
     ("waiting_on_action",
      alternative [("invocation_id", .all), ("result", .all), ("resume", .all)]),
     ("at_join", alternative [("group", .all)]), ("finished", alternative []),
     ("aborted", alternative [("reason", .all)])]

end HeadState

namespace Branch

/-- A branch written as JSON. -/
def toJson (b : Branch) : Json :=
  .object [("id", .ofNat b.group), ("size", .ofNat b.size), ("index", .ofNat b.index)]

/-- The branch that JSON holds. -/
def ofJson? (j : Json) : Option Branch := do
  let fields ← j.record? ⟨["id", "size", "index"], []⟩
  let group ← Json.required fields "id" Json.nat32?
  let size ← Json.required fields "size" Json.nat32?
  let index ← Json.required fields "index" Json.nat32?
  return ⟨group, size, index⟩

/-- What is read of a branch. -/
def shape : Json.Shape := .record [("id", .all), ("size", .all), ("index", .all)]

end Branch

namespace Head

/-- A head written as JSON. -/
def toJson (h : Head) : Json :=
  .object
    [("id", .ofNat h.id.number), ("position", .ofNat h.position), ("state", h.state.toJson),
     ("bindings", .obj h.bindings), ("fork_stack", Json.list Branch.toJson h.branches.reverse),
     ("specificity", .ofNat h.specificity)]

/-- The head that JSON holds. -/
def ofJson? (j : Json) : Option Head := do
  let fields ← j.record?
    ⟨["id", "position", "state", "bindings", "fork_stack", "specificity"], []⟩
  let id ← Json.required fields "id" Json.nat32?
  let position ← Json.required fields "position" Json.nat32?
  let state ← Json.required fields "state" HeadState.ofJson?
  let bindings ← Json.required fields "bindings" Json.fields?
  let branches ← Json.required fields "fork_stack" (Json.listOf? Branch.ofJson?)
  let specificity ← Json.required fields "specificity" Json.nat32?
  return ⟨⟨id⟩, position, state, bindings, branches.reverse, specificity⟩

/-- What is read of a head. -/
def shape : Json.Shape :=
  .record
    [("id", .all), ("position", .all), ("state", HeadState.shape), ("bindings", .all),
     ("fork_stack", .list Branch.shape), ("specificity", .all)]

end Head

/-- How an event moves a head, written as JSON. -/
def HeadMatch.toJson (m : HeadMatch) : Json :=
  .object
    [("resume", .ofNat m.resume), ("bindings", .obj m.bindings),
     ("specificity", .ofNat m.specificity), ("result", Json.option Variable.toJson m.result)]

namespace Status

/-- The name of a status. -/
def name : Status → String
  | starting => "starting"
  | active => "active"
  | waiting => "waiting-on-action"
  | finished => "finished"
  | aborted => "aborted"

/-- The status with a name. -/
def ofName? : String → Option Status
  | "starting" => some starting
  | "active" => some active
  | "waiting-on-action" => some waiting
  | "finished" => some finished
  | "aborted" => some aborted
  | _ => none

end Status

namespace Instance

/-- The bases of forks written as JSON. -/
def basesToJson (bases : Dict Nat Bindings) : Json :=
  .object (bases.map fun b => (toString b.1, .obj b.2))

/-- A base whose fork is the given text. -/
def baseOfField? (field : String × Json) : Option (Nat × Bindings) := do
  let group ← Numeral.written? UInt32.size field.1
  let bindings ← field.2.fields?
  return (group, bindings)

/-- The bases of forks that JSON holds. -/
def basesOfJson? (j : Json) : Option (Dict Nat Bindings) := do
  let fields ← j.fields?
  (fields.mapM baseOfField?).map Dict.ofList

/-- An instance written as JSON. -/
def toJson (i : Instance) : Json :=
  .object
    [("id", .str i.id.text), ("flow", .str i.flow.text), ("priority", .ofInt i.priority),
     ("status", .str i.status.name), ("heads", Json.list Head.toJson i.heads),
     ("created_at", .ofNat i.createdAt),
     ("parent", Json.option (fun p => .str p.text) i.parent),
     ("terminated_at_step", Json.option .ofNat i.terminatedAt),
     ("abort_reason", Json.option .str i.abortReason), ("overridden", Json.texts i.overridden),
     ("next_head", .ofNat i.nextHead), ("next_group", .ofNat i.nextGroup),
     ("fork_bases", basesToJson i.bases)]

/-- The members of an instance. -/
def row : Json.Row where
  needed :=
    ["id", "flow", "priority", "status", "heads", "created_at", "parent", "terminated_at_step",
     "abort_reason", "overridden", "next_head", "next_group"]
  further := ["fork_bases"]

/-- The instance that JSON holds. -/
def ofJson? (j : Json) : Option Instance := do
  let fields ← j.record? row
  let id ← Json.required fields "id" Json.str?
  let flow ← Json.required fields "flow" Json.str?
  let priority ← Json.required fields "priority" Json.int32?
  let status ← Json.required fields "status" fun s => (s.tag? .outer).bind Status.ofName?
  let heads ← Json.required fields "heads" (Json.listOf? Head.ofJson?)
  let createdAt ← Json.required fields "created_at" Json.nat64?
  let parent ← Json.optional fields "parent" Json.str?
  let terminatedAt ← Json.optional fields "terminated_at_step" Json.nat64?
  let abortReason ← Json.optional fields "abort_reason" Json.str?
  let overridden ← Json.required fields "overridden" (Json.listOf? Json.str?)
  let nextHead ← Json.required fields "next_head" Json.nat32?
  let nextGroup ← Json.required fields "next_group" Json.nat32?
  let bases ← Json.orElse fields "fork_bases" [] basesOfJson?
  return {
    id := ⟨id⟩, flow := ⟨flow⟩, priority, status, heads, createdAt
    parent := parent.map InstanceId.mk
    terminatedAt, abortReason, overridden, nextHead, nextGroup, bases
    observations := [] }

/-- What is read of an instance. -/
def shape : Json.Shape :=
  .record
    [("id", .all), ("flow", .all), ("priority", .all), ("status", .name),
     ("heads", .list Head.shape), ("created_at", .all), ("parent", .all),
     ("terminated_at_step", .all), ("abort_reason", .all), ("overridden", .all),
     ("next_head", .all), ("next_group", .all),
     ("fork_bases", .map false .all fun j => j.fields?.isSome)]

end Instance

end EventFlow

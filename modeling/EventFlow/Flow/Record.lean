import EventFlow.Flow.Element

/-!
# Flows as JSON

Elements are written as objects with their `type` as a member.  All members are written; of those
read, the ones with an obvious absence (no payload, no result, no body) may be missing.

The elements inside an element are read as `Depth.inner` values.  Reading recurses into members of
the value at hand, which are smaller than it (`Json.Members`), so it ends.
-/

set_option autoImplicit false

namespace EventFlow

namespace Delivery

/-- A delivery written as JSON. -/
def toJson : Delivery → Json
  | internal => .str "internal"
  | external => .str "external"

/-- The delivery that JSON holds. -/
def ofJson? (d : Json.Depth) (j : Json) : Option Delivery :=
  match j.tag? d with
  | some "internal" => some internal
  | some "external" => some external
  | _ => none

end Delivery

namespace CallMode

/-- A mode written as JSON. -/
def toJson : CallMode → Json
  | await => .str "await"
  | start => .str "start"

/-- The mode that JSON holds, which is a member of an element. -/
def ofJson? (j : Json) : Option CallMode :=
  match j.tag? .inner with
  | some "await" => some await
  | some "start" => some start
  | _ => none

end CallMode

namespace Competition

/-- A competition written as JSON. -/
def toJson : Competition → Json
  | byName => .object [("kind", .str "event_name")]
  | custom key => .object [("kind", .str "custom"), ("key", .str key)]
  | exempt => .object [("kind", .str "exempt")]

/-- The competition that JSON holds. -/
def ofJson? (d : Json.Depth) (j : Json) : Option Competition := do
  let fields ← j.record? ⟨["kind", "key"], []⟩
  match ← Json.required fields "kind" (Json.tag? d) with
  | "event_name" => Json.orElse fields "key" byName fun v => if v.isNull then some byName else none
  | "custom" => (Json.required fields "key" Json.str?).map custom
  | "exempt" => Json.orElse fields "key" exempt fun v => if v.isNull then some exempt else none
  | _ => none

end Competition

namespace SendSpec

/-- An event to send, written as JSON. -/
def toJson (s : SendSpec) : Json :=
  .object
    [("name", .str s.name), ("payload", Json.ofDict Template.toJson s.payload),
     ("delivery", s.delivery.toJson), ("conflict", s.competition.toJson)]

/-- The event to send that JSON holds. -/
def ofJson? (d : Json.Depth) (j : Json) : Option SendSpec := do
  let fields ← j.record? ⟨["name"], ["payload", "delivery", "conflict"]⟩
  let name ← Json.required fields "name" Json.str?
  let payload ← Json.orElse fields "payload" [] (Json.dictOf? (Template.ofJson? d))
  let delivery ← Json.orElse fields "delivery" .internal (Delivery.ofJson? d)
  let competition ← Json.orElse fields "conflict" .byName (Competition.ofJson? d)
  return ⟨name, payload, delivery, competition⟩

end SendSpec

namespace CallSpec

/-- The members of a call. -/
def members (c : CallSpec) : List (String × Json) :=
  [("action", .str c.action), ("args", Json.ofDict Template.toJson c.args),
   ("result", Json.option Variable.toJson c.result), ("mode", c.mode.toJson),
   ("invocation", Json.option Variable.toJson c.invocation), ("conflict", c.competition.toJson)]

/-- The call with the given members of an element. -/
def ofFields? (fields : Dict String Json) : Option CallSpec := do
  let action ← Json.required fields "action" Json.str?
  let args ← Json.orElse fields "args" [] (Json.dictOf? (Template.ofJson? .inner))
  let result ← Json.optional fields "result" Variable.ofJson?
  let mode ← Json.orElse fields "mode" .await CallMode.ofJson?
  let invocation ← Json.optional fields "invocation" Variable.ofJson?
  let competition ← Json.orElse fields "conflict" .byName (Competition.ofJson? .inner)
  return ⟨action, args, result, mode, invocation, competition⟩

end CallSpec

mutual

/-- An element written as JSON. -/
def Element.toJson : Element → Json
  | .expect pattern => .object [("type", .str "match"), ("pattern", pattern.toJson)]
  | .send event => .object [("type", .str "send"), ("event", event.toJson)]
  | .call spec => .object (("type", .str "execute_action") :: spec.members)
  | .branch condition yes no =>
    .object
      [("type", .str "branch"), ("condition", .str condition), ("then", .arr (bodyToJson yes)),
       ("else", .arr (bodyToJson no))]
  | .fork branches =>
    .object [("type", .str "fork"), ("branches", .arr (branchesToJson branches))]
  | .join => .object [("type", .str "join")]
  | .race arms => .object [("type", .str "when"), ("arms", .arr (armsToJson arms))]
  | .assign target value =>
    .object [("type", .str "set"), ("target", target.toJson), ("value", value.toJson)]
  | .startTimer duration timer =>
    .object
      [("type", .str "start_timer"), ("duration_ms", .ofNat duration),
       ("timer", Json.option Variable.toJson timer)]
  | .startFlow flow child =>
    .object
      [("type", .str "start_flow"), ("flow", .str flow.text),
       ("child", Json.option Variable.toJson child)]
  | .abort reason => .object [("type", .str "abort"), ("reason", .str reason)]

/-- The elements of a sequence, each written as JSON. -/
def bodyToJson : List Element → List Json
  | [] => []
  | e :: es => e.toJson :: bodyToJson es

/-- The branches of a fork, each written as JSON. -/
def branchesToJson : List (List Element) → List Json
  | [] => []
  | b :: bs => .arr (bodyToJson b) :: branchesToJson bs

/-- The arms of a race, each written as JSON. -/
def armsToJson : List (Pattern × List Element) → List Json
  | [] => []
  | (pattern, b) :: arms =>
    .object [("pattern", pattern.toJson), ("body", .arr (bodyToJson b))] :: armsToJson arms

end

/-- The types of elements, in the order they are numbered in, and their members. -/
def Element.rows : List (String × Json.Row) :=
  [("match", ⟨["pattern"], []⟩), ("send", ⟨["event"], []⟩),
   ("execute_action", ⟨["action"], ["args", "result", "mode", "invocation", "conflict"]⟩),
   ("branch", ⟨["condition"], ["then", "else"]⟩), ("fork", ⟨["branches"], []⟩), ("join", ⟨[], []⟩),
   ("when", ⟨["arms"], []⟩), ("set", ⟨["target", "value"], []⟩),
   ("start_timer", ⟨["duration_ms"], ["timer"]⟩), ("start_flow", ⟨["flow"], ["child"]⟩),
   ("abort", ⟨["reason"], []⟩)]

mutual

/-- The element that JSON holds. -/
def Element.ofJson? (d : Json.Depth) (j : Json) : Option Element := do
  let (type, m) ← j.tagged? d "type" Element.rows
  match type with
  | "match" => (Json.required m.fields "pattern" (Pattern.ofJson? .inner)).map .expect
  | "send" => (Json.required m.fields "event" (SendSpec.ofJson? .inner)).map .send
  | "execute_action" => (CallSpec.ofFields? m.fields).map .call
  | "branch" => do
    let condition ← Json.required m.fields "condition" Json.str?
    let yes ←
      match m.get? "then" with
      | none => some []
      | some ⟨i, _⟩ => bodyOfJson? .inner i
    let no ←
      match m.get? "else" with
      | none => some []
      | some ⟨i, _⟩ => bodyOfJson? .inner i
    return .branch condition yes no
  | "fork" =>
    match m.get? "branches" with
    | none => none
    | some ⟨i, _⟩ => (branchesOfJson? .inner i).map .fork
  | "join" => some .join
  | "when" =>
    match m.get? "arms" with
    | none => none
    | some ⟨i, _⟩ => (armsOfJson? .inner i).map .race
  | "set" => do
    let target ← Json.required m.fields "target" Variable.ofJson?
    let value ← Json.required m.fields "value" (Template.ofJson? .inner)
    return .assign target value
  | "start_timer" => do
    let duration ← Json.required m.fields "duration_ms" Json.nat64?
    let timer ← Json.optional m.fields "timer" Variable.ofJson?
    return .startTimer duration timer
  | "start_flow" => do
    let flow ← Json.required m.fields "flow" Json.str?
    let child ← Json.optional m.fields "child" Variable.ofJson?
    return .startFlow ⟨flow⟩ child
  | "abort" => (Json.required m.fields "reason" Json.str?).map .abort
  | _ => none
termination_by sizeOf j

/-- The sequence that JSON holds. -/
def bodyOfJson? (d : Json.Depth) : Json → Option (List Element)
  | .arr items => bodyOfItems? d items
  | _ => none
termination_by j => sizeOf j

/-- The sequence with an element from each item. -/
def bodyOfItems? (d : Json.Depth) : List Json → Option (List Element)
  | [] => some []
  | j :: js => do
    let e ← Element.ofJson? d j
    let es ← bodyOfItems? d js
    return e :: es
termination_by js => sizeOf js

/-- The branches that JSON holds. -/
def branchesOfJson? (d : Json.Depth) : Json → Option (List (List Element))
  | .arr items => branchesOfItems? d items
  | _ => none
termination_by j => sizeOf j

/-- The branches of a fork, one from each item. -/
def branchesOfItems? (d : Json.Depth) : List Json → Option (List (List Element))
  | [] => some []
  | j :: js => do
    let b ← bodyOfJson? d j
    let bs ← branchesOfItems? d js
    return b :: bs
termination_by js => sizeOf js

/-- The arms that JSON holds. -/
def armsOfJson? (d : Json.Depth) : Json → Option (List (Pattern × List Element))
  | .arr items => armsOfItems? d items
  | _ => none
termination_by j => sizeOf j

/-- The arms of a race, one from each item. -/
def armsOfItems? (d : Json.Depth) : List Json → Option (List (Pattern × List Element))
  | [] => some []
  | j :: js => do
    let arm ← armOfJson? d j
    let arms ← armsOfItems? d js
    return arm :: arms
termination_by js => sizeOf js

/-- The arm that JSON holds. -/
def armOfJson? (d : Json.Depth) (j : Json) : Option (Pattern × List Element) := do
  let m ← j.members? ⟨["pattern"], ["body"]⟩
  let pattern ← Json.required m.fields "pattern" (Pattern.ofJson? d)
  let body ←
    match m.get? "body" with
    | none => some []
    | some ⟨i, _⟩ => bodyOfJson? d i
  return (pattern, body)
termination_by sizeOf j

end

namespace Flow

/-- A flow written as JSON. -/
def toJson (f : Flow) : Json :=
  .object
    [("id", .str f.id.text), ("description", Json.option .str f.description),
     ("priority", Json.option .ofInt f.priority),
     ("activation", Json.option Pattern.toJson f.activation), ("body", .arr (bodyToJson f.body))]

/-- The flow that JSON holds. -/
def ofJson? (j : Json) : Option Flow := do
  let fields ← j.record? ⟨["id"], ["description", "priority", "activation", "body"]⟩
  let id ← Json.required fields "id" Json.str?
  let description ← Json.optional fields "description" Json.str?
  let priority ← Json.optional fields "priority" Json.int32?
  let activation ← Json.optional fields "activation" (Pattern.ofJson? .outer)
  let body ← Json.orElse fields "body" [] (bodyOfJson? .outer)
  return ⟨⟨id⟩, description, priority, activation, body⟩

end Flow

end EventFlow

import EventFlow.Flow.Program
import EventFlow.Flow.Record

/-!
# Programs as JSON

A program is listed instruction by instruction, each an object with its kind as `i`.  Listings are
for reading only: programs are made from flows.
-/

set_option autoImplicit false

namespace EventFlow

namespace Instruction

/-- An arm of a race written as JSON. -/
def armToJson (arm : Pattern × Nat) : Json := .arr [arm.1.toJson, .ofNat arm.2]

/-- An instruction written as JSON. -/
def toJson : Instruction → Json
  | expect pattern => .object [("i", .str "match"), ("pattern", pattern.toJson)]
  | send event => .object [("i", .str "send"), ("event", event.toJson)]
  | call spec => .object [("i", .str "execute"), ("spec", .object spec.members)]
  | branch condition otherwise =>
    .object [("i", .str "branch"), ("condition", .str condition), ("else", .ofNat otherwise)]
  | jump target => .object [("i", .str "jump"), ("to", .ofNat target)]
  | fork starts => .object [("i", .str "fork"), ("branches", Json.list .ofNat starts)]
  | race arms => .object [("i", .str "when"), ("arms", Json.list armToJson arms)]
  | join => .object [("i", .str "join")]
  | assign target value =>
    .object [("i", .str "set"), ("target", target.toJson), ("value", value.toJson)]
  | startTimer duration timer =>
    .object
      [("i", .str "start_timer"), ("duration_ms", .ofNat duration),
       ("timer", Json.option Variable.toJson timer)]
  | startFlow flow child =>
    .object
      [("i", .str "start_flow"), ("flow", .str flow.text),
       ("child", Json.option Variable.toJson child)]
  | abort reason => .object [("i", .str "abort"), ("reason", .str reason)]
  | finish => .object [("i", .str "end")]

end Instruction

/-- A program written as JSON. -/
def Program.toJson (p : Program) : Json := Json.list Instruction.toJson p.instructions

end EventFlow

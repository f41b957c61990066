import EventFlow.Event

/-!
# Patterns

A pattern expects an event with a certain name whose payload has certain fields: any value, a given
one, or the value of a variable.  `Pattern.match?` is the test.  A variable that has a value demands
it; one that has none takes the field's value, and demands it from the rest of the pattern.
-/

set_option autoImplicit false

namespace EventFlow

/-- The values a head knows by name. -/
abbrev Bindings := Dict String Json

/-- What a field must hold. -/
inductive Constraint
  | any
  | literal (value : Json)
  | var (name : String)

/-- An expected event: its name, and constraints on the dotted paths of its payload. -/
structure Pattern where
  name : String
  fields : Dict String Constraint

namespace Constraint

/-- Whether a constraint refuses some values. -/
def isRestrictive : Constraint → Bool
  | any => false
  | literal _ | var _ => true

/-- The text of a constraint, to be read behind its path. -/
def text : Constraint → String
  | any => "*"
  | literal value => "=" ++ value.text
  | var name => "=$" ++ name

/-- Whether a value satisfies a constraint, and the bindings it then leaves. -/
def match? (c : Constraint) (value : Json) (bindings : Bindings) : Option Bindings :=
  match c with
  | any => some bindings
  | literal expected => if expected.same value then some bindings else none
  | var name =>
    match Dict.get? bindings name with
    | some bound => if bound.same value then some bindings else none
    | none => some (Dict.put bindings name value)

/-- A constraint written as JSON. -/
def toJson : Constraint → Json
  | any => .object [("kind", .str "any")]
  | literal value => .object [("kind", .str "literal"), ("value", value)]
  | var name => .object [("kind", .str "var"), ("value", .str name)]

/-- The constraint that JSON holds. -/
def ofJson? (d : Json.Depth) (j : Json) : Option Constraint := do
  let fields ← j.record? ⟨["kind", "value"], []⟩
  match ← Json.required fields "kind" (Json.tag? d) with
  | "any" => Json.orElse fields "value" any fun v => if v.isNull then some any else none
  | "literal" => (Json.required fields "value" some).map literal
  | "var" => (Json.required fields "value" Json.str?).map var
  | _ => none

/-- What is read of a constraint. -/
def shape : Json.Shape := .record [("kind", .name), ("value", .all)]

end Constraint

namespace Pattern

/-- How many constraints of a pattern refuse some values. -/
def specificity (p : Pattern) : Nat := (Dict.values p.fields).countP Constraint.isRestrictive

/-- The text of a pattern, which its activations are counted under. -/
def key (p : Pattern) : String :=
  if p.fields.isEmpty then p.name
  else
    let parts := p.fields.map fun f => f.1 ++ f.2.text
    p.name ++ "\x7b" ++ ",".intercalate parts ++ "\x7d"

/-- What is wrong with a constrained field. -/
def checkField (pattern : String) (field : String × Constraint) : Check := do
  Check.refuseIf (!Path.isWellFormed field.1) (.malformedField pattern field.1)
  match field.2 with
  | .var name =>
    Check.refuseIf (name.isEmpty || name.contains '.') (.invalidBinding pattern name)
  | _ => .ok ()

/-- A pattern has a name, and its paths and variables are well-formed. -/
def check (p : Pattern) : Check := do
  Check.refuseIf (isBlank p.name) .blankPatternName
  p.fields.forM (checkField p.name)

/-- Satisfy constraints one after the other, each under the bindings the ones before it left. -/
def matchFields? (e : Event) : Bindings → Dict String Constraint → Option Bindings
  | bindings, [] => some bindings
  | bindings, (path, constraint) :: rest => do
    let value ← e.field? path
    let bindings ← constraint.match? value bindings
    matchFields? e bindings rest

/-- The bindings an event leaves when it is the expected one. -/
def match? (p : Pattern) (e : Event) (bindings : Bindings) : Option Bindings :=
  if p.name = e.name then matchFields? e bindings p.fields else none

/-- A pattern written as JSON. -/
def toJson (p : Pattern) : Json :=
  .object [("name", .str p.name), ("fields", Json.ofDict Constraint.toJson p.fields)]

/-- The pattern that JSON holds. -/
def ofJson? (d : Json.Depth) (j : Json) : Option Pattern := do
  let fields ← j.record? ⟨["name"], ["fields"]⟩
  let name ← Json.required fields "name" Json.str?
  let constraints ← Json.orElse fields "fields" [] (Json.dictOf? (Constraint.ofJson? d))
  return ⟨name, constraints⟩

/-- What is read of a pattern that is a part of a state. -/
def shape : Json.Shape :=
  .record
    [("name", .all),
     ("fields", .map true Constraint.shape fun j => (Constraint.ofJson? .inner j).isSome)]

/-! ## Building patterns -/

/-- The pattern of all events with a name. -/
def named (name : String) : Pattern := ⟨name, []⟩

/-- Put a constraint on a field, in place of any earlier one. -/
def constrain (p : Pattern) (path : String) (c : Constraint) : Pattern :=
  { p with fields := Dict.put p.fields path c }

end Pattern

end EventFlow

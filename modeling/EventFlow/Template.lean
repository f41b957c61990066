import EventFlow.Pattern
import EventFlow.Query
import EventFlow.Variable

/-!
# Templates, and what a head sees

A `Template` stands for a value to be computed when an element fires: a constant, a variable, or a
query.  A `Scope` is everything a head can see, and gives templates and conditions their meaning.

Queries see one object: the head's bindings, and over them the conversation's variables as `global`
and the instance and flow by name.
-/

set_option autoImplicit false

namespace EventFlow

/-- A value to be computed. -/
inductive Template
  | literal (value : Json)
  | var (source : Variable)
  | expr (expression : String)

variable {Compiled Found : Type} [Query.Library Compiled Found]

/-- The query an expression holds. -/
def compileExpression (expression : String) : Except Error Compiled :=
  (Query.Library.compile expression).mapError (.uncompilable expression)

/-- Whether an expression is a query. -/
def checkExpression (expression : String) : Check :=
  (compileExpression expression).map fun _ => ()

namespace Template

/-- A template refers to a variable with a name, or holds a query. -/
def check : Template → Check
  | literal _ => .ok ()
  | var v => Check.refuseIf v.name.isEmpty .emptyVariable
  | expr expression => checkExpression expression

/-- A template written as JSON. -/
def toJson : Template → Json
  | literal value => .object [("kind", .str "literal"), ("value", value)]
  | var v => .object [("kind", .str "var"), ("value", v.toJson)]
  | expr expression => .object [("kind", .str "expr"), ("value", .str expression)]

/-- The template that JSON holds. -/
def ofJson? (d : Json.Depth) (j : Json) : Option Template := do
  let fields ← j.record? ⟨["kind", "value"], []⟩
  match ← Json.required fields "kind" (Json.tag? d) with
  | "literal" => (Json.required fields "value" some).map literal
  | "var" => (Json.required fields "value" Variable.ofJson?).map var
  | "expr" => (Json.required fields "value" Json.str?).map expr
  | _ => none

end Template

/-- Everything a head can see. -/
structure Scope where
  locals : Bindings
  globals : Dict String Json
  instanceId : InstanceId
  flow : FlowId

namespace Scope

/-- The value of a variable. -/
def lookup? (s : Scope) (v : Variable) : Option Json :=
  match v.owner with
  | .head => Path.get? s.locals v.name
  | .conversation => Path.get? s.globals v.name

/-- The object queries are evaluated at. -/
def toJson (s : Scope) : Json :=
  .obj <| Dict.putAll s.locals
    [("global", .obj s.globals), ("instance_id", .str s.instanceId.text),
     ("flow", .str s.flow.text)]

/-- The value of an expression. -/
def evaluate (s : Scope) (expression : String) : Except Error Json := do
  let query ← compileExpression expression
  let found ← (Query.answer query s.toJson).mapError (.unevaluable expression)
  return Query.Library.toJson found

/-- Whether a condition holds. -/
def holds (s : Scope) (condition : String) : Except Error Bool := do
  let query ← compileExpression condition
  let found ← (Query.answer query s.toJson).mapError (.undecidable condition)
  return Query.Library.isTruthy found

/-- The value of a template. -/
def resolve (s : Scope) : Template → Except Error Json
  | .literal value => .ok value
  | .var v =>
    match s.lookup? v with
    | some value => .ok value
    | none => .error (.unboundVariable v.text)
  | .expr expression => s.evaluate expression

/-- The values of named templates, or the error of the first that has none. -/
def resolveAll (s : Scope) (templates : Dict String Template) : Except Error (Dict String Json) :=
  templates.mapM fun t => (s.resolve t.2).map (t.1, ·)

end Scope

end EventFlow

import EventFlow.Json.Text
import EventFlow.Query.Expr
import EventFlow.Text.Quoted

/-!
# The outline of an expression

An outline shows an expression as the tree it is: every node with its name, its place in the query
and its parts, and texts in quotes.
-/

set_option autoImplicit false

namespace EventFlow

namespace Query

namespace Outline

/-- A name with what it is about, in parentheses. -/
def wrap (name : String) (part : String) : String := name ++ "(" ++ part ++ ")"

/-- Parts in brackets. -/
def list (parts : List String) : String := "[" ++ ", ".intercalate parts ++ "]"

/-- A node: its name and its parts, each with a name of its own. -/
def node (name : String) (parts : List (String × String)) : String :=
  name ++ " \x7b " ++ ", ".intercalate (parts.map fun p => p.1 ++ ": " ++ p.2) ++ " \x7d"

/-- A number that may be absent. -/
def optional : Option Int → String
  | some i => wrap "Some" (toString i)
  | none => "None"

mutual

/-- The outline of a literal. -/
def ofJson : Json → String
  | .null => "Null"
  | .bool b => wrap "Bool" (if b then "true" else "false")
  | .num n => wrap "Number" (wrap "Number" n.text)
  | .str s => wrap "String" (Quoted.encode s)
  | .arr items => wrap "Array" (list (ofItems items))
  | .obj fields =>
    wrap "Object" ("\x7b" ++ ", ".intercalate (ofFields fields) ++ "\x7d")

/-- The outlines of items. -/
def ofItems : List Json → List String
  | [] => []
  | j :: js => ofJson j :: ofItems js

/-- The outlines of members. -/
def ofFields : List (String × Json) → List String
  | [] => []
  | (k, j) :: js => (Quoted.encode k ++ ": " ++ ofJson j) :: ofFields js

end

/-- The name of a comparison. -/
def ofComparator : Comparator → String
  | .equal => "Equal"
  | .notEqual => "NotEqual"
  | .less => "LessThan"
  | .lessEqual => "LessThanEqual"
  | .greater => "GreaterThan"
  | .greaterEqual => "GreaterThanEqual"

end Outline

namespace Expr

open Outline

mutual

/-- The outline of an expression. -/
def outline : Expr → String
  | .current place => node "Identity" [("offset", toString place)]
  | .field place name =>
    node "Field" [("offset", toString place), ("name", Quoted.encode name)]
  | .literal place value =>
    node "Literal" [("offset", toString place), ("value", ofJson value)]
  | .index place position =>
    node "Index" [("offset", toString place), ("idx", toString position)]
  | .slice place start stop step =>
    node "Slice"
      [("offset", toString place), ("start", optional start), ("stop", optional stop),
       ("step", toString step)]
  | .chain place first second =>
    node "Subexpr"
      [("offset", toString place), ("lhs", first.outline), ("rhs", second.outline)]
  | .either place left right =>
    node "Or" [("offset", toString place), ("lhs", left.outline), ("rhs", right.outline)]
  | .both place left right =>
    node "And" [("offset", toString place), ("lhs", left.outline), ("rhs", right.outline)]
  | .negate place body => node "Not" [("offset", toString place), ("node", body.outline)]
  | .compare place comparator left right =>
    node "Comparison"
      [("offset", toString place), ("comparator", ofComparator comparator),
       ("lhs", left.outline), ("rhs", right.outline)]
  | .members place body =>
    node "ObjectValues" [("offset", toString place), ("node", body.outline)]
  | .flatten place body => node "Flatten" [("offset", toString place), ("node", body.outline)]
  | .project place source body =>
    node "Projection"
      [("offset", toString place), ("lhs", source.outline), ("rhs", body.outline)]
  | .whenever place test body =>
    node "Condition"
      [("offset", toString place), ("predicate", test.outline), ("then", body.outline)]
  | .list place items =>
    node "MultiList" [("offset", toString place), ("elements", Outline.list (outlines items))]
  | .hash place entries =>
    node "MultiHash"
      [("offset", toString place), ("elements", Outline.list (entryOutlines entries))]
  | .call place function arguments =>
    node "Function"
      [("offset", toString place), ("name", Quoted.encode function),
       ("args", Outline.list (outlines arguments))]
  | .reference place body => node "Expref" [("offset", toString place), ("ast", body.outline)]

/-- The outlines of some expressions. -/
def outlines : List Expr → List String
  | [] => []
  | e :: es => e.outline :: outlines es

/-- The outlines of the entries of a hash. -/
def entryOutlines : List (String × Expr) → List String
  | [] => []
  | (k, e) :: es =>
    node "KeyValuePair" [("key", Quoted.encode k), ("value", e.outline)] :: entryOutlines es

end

end Expr

end Query

end EventFlow

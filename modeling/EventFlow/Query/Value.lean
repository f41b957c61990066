import EventFlow.Query.Fault
import EventFlow.Query.Outline

/-!
# Values of queries

What an expression evaluates to is JSON that may also hold references to expressions.  A reference
means something only to the function it is handed to: in JSON, its outline stands for it.

The comparisons of the query language are coarser than those of patterns.  Numbers of either kind
are compared as doubles, and equality allows for rounding: two normal numbers are equal when they
differ by less than `tolerance` relative to the sum of their magnitudes.
-/

set_option autoImplicit false

namespace EventFlow

namespace Query

/-- A value an expression can have. -/
inductive Value
  | null
  | bool (value : Bool)
  | num (value : Number)
  | str (value : String)
  | arr (items : List Value)
  | obj (fields : List (String × Value))
  /-- The place tells the references of one query apart. -/
  | reference (place : Nat) (body : Expr)
deriving Inhabited

/-- The kind of a value. -/
inductive Kind
  | null
  | boolean
  | number
  | string
  | array
  | object
  | reference
deriving DecidableEq

/-- The name of a kind. -/
def Kind.name : Kind → String
  | null => "null"
  | boolean => "boolean"
  | number => "number"
  | string => "string"
  | array => "array"
  | object => "object"
  | reference => "expref"

namespace Value

/-- The kind of a value. -/
def kind : Value → Kind
  | null => .null
  | bool _ => .boolean
  | num _ => .number
  | str _ => .string
  | arr _ => .array
  | obj _ => .object
  | reference _ _ => .reference

mutual

/-- The value that JSON is. -/
def ofJson : Json → Value
  | .null => .null
  | .bool b => .bool b
  | .num n => .num n
  | .str s => .str s
  | .arr items => .arr (ofItems items)
  | .obj fields => .obj (ofFields fields)

/-- The values that some JSON items are. -/
def ofItems : List Json → List Value
  | [] => []
  | j :: js => ofJson j :: ofItems js

/-- The values that some JSON members are. -/
def ofFields : List (String × Json) → List (String × Value)
  | [] => []
  | (k, j) :: js => (k, ofJson j) :: ofFields js

end

mutual

/-- A value as JSON. -/
def toJson : Value → Json
  | .null => .null
  | .bool b => .bool b
  | .num n => .num n
  | .str s => .str s
  | .arr items => .arr (itemsToJson items)
  | .obj fields => .obj (fieldsToJson fields)
  | .reference _ body => .str ("<expression: " ++ body.outline ++ ">")

/-- Some items as JSON. -/
def itemsToJson : List Value → List Json
  | [] => []
  | v :: vs => toJson v :: itemsToJson vs

/-- Some members as JSON. -/
def fieldsToJson : List (String × Value) → List (String × Json)
  | [] => []
  | (k, v) :: vs => (k, toJson v) :: fieldsToJson vs

end

/-- Whether a value counts as true; every number does. -/
def isTruthy : Value → Bool
  | .bool b => b
  | .num _ => true
  | .str s => !s.isEmpty
  | .arr items => !items.isEmpty
  | .obj fields => !fields.isEmpty
  | .null | .reference _ _ => false

/-- Whether a value is `null`. -/
def isNull : Value → Bool
  | .null => true
  | _ => false

/-! ## Comparison -/

/-- The relative difference below which two normal numbers are equal. -/
def tolerance : Float := Float.ofScientific 2220446049250313 true 31

/-- The least positive normal number. -/
def leastNormal : Float := Float.ofBits 0x0010000000000000

/-- Whether a number is neither zero nor so small that its precision is reduced. -/
def isNormal (x : Float) : Bool := leastNormal ≤ x.abs && x.isFinite

/-- Whether two numbers are equal up to rounding. -/
def nearlyEqual (a b : Float) : Bool :=
  a == b || (isNormal a && isNormal b && (a - b).abs / (a.abs + b.abs) < tolerance)

mutual

/-- Equality of values. -/
def equal : Value → Value → Bool
  | .null, .null => true
  | .bool a, .bool b => a == b
  | .num a, .num b => nearlyEqual a.toDouble.toFloat b.toDouble.toFloat
  | .str a, .str b => a == b
  | .arr a, .arr b => equalItems a b
  | .obj a, .obj b => equalFields a b
  | .reference a _, .reference b _ => a == b
  | _, _ => false

/-- Equality of lists of values. -/
def equalItems : List Value → List Value → Bool
  | [], [] => true
  | a :: as, b :: bs => equal a b && equalItems as bs
  | _, _ => false

/-- Equality of lists of members. -/
def equalFields : List (String × Value) → List (String × Value) → Bool
  | [], [] => true
  | (k, a) :: as, (l, b) :: bs => k == l && equal a b && equalFields as bs
  | _, _ => false

end

/-- The order of two strings or of two numbers; all other pairs count as equal. -/
def order : Value → Value → Ordering
  | .str a, .str b => compare a b
  | .num a, .num b =>
    let (a, b) := (a.toDouble.toFloat, b.toDouble.toFloat)
    if a < b then .lt else if a == b then .eq else .gt
  | _, _ => .eq

/-- The outcome of a comparison; only numbers are less or greater than one another. -/
def test? (comparator : Comparator) (a b : Value) : Option Bool :=
  match comparator with
  | .equal => some (equal a b)
  | .notEqual => some (!equal a b)
  | comparator =>
    if a.kind = .number ∧ b.kind = .number then
      let order := order a b
      match comparator with
      | .less => some order.isLT
      | .lessEqual => some order.isLE
      | .greater => some order.isGT
      | _ => some order.isGE
    else none

end Value

end Query

end EventFlow

import EventFlow.Json

/-!
# Expressions of the query language

An expression denotes a partial function from a value, the *current* one, to a value.  `chain` feeds
the result of one into another; `project` feeds every item of a list into an expression and drops
the results that are `null`.

Every expression bears a place in the text of its query.  Places mean nothing to evaluation, except
that references at different places differ.
-/

set_option autoImplicit false

namespace EventFlow

namespace Query

/-- A comparison. -/
inductive Comparator
  | equal
  | notEqual
  | less
  | lessEqual
  | greater
  | greaterEqual
deriving DecidableEq

/-- An expression. -/
inductive Expr
  | current (place : Nat)
  | field (place : Nat) (name : String)
  | literal (place : Nat) (value : Json)
  | index (place : Nat) (position : Int)
  | slice (place : Nat) (start stop : Option Int) (step : Int)
  | chain (place : Nat) (first second : Expr)
  | either (place : Nat) (left right : Expr)
  | both (place : Nat) (left right : Expr)
  | negate (place : Nat) (body : Expr)
  | compare (place : Nat) (comparator : Comparator) (left right : Expr)
  | members (place : Nat) (body : Expr)
  | flatten (place : Nat) (body : Expr)
  | project (place : Nat) (source body : Expr)
  /-- The body where the test holds, `null` elsewhere. -/
  | whenever (place : Nat) (test body : Expr)
  | list (place : Nat) (items : List Expr)
  | hash (place : Nat) (entries : List (String × Expr))
  | call (place : Nat) (function : String) (arguments : List Expr)
  /-- An expression handed to a function. -/
  | reference (place : Nat) (body : Expr)

end Query

end EventFlow

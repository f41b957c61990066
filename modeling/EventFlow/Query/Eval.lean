import EventFlow.Query
import EventFlow.Query.Function
import EventFlow.Query.Parse

/-!
# Evaluating queries

`evalWith apply` evaluates an expression by recursion on it; `apply` is what functions do with the
references they are handed.  A reference may be applied inside the evaluation of another, even of
itself, so evaluation need not end: `eval` ties the knot up to a depth, beyond which an attempt is
given up.

`jmespath` is the library this makes.  Nothing that is proved of the engine rests on it.

A hash or list selected from `null` is `null`, a projection of anything but a list is `null`, and an
index or slice counts from the end when it is negative.
-/

set_option autoImplicit false

namespace EventFlow

namespace Query

/-- The member of an object, `null` when there is none. -/
def member (name : String) : Value → Value
  | .obj fields => (Dict.get? fields name).getD .null
  | _ => .null

/-- The item at a position of an array, `null` when there is none. -/
def item (position : Int) : Value → Value
  | .arr items =>
    let position := if position < 0 then position + items.length else position
    if position < 0 then .null else (items[position.toNat]?).getD .null
  | _ => .null

/-- The bound of a slice within an array of `size` items. -/
def clampBound (size bound step : Int) : Int :=
  if bound < 0 then
    let bound := bound + size
    if 0 ≤ bound then bound else if step < 0 then -1 else 0
  else if bound < size then bound
  else if step < 0 then size - 1
  else size

/-- The items at `position`, `position + step`, … while `count` lasts and `stop` is not reached. -/
def everyStep (items : List Value) (position stop step : Int) : Nat → List Value
  | 0 => []
  | count + 1 =>
    if (0 < step ∧ position < stop) ∨ (step < 0 ∧ stop < position) then
      (items[position.toNat]?).toList ++ everyStep items (position + step) stop step count
    else []

/-- The items from `start` up to but not including `stop`. -/
def sliceItems (items : List Value) (start stop : Option Int) (step : Int) : List Value :=
  let size : Int := items.length
  let first :=
    match start with
    | some bound => clampBound size bound step
    | none => if step < 0 then size - 1 else 0
  let last :=
    match stop with
    | some bound => clampBound size bound step
    | none => if step < 0 then -1 else size
  everyStep items first last step items.length

/-- One level of nested arrays opened up. -/
def flattenItems (items : List Value) : List Value :=
  items.flatMap fun
    | .arr inner => inner
    | v => [v]

mutual

/-- The value of an expression at the current value `v`. -/
def evalWith (apply : Apply) (v : Value) : Expr → Attempt Value
  | .current _ => return v
  | .field _ name => return member name v
  | .literal _ value => return Value.ofJson value
  | .index _ position => return item position v
  | .slice _ start stop step =>
    if step = 0 then throw .zeroStep
    else
      match v with
      | .arr items => return .arr (sliceItems items start stop step)
      | _ => return .null
  | .chain _ first second => do
    let v ← evalWith apply v first
    evalWith apply v second
  | .either _ left right => do
    let l ← evalWith apply v left
    if l.isTruthy then return l else evalWith apply v right
  | .both _ left right => do
    let l ← evalWith apply v left
    if l.isTruthy then evalWith apply v right else return l
  | .negate _ body => do
    let b ← evalWith apply v body
    return .bool (!b.isTruthy)
  | .compare _ comparator left right => do
    let l ← evalWith apply v left
    let r ← evalWith apply v right
    return ((Value.test? comparator l r).map .bool).getD .null
  | .members _ body => do
    match ← evalWith apply v body with
    | .obj fields => return .arr (fields.map Prod.snd)
    | _ => return .null
  | .flatten _ body => do
    match ← evalWith apply v body with
    | .arr items => return .arr (flattenItems items)
    | _ => return .null
  | .project _ source body => do
    match ← evalWith apply v source with
    | .arr items =>
      let results ← items.mapM fun item => evalWith apply item body
      return .arr (results.filter fun r => !r.isNull)
    | _ => return .null
  | .whenever _ test body => do
    let t ← evalWith apply v test
    if t.isTruthy then evalWith apply v body else return .null
  | .list _ items =>
    if v.isNull then return .null else .arr <$> evalItems apply v items
  | .hash _ entries =>
    if v.isNull then return .null
    else (fun es => .obj (Dict.ofList es)) <$> evalEntries apply v entries
  | .call _ function arguments => do
    let args ← evalItems apply v arguments
    Function.call apply function args
  | .reference place body => return .reference place body

/-- The values of some expressions, in order. -/
def evalItems (apply : Apply) (v : Value) : List Expr → Attempt (List Value)
  | [] => return []
  | e :: es => do
    let r ← evalWith apply v e
    let rs ← evalItems apply v es
    return r :: rs

/-- The values of some named expressions, in order. -/
def evalEntries (apply : Apply) (v : Value) :
    List (String × Expr) → Attempt (List (String × Value))
  | [] => return []
  | (k, e) :: es => do
    let r ← evalWith apply v e
    let rs ← evalEntries apply v es
    return (k, r) :: rs

end

/-- The value of an expression; the attempt is given up when references are applied inside one
another more than `depth` deep. -/
def eval : Nat → Expr → Value → Attempt Value
  | 0, e, v => evalWith (fun _ _ => .mk none) v e
  | depth + 1, e, v => evalWith (eval depth) v e

/-- What an expression finds in a JSON value, with the message of a fault. -/
def search (depth : Nat) (e : Expr) (j : Json) : Option (Except String Value) :=
  ((eval depth e (Value.ofJson j)).run).map (Except.mapError Fault.message)

/-- The library of this query language, which gives up searches at a depth. -/
@[reducible] def jmespath (depth : Nat) : Library Expr Value where
  compile text := (parse text).mapError Fault.message
  search := search depth
  toJson := Value.toJson
  isTruthy := Value.isTruthy

/-- The library for fixed inputs; their searches are nested much less deeply. -/
instance : Library Expr Value := jmespath 1000

end Query

end EventFlow

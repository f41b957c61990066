import EventFlow.Json.Parse
import EventFlow.Query.Value

/-!
# Functions of the query language

A function is looked up by name, then the number of its arguments is checked, then their kinds, and
only then is it applied.  The arguments are values already; a function that is handed a reference
applies it through `apply`.

Functions that compute a number yield a double even from integers; a result beyond the finite
doubles is a fault.
-/

set_option autoImplicit false

namespace EventFlow

namespace Query

/-- What an argument may be. -/
inductive Wanted
  | any
  | kind (k : Kind)
  | arrayOf (k : Kind)
  | oneOf (alternatives : List Wanted)

namespace Wanted

mutual

/-- Whether a value may be given where `w` is wanted. -/
def admits (v : Value) : Wanted → Bool
  | any => true
  | kind k => v.kind == k
  | arrayOf k =>
    match v with
    | .arr items => items.all fun item => item.kind == k
    | _ => false
  | oneOf alternatives => admitsOne v alternatives

/-- Whether one of several demands admits a value. -/
def admitsOne (v : Value) : List Wanted → Bool
  | [] => false
  | w :: ws => admits v w || admitsOne v ws

end

end Wanted

/-- How a function applies a reference to a value. -/
abbrev Apply : Type := Expr → Value → Attempt Value

/-- A function: what its arguments must be, what any further ones must be, and what it does. -/
structure Function where
  inputs : List Wanted
  further : Option Wanted
  run : Apply → List Value → Attempt Value

namespace Function

/-! ## Helpers -/

/-- A number. -/
def ofFloat (x : Float) : Attempt Value :=
  match Double.ofFloat? x with
  | some d => return .num (.double d)
  | none => throw .notANumber

/-- An integer. -/
def ofNat (n : Nat) : Value := .num (.int n)

/-- The number in a value, zero in others. -/
def toFloat : Value → Float
  | .num n => n.toDouble.toFloat
  | _ => 0

/-- The items of an array, none of others. -/
def items : Value → List Value
  | .arr items => items
  | _ => []

/-- The text of a string, none of others. -/
def chars : Value → List Char
  | .str s => s.toList
  | _ => []

/-- Whether `part` occurs in a list of characters. -/
def occursIn (part : List Char) : List Char → Bool
  | [] => part.isEmpty
  | c :: cs => part.isPrefixOf (c :: cs) || occursIn part cs

/-- Texts with `glue` between each two. -/
def join (glue : List Char) : List Value → List Char
  | [] => []
  | [v] => chars v
  | v :: vs => chars v ++ glue ++ join glue vs

/-- The sum of some numbers, from the left. -/
def sum (vs : List Value) : Float := vs.foldl (fun total v => total + toFloat v) 0

/-- Sort values by keys, keeping the order of those with equal keys. -/
def sortByKey (pairs : List (Value × Value)) : List Value :=
  (pairs.mergeSort fun a b => (Value.order a.1 b.1).isLE).map Prod.snd

/-- Each value behind its key; the keys must be all strings or all numbers. -/
def keyed (name : String) (key : Value → Attempt Value) (vs : List Value) :
    Attempt (List (Value × Value)) := do
  let first ← key (vs.headD .null)
  if first.kind = .string ∨ first.kind = .number then
    let rest ← vs.tail.mapM fun v => do
      let k ← key v
      if k.kind = first.kind then return (k, v) else throw (.mixedKeys name)
    return (first, vs.headD .null) :: rest
  else throw (.mixedKeys name)

/-- The first of the values whose key no later key beats. -/
def best (beats : Value → Value → Bool) : List (Value × Value) → Value
  | [] => .null
  | p :: ps => (ps.foldl (fun best p => if beats p.1 best.1 then p else best) p).2

/-- A function of one number. -/
def numeric (f : Float → Float) : Function where
  inputs := [.kind .number]
  further := none
  run _ args := ofFloat (f (toFloat (args.headD .null)))

/-- A function of as many arguments as `inputs` lists, none of which it applies. -/
def plain (inputs : List Wanted) (f : List Value → Value) : Function where
  inputs := inputs
  further := none
  run _ args := return f args

/-- A string, or a list of items of two kinds that have an order. -/
def sortable : Wanted := .oneOf [.arrayOf .string, .arrayOf .number]

/-- The greatest or least of some values by a reference's results. -/
def extremeBy (name : String) (beats : Value → Value → Bool) : Function where
  inputs := [.kind .array, .kind .reference]
  further := none
  run apply args :=
    match args with
    | [.arr [], _] => return .null
    | [.arr vs, .reference _ body] => best beats <$> keyed name (apply body) vs
    | _ => return .null

/-! ## The functions -/

/-- The function of a name. -/
def find? : String → Option Function
  | "abs" => some (numeric Float.abs)
  | "avg" => some {
      inputs := [.arrayOf .number]
      further := none
      run := fun _ args =>
        let vs := items (args.headD .null)
        ofFloat (sum vs / Float.ofNat vs.length) }
  | "ceil" => some (numeric Float.ceil)
  | "contains" => some <| plain [.oneOf [.kind .string, .kind .array], .any] fun
      | [.arr vs, needle] => .bool (vs.any fun v => v.equal needle)
      | [.str s, .str part] => .bool (occursIn part.toList s.toList)
      | _ => .bool false
  | "ends_with" => some <| plain [.kind .string, .kind .string] fun
      | [s, part] => .bool ((chars part).isSuffixOf (chars s))
      | _ => .null
  | "floor" => some (numeric Float.floor)
  | "join" => some <| plain [.kind .string, .arrayOf .string] fun
      | [glue, vs] => .str (String.ofList (join (chars glue) (items vs)))
      | _ => .null
  | "keys" => some <| plain [.kind .object] fun
      | [.obj fields] => .arr (fields.map fun e => .str e.1)
      | _ => .null
  | "length" => some <| plain [.oneOf [.kind .array, .kind .object, .kind .string]] fun
      | [.arr vs] => ofNat vs.length
      | [.obj fields] => ofNat fields.length
      | [.str s] => ofNat s.length
      | _ => .null
  | "map" => some {
      inputs := [.kind .reference, .kind .array]
      further := none
      run := fun apply args =>
        match args with
        | [.reference _ body, .arr vs] => .arr <$> vs.mapM (apply body)
        | _ => return .null }
  | "max" => some <| plain [sortable] fun args =>
      match items (args.headD .null) with
      | [] => .null
      | v :: vs => vs.foldl (fun best v => if (Value.order best v).isGT then best else v) v
  | "max_by" => some (extremeBy "max_by" fun a b => (Value.order a b).isGT)
  | "merge" => some {
      inputs := [.kind .object]
      further := some (.kind .object)
      run := fun _ args =>
        return .obj <| args.foldl (fun all v =>
          match v with
          | .obj fields => Dict.putAll all fields
          | _ => all) Dict.empty }
  | "min" => some <| plain [sortable] fun args =>
      match items (args.headD .null) with
      | [] => .null
      | v :: vs => vs.foldl (fun best v => if (Value.order best v).isGT then v else best) v
  | "min_by" => some (extremeBy "min_by" fun a b => (Value.order a b).isLT)
  | "not_null" => some {
      inputs := [.any]
      further := some .any
      run := fun _ args => return (args.find? fun v => !v.isNull).getD .null }
  | "reverse" => some <| plain [.oneOf [.kind .array, .kind .string]] fun
      | [.arr vs] => .arr vs.reverse
      | [.str s] => .str (String.ofList s.toList.reverse)
      | _ => .null
  | "sort" => some <| plain [sortable] fun args =>
      .arr (sortByKey ((items (args.headD .null)).map fun v => (v, v)))
  | "sort_by" => some {
      inputs := [.kind .array, .kind .reference]
      further := none
      run := fun apply args =>
        match args with
        | [.arr [], _] => return .arr []
        | [.arr vs, .reference _ body] =>
          (fun pairs => .arr (sortByKey pairs)) <$> keyed "sort_by" (apply body) vs
        | _ => return .null }
  | "starts_with" => some <| plain [.kind .string, .kind .string] fun
      | [s, part] => .bool ((chars part).isPrefixOf (chars s))
      | _ => .null
  | "sum" => some {
      inputs := [.arrayOf .number]
      further := none
      run := fun _ args => ofFloat (sum (items (args.headD .null))) }
  | "to_array" => some <| plain [.any] fun
      | [.arr vs] => .arr vs
      | args => .arr args
  | "to_number" => some <| plain [.any] fun
      | [.num n] => .num n
      | [.str s] => ((Json.parse? s).map Value.ofJson).getD .null
      | _ => .null
  | "to_string" => some <|
      plain [.oneOf [.kind .object, .kind .array, .kind .boolean, .kind .number, .kind .string,
        .kind .null]] fun
      | [.str s] => .str s
      | args => .str (args.headD .null).toJson.text
  | "type" => some <| plain [.any] fun args => .str (args.headD .null).kind.name
  | "values" => some <| plain [.kind .object] fun
      | [.obj fields] => .arr (fields.map Prod.snd)
      | _ => .null
  | _ => none

/-- The first argument of the wrong kind, counted from `position`. -/
def wrongArgument? (inputs : List Wanted) (further : Option Wanted) (position : Nat) :
    List Value → Option Nat
  | [] => none
  | v :: vs =>
    let wanted := inputs.head?.or further
    if (wanted.map (Wanted.admits v)).getD true then
      wrongArgument? inputs.tail further (position + 1) vs
    else some position

/-- Call a function by name. -/
def call (apply : Apply) (name : String) (args : List Value) : Attempt Value :=
  match find? name with
  | none => throw (.unknownFunction name)
  | some f =>
    let count := f.inputs.length
    if args.length < count || (f.further.isNone && count < args.length) then
      throw (.wrongArity name)
    else
      match wrongArgument? f.inputs f.further 0 args with
      | some position => throw (.wrongArgument name position)
      | none => f.run apply args

end Function

end Query

end EventFlow

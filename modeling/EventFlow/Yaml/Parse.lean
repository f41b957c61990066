import EventFlow.Dict
import EventFlow.Yaml.Token.Lexer

/-!
# Reading YAML documents

A document is read from its tokens by recursion: a value takes the tokens it begins with, and what
comes behind it is handed on (`Rest`), together with the anchors there have been.

An anchor gets the number of the names there are before it, and its name keeps that number until it
is given again.  A name that is given again frees no number, so the anchor of the next new name then
bears a number a second time.

In brackets a question mark announces a key.  If nothing stands there that could be one, then in a
mapping the key is empty; in a sequence the key is empty as well, but what stands there is passed
over.

Every value takes at least one token, so a bound that grows with their number is never reached.
-/

set_option autoImplicit false

namespace EventFlow

namespace Yaml

/-- What handles stand for. -/
abbrev Handles := Dict String Tag

/-- What is left of a document. -/
structure Rest where
  tokens : List Token
  /-- The numbers of the anchors there have been, by their names. -/
  anchors : Dict String Nat

namespace Rest

/-- Give an anchor, if there is one, its number. -/
def define (r : Rest) (name : Option String) : Option Nat × Rest :=
  match name with
  | none => (none, r)
  | some name =>
    (some r.anchors.length, { r with anchors := Dict.put r.anchors name r.anchors.length })

/-- The rest behind the first token. -/
def tail (r : Rest) : Rest := { r with tokens := r.tokens.tail }

/-- Whether the token in front is one of some. -/
def begins (r : Rest) (among : List Token) : Bool :=
  match r.tokens with
  | [] => false
  | t :: _ => among.contains t

end Rest

/-- The tag of a handle and a rest. -/
def tagOf? (handles : Handles) (handle : String) (rest : Tag) : Option Tag :=
  if handle = "" then some rest else (Dict.get? handles handle).map (· ++ rest)

/-- What stands in front of a value: an anchor and a tag, in either order. -/
def properties? (handles : Handles) (r : Rest) : Option (Properties × Rest) :=
  let make (anchor : Option String) (tag : Option Tag) (tokens : List Token) : Properties × Rest :=
    let (n, r) := { r with tokens }.define anchor
    (⟨n, tag⟩, r)
  match r.tokens with
  | .anchor name :: .tag handle rest :: ts | .tag handle rest :: .anchor name :: ts =>
    (tagOf? handles handle rest).map fun tag => make (some name) (some tag) ts
  | .anchor name :: ts => some (make (some name) none ts)
  | .tag handle rest :: ts =>
    (tagOf? handles handle rest).map fun tag => make none (some tag) ts
  | ts => some (make none none ts)

/-- What stands in front of a scalar.  An exclamation mark alone is no tag there. -/
def Properties.ofScalar (p : Properties) : Properties :=
  if p.tag = some (bytes "!") then { p with tag := Option.none } else p

mutual

/-- A value.  Mappings and sequences by indentation may begin where `block` is set, and a sequence
that is not indented where `dashes` is. -/
def value? (handles : Handles) (block dashes : Bool) : Nat → Rest → Option (Yaml × Rest)
  | 0, _ => none
  | bound + 1, r =>
    match r.tokens with
    | .reference name :: _ => (Dict.get? r.anchors name).map fun n => (reference n, r.tail)
    | _ => do
      let (p, r) ← properties? handles r
      match r.tokens with
      | .scalar style text :: _ => some (scalar p.ofScalar style text, r.tail)
      | .openSequence :: _ =>
        (flowItems? handles true bound r.tail).map fun y => (sequence p y.1, y.2)
      | .openMapping :: _ =>
        (flowEntries? handles true bound r.tail).map fun y => (mapping p y.1, y.2)
      | t :: _ =>
        if dashes && t = .item then
          (dashItems? handles bound r).map fun y => (sequence p y.1, y.2)
        else if block && t = .sequenceStart then
          (items? handles bound r.tail).map fun y => (sequence p y.1, y.2)
        else if block && t = .mappingStart then
          (entries? handles bound r.tail).map fun y => (mapping p y.1, y.2)
        else if p.anchor.isSome || p.tag.isSome then some (scalar p .plain "", r)
        else none
      | [] => if p.anchor.isSome || p.tag.isSome then some (scalar p .plain "", r) else none

/-- A value that is left out if one of some tokens is in front. -/
def valueBut? (handles : Handles) (block dashes : Bool) (ends : List Token) :
    Nat → Rest → Option (Yaml × Rest)
  | 0, _ => none
  | bound + 1, r => if r.begins ends then some (empty, r) else value? handles block dashes bound r

/-- The items of a sequence by indentation. -/
def items? (handles : Handles) : Nat → Rest → Option (List Yaml × Rest)
  | 0, _ => none
  | bound + 1, r =>
    match r.tokens with
    | .item :: _ => do
      let (y, r) ← valueBut? handles true false [.item, .blockEnd] bound r.tail
      let (ys, r) ← items? handles bound r
      some (y :: ys, r)
    | .blockEnd :: _ => some ([], r.tail)
    | _ => none

/-- The items of a sequence that is not indented. -/
def dashItems? (handles : Handles) : Nat → Rest → Option (List Yaml × Rest)
  | 0, _ => none
  | bound + 1, r =>
    match r.tokens with
    | .item :: _ => do
      let (y, r) ← valueBut? handles true false [.item, .key, .value, .blockEnd] bound r.tail
      let (ys, r) ← dashItems? handles bound r
      some (y :: ys, r)
    | _ => some ([], r)

/-- The entries of a mapping by indentation. -/
def entries? (handles : Handles) : Nat → Rest → Option (List (Yaml × Yaml) × Rest)
  | 0, _ => none
  | bound + 1, r =>
    match r.tokens with
    | .key :: _ => do
      let (k, r) ← valueBut? handles true true [.key, .value, .blockEnd] bound r.tail
      let (v, r) ←
        if r.begins [.value] then
          valueBut? handles true true [.key, .value, .blockEnd] bound r.tail
        else some (empty, r)
      let (es, r) ← entries? handles bound r
      some ((k, v) :: es, r)
    | .blockEnd :: _ => some ([], r.tail)
    | _ => none

/-- The value behind a key in brackets that some token closes, if there is one. -/
def flowValue? (handles : Handles) (close : Token) : Nat → Rest → Option (Yaml × Rest)
  | 0, _ => none
  | bound + 1, r =>
    if r.begins [.value] then valueBut? handles false false [.comma, close] bound r.tail
    else some (empty, r)

/-- The items of a sequence in brackets, each but the first behind a comma. -/
def flowItems? (handles : Handles) (first : Bool) : Nat → Rest → Option (List Yaml × Rest)
  | 0, _ => none
  | bound + 1, r =>
    if r.begins [.closeSequence] then some ([], r.tail)
    else if !first && !r.begins [.comma] then none
    else do
      let r := if first then r else r.tail
      if r.begins [.closeSequence] then some ([], r.tail)
      else
        let (y, r) ←
          if r.begins [.key] then do
            let (k, r) ←
              if r.tail.begins [.value, .comma, .closeSequence] then some (empty, r.tail.tail)
              else value? handles false false bound r.tail
            let (v, r) ← flowValue? handles .closeSequence bound r
            some (mapping .none [(k, v)], r)
          else value? handles false false bound r
        let (ys, r) ← flowItems? handles false bound r
        some (y :: ys, r)

/-- The entries of a mapping in brackets, each but the first behind a comma. -/
def flowEntries? (handles : Handles) (first : Bool) :
    Nat → Rest → Option (List (Yaml × Yaml) × Rest)
  | 0, _ => none
  | bound + 1, r =>
    if r.begins [.closeMapping] then some ([], r.tail)
    else if !first && !r.begins [.comma] then none
    else do
      let r := if first then r else r.tail
      if r.begins [.closeMapping] then some ([], r.tail)
      else
        let ((k, v), r) ←
          if r.begins [.key] then do
            let (k, r) ← valueBut? handles false false [.value, .comma, .closeMapping] bound r.tail
            let (v, r) ← flowValue? handles .closeMapping bound r
            some ((k, v), r)
          else do
            let (k, r) ← value? handles false false bound r
            some ((k, empty), r)
        let (es, r) ← flowEntries? handles false bound r
        some ((k, v) :: es, r)

end

/-! ## Documents -/

/-- The handles that every document may use. -/
def commonHandles : Handles := Dict.ofList [("!", bytes "!"), ("!!", commonTag "")]

/-- The handles that the directives in front of a document give, and what follows.  No handle may be
given twice, the version only once. -/
def directives? (versioned : Bool) (handles : Handles) :
    List Token → Option (Handles × List Token)
  | .version major minor :: ts =>
    if !versioned && major = 1 && (minor = 1 || minor = 2) then directives? true handles ts
    else none
  | .handle name stands :: ts =>
    if Dict.has handles name then none
    else directives? versioned (Dict.put handles name stands) ts
  | ts => some (handles, ts)

/-- Whether a token is a directive. -/
def Token.isDirective : Token → Bool
  | version _ _ | handle _ _ => true
  | _ => false

/-- The value of a document from behind the mark that begins it. -/
def content? (handles : Handles) (ts : List Token) : Option (Yaml × Rest) :=
  let left := [Token.documentStart, .documentEnd]
  if ts.head?.all fun t => t.isDirective || left.contains t then some (empty, ⟨ts, []⟩)
  else value? handles true false (4 * ts.length + 4) ⟨ts, []⟩

/-- The value of the only document; nothing at all is the empty value. -/
def document? (ts : List Token) : Option Yaml := do
  let (handles, rest) ← directives? false [] ts
  let handles := Dict.putAll commonHandles handles
  let (y, r) ←
    match rest with
    | .documentStart :: rest => content? handles rest
    | [] => if ts.isEmpty then some (empty, ⟨[], []⟩) else none
    | rest =>
      if (ts.head?.map Token.isDirective).getD false then none
      else value? handles true false (4 * rest.length + 4) ⟨rest, []⟩
  if r.tokens.all (· = .documentEnd) then some y else none

/-- The value that a text holds. -/
def parse? (text : String) : Option Yaml :=
  let cs := text.toList
  if cs.all isAllowed then (tokens? (places cs)).bind document? else none

end Yaml

end EventFlow

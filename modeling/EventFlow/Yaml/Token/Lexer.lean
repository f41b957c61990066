import EventFlow.Yaml.Block
import EventFlow.Yaml.Scalar
import EventFlow.Yaml.Tag
import EventFlow.Yaml.Token

/-!
# The tokens of a document

`tokens?` reads a text token by token.  What it has to know of what lies behind is a `Context`: the
columns in which mappings and sequences are open, and the tokens so far.

Whatever may be a key is remembered as a `Candidate` until its colon comes, and the token that marks
it as one is then put in front of it, together with the beginning of the mapping if it is the first
key in its column.  The colon must stand on the same line and not far behind (`keyLimit`).  A
candidate in the column of an open mapping has to be a key, so a document in which none of this
comes true is refused.

Every token takes at least one character, so a bound beyond the length of the text is never reached.
-/

set_option autoImplicit false

namespace EventFlow

namespace Yaml

/-- How many bytes before its colon a key may begin. -/
def keyLimit : Nat := 1024

/-- Something that may turn out to be a key. -/
structure Candidate where
  /-- The number of tokens before it. -/
  number : Nat
  line : Nat
  column : Nat
  offset : Nat
  /-- Whether nothing else than a key may stand there. -/
  required : Bool

/-- What is open at a place of a document. -/
structure Context where
  /-- The tokens so far, the last one first. -/
  tokens : List Token
  /-- How far the contents of the innermost mapping or sequence by indentation are indented. -/
  margin : Nat
  /-- The margins of those around it, from the inside. -/
  margins : List Nat
  /-- The candidate inside the innermost brackets. -/
  candidate : Option Candidate
  /-- The candidates around every open bracket, from the inside. -/
  outer : List (Option Candidate)
  /-- Whether a key may begin here. -/
  keyAllowed : Bool

namespace Context

/-- The beginning of a text. -/
def start : Context := ⟨[], 0, [], none, [], true⟩

/-- Whether brackets are open. -/
def inFlow (c : Context) : Bool := !c.outer.isEmpty

/-- One more token. -/
def push (c : Context) (t : Token) : Context := { c with tokens := t :: c.tokens }

/-- A token behind the first few. -/
def insert (c : Context) (number : Nat) (t : Token) : Context :=
  { c with tokens := c.tokens.insertIdx (c.tokens.length - number) t }

/-- Set whether a key may begin here. -/
def allowKey (c : Context) (allowed : Bool) : Context := { c with keyAllowed := allowed }

/-- Close the mappings and sequences whose contents are indented further than a limit. -/
def closeTo (limit : Nat) (c : Context) : Context :=
  let rec go (tokens : List Token) (margin : Nat) : List Nat → Context
    | [] => { c with tokens, margin, margins := [] }
    | m :: ms =>
      if limit < margin then go (.blockEnd :: tokens) m ms
      else { c with tokens, margin, margins := m :: ms }
  if c.inFlow then c else go c.tokens c.margin c.margins

/-- Open a mapping or sequence in a column, behind the first few tokens, if none is open there. -/
def openAt (c : Context) (column number : Nat) (t : Token) : Context :=
  if c.inFlow || column < c.margin then c
  else { c.insert number t with margin := column + 1, margins := c.margin :: c.margins }

/-! ## Candidates -/

/-- Give the candidate up, unless it is required. -/
def dropCandidate? (c : Context) : Option Context :=
  if c.candidate.any Candidate.required then none else some { c with candidate := none }

/-- Give the candidate up if its colon would come too late in front of a place. -/
def refresh? (c : Context) (p : Place) : Option Context :=
  match c.candidate with
  | none => some c
  | some k =>
    if k.line < p.line || k.offset + keyLimit < p.offset then c.dropCandidate? else some c

/-- What begins in a place may be a key. -/
def propose? (c : Context) (p : Place) : Option Context :=
  if c.keyAllowed then do
    let c ← c.dropCandidate?
    let required := !c.inFlow && c.margin = p.column + 1
    some { c with candidate := some ⟨c.tokens.length, p.line, p.column, p.offset, required⟩ }
  else some c

/-- What begins in a place may be a key, and no other key may begin inside it. -/
def proposeAlone? (c : Context) (p : Place) : Option Context :=
  (c.propose? p).map fun c => c.allowKey false

/-! ## Indicators -/

/-- A bracket that opens. -/
def openBracket? (c : Context) (p : Place) (t : Token) : Option Context := do
  let c ← c.propose? p
  some { c.push t with candidate := none, outer := c.candidate :: c.outer, keyAllowed := true }

/-- A bracket that closes. -/
def closeBracket? (c : Context) (t : Token) : Option Context := do
  let c := (← c.dropCandidate?).push t |>.allowKey false
  match c.outer with
  | [] => some c
  | k :: ks => some { c with candidate := k, outer := ks }

/-- A comma. -/
def comma? (c : Context) : Option Context := do
  some <| (← c.dropCandidate?).push .comma |>.allowKey true

/-- Where no key may begin, there may be no other indicator of a mapping or sequence either, except
in brackets. -/
def openHere? (c : Context) (p : Place) (t : Token) : Option Context :=
  if c.inFlow || c.keyAllowed then some (c.openAt p.column c.tokens.length t) else none

/-- The dash of an item. -/
def item? (c : Context) (p : Place) : Option Context := do
  let c ← (← c.openHere? p .sequenceStart).dropCandidate?
  some <| c.push .item |>.allowKey true

/-- The question mark of a key. -/
def key? (c : Context) (p : Place) : Option Context := do
  let c ← (← c.openHere? p .mappingStart).dropCandidate?
  some <| c.push .key |>.allowKey !c.inFlow

/-- The colon of a value. -/
def value? (c : Context) (p : Place) : Option Context :=
  match c.candidate with
  | some k =>
    let c := (c.insert k.number .key).openAt k.column k.number .mappingStart
    some <| { c with candidate := none }.push .value |>.allowKey false
  | none => do
    let c ← c.openHere? p .mappingStart
    some <| c.push .value |>.allowKey !c.inFlow

/-- The end of everything by indentation. -/
def closeAll? (c : Context) : Option Context := do
  some <| (← (c.closeTo 0).dropCandidate?).allowKey false

end Context

/-! ## Reading on -/

/-- Read the token in front. -/
def next? (c : Context) (p : Place) (ps : List Place) : Option (Context × List Place) :=
  let all := p :: ps
  if p.column = 0 && p.char = '%' then do
    let c ← c.closeAll?
    match ← directive? ps with
    | (.version major minor, rest) => some (c.push (.version major minor), rest)
    | (.handle name stands, rest) => some (c.push (.handle name stands), rest)
  else if isMarker '-' all then c.closeAll?.map fun c => (c.push .documentStart, ps.drop 2)
  else if isMarker '.' all then c.closeAll?.map fun c => (c.push .documentEnd, ps.drop 2)
  else if p.char = '[' then (c.openBracket? p .openSequence).map fun c => (c, ps)
  else if p.char = '\x7b' then (c.openBracket? p .openMapping).map fun c => (c, ps)
  else if p.char = ']' then (c.closeBracket? .closeSequence).map fun c => (c, ps)
  else if p.char = '\x7d' then (c.closeBracket? .closeMapping).map fun c => (c, ps)
  else if p.char = ',' then c.comma?.map fun c => (c, ps)
  else if p.char = '-' && endsWord ps then (c.item? p).map fun c => (c, ps)
  else if p.char = '?' && (c.inFlow || endsWord ps) then (c.key? p).map fun c => (c, ps)
  else if p.char = ':' && (c.inFlow || endsWord ps) then (c.value? p).map fun c => (c, ps)
  else if p.char = '*' then do
    let c ← c.proposeAlone? p
    let (name, rest) ← anchorName? ps
    some (c.push (.reference name), rest)
  else if p.char = '&' then do
    let c ← c.proposeAlone? p
    let (name, rest) ← anchorName? ps
    some (c.push (.anchor name), rest)
  else if p.char = '!' then do
    let c ← c.proposeAlone? p
    let (handle, octets, rest) ← tag? c.inFlow all
    some (c.push (.tag handle octets), rest)
  else if (p.char = '|' || p.char = '>') && !c.inFlow then do
    let c ← c.dropCandidate?
    let (text, rest) ← block? (p.char = '>') c.margin ps
    let style : Style := if p.char = '>' then .folded else .literal
    some (c.push (.scalar style text) |>.allowKey true, rest)
  else if p.char = '"' || p.char = '\'' then do
    let c ← c.proposeAlone? p
    let (text, rest) ← quoted? p.char .inside .empty ps
    some (c.push (.scalar .quoted text), rest)
  else if beginsPlain c.inFlow all then do
    let c ← c.proposeAlone? p
    let (text, onNewLine, rest) ← plain? c.inFlow c.margin .empty all
    some (c.push (.scalar .plain text) |>.allowKey onNewLine, rest)
  else none

/-- Read on up to the end of the text. -/
def tokensFrom? : Nat → Context → List Place → Option (List Token)
  | 0, _, _ => none
  | bound + 1, c, ps =>
    let (keyAllowed, rest) := skip c.inFlow c.keyAllowed ps
    match rest with
    | [] => (c.allowKey keyAllowed).closeAll?.map fun c => c.tokens.reverse
    | p :: ps => do
      let c ← (c.allowKey keyAllowed).refresh? p
      let (c, rest) ← next? (c.closeTo (p.column + 1)) p ps
      tokensFrom? bound c rest

/-- The tokens of a text. -/
def tokens? (ps : List Place) : Option (List Token) := tokensFrom? (ps.length + 1) .start ps

end Yaml

end EventFlow

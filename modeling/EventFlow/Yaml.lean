import EventFlow.Text.Numeral

/-!
# YAML values

The values that YAML documents are made of.  A scalar is kept as it is written, with a note of its
style: what it denotes depends on who asks, for its style and its tag may allow or forbid a reading.

Anchors are numbered, and a reference is the number of what it stands for.  A number may come more
than once in a document; the last value that bears it counts (`anchored?`), even for a reference in
front of it.
-/

set_option autoImplicit false

namespace EventFlow

/-- How a scalar is written. -/
inductive Yaml.Style
  | plain
  | quoted
  | literal
  | folded
deriving DecidableEq

/-- A tag, as the bytes that its text stands for. -/
abbrev Yaml.Tag := List UInt8

/-- What may stand in front of a value. -/
structure Yaml.Properties where
  anchor : Option Nat
  tag : Option Yaml.Tag

/-- A YAML value. -/
inductive Yaml
  | reference (anchor : Nat)
  | scalar (properties : Yaml.Properties) (style : Yaml.Style) (text : String)
  | sequence (properties : Yaml.Properties) (items : List Yaml)
  | mapping (properties : Yaml.Properties) (entries : List (Yaml × Yaml))

namespace Yaml

/-- Nothing in front of a value. -/
def Properties.none : Properties := ⟨Option.none, Option.none⟩

/-- The value of nothing at all. -/
def empty : Yaml := scalar .none .plain ""

/-! ## References -/

/-- The anchor of a value. -/
def anchor? : Yaml → Option Nat
  | reference _ => none
  | scalar p _ _ | sequence p _ | mapping p _ => p.anchor

mutual

/-- The values in a value, itself included, in the order in which they begin. -/
def parts : Yaml → List Yaml
  | reference n => [reference n]
  | scalar p style text => [scalar p style text]
  | sequence p items => sequence p items :: partsOfItems items
  | mapping p entries => mapping p entries :: partsOfEntries entries

/-- The values in the items of a sequence. -/
def partsOfItems : List Yaml → List Yaml
  | [] => []
  | y :: ys => parts y ++ partsOfItems ys

/-- The values in the entries of a mapping. -/
def partsOfEntries : List (Yaml × Yaml) → List Yaml
  | [] => []
  | (k, v) :: es => parts k ++ parts v ++ partsOfEntries es

end

/-- The value in a document that an anchor stands for. -/
def anchored? (document : Yaml) (n : Nat) : Option Yaml :=
  document.parts.reverse.find? fun y => y.anchor? = some n

/-- What a value in a document stands for. -/
def resolve (document : Yaml) : Yaml → Yaml
  | reference n => (document.anchored? n).getD (reference n)
  | y => y

/-! ## Readings of scalars -/

/-- The text of a scalar. -/
def text? : Yaml → Option String
  | scalar _ _ text => some text
  | _ => none

/-- The bytes of a text. -/
def bytes (text : String) : List UInt8 := text.toUTF8.toList

/-- The tag of values of a common type. -/
def commonTag (name : String) : Tag := bytes ("tag:yaml.org,2002:" ++ name)

/-- The name that a tag of one's own gives. -/
def localName? : Tag → Option String
  | [] => none
  | mark :: name =>
    if mark = 0x21 then
      String.fromUTF8? (ByteArray.mk (if name.isEmpty then [mark] else name).toArray)
    else none

/-- Whether a word denotes nothing. -/
def isNullWord (text : String) : Bool := ["~", "null", "Null", "NULL"].contains text

/-- The alternative that a scalar names: by a tag of its own, behind which nothing stands, or by its
text. -/
def choice? : Yaml → Option String
  | scalar p style text =>
    match p.tag.bind localName? with
    | some name => if style = .plain && (text.isEmpty || isNullWord text) then some name else none
    | none => some text
  | _ => none

/-- The text that a scalar would denote a number with: it is plain, or literal and tagged so. -/
def digits? : Yaml → Option (List Char)
  | scalar p style text =>
    if style = .plain || (style = .literal && p.tag = some (commonTag "int")) then
      some text.toList
    else none
  | _ => none

/-- A number without a sign.  Leading zeros make it a text. -/
def natural? : List Char → Option Nat
  | '0' :: 'x' :: digits => Numeral.digitsIn? 16 digits
  | '0' :: 'o' :: digits => Numeral.digitsIn? 8 digits
  | '0' :: 'b' :: digits => Numeral.digitsIn? 2 digits
  | ['0'] => some 0
  | '0' :: _ => none
  | digits => Numeral.digits? digits

/-- A natural number of 64 bits, which may have a plus sign. -/
def nat64? (y : Yaml) : Option Nat := do
  let n ←
    match ← y.digits? with
    | '+' :: cs => natural? cs
    | cs => natural? cs
  if n < UInt64.size then some n else none

/-- An integer of 32 bits, which may have a sign. -/
def int32? (y : Yaml) : Option Int := do
  let i : Int ←
    match ← y.digits? with
    | '+' :: cs => (natural? cs).map Int.ofNat
    | '-' :: cs => (natural? cs).map fun n => -(n : Int)
    | cs => (natural? cs).map Int.ofNat
  if -Numeral.int32Bound ≤ i && i < Numeral.int32Bound then some i else none

/-- A value that may be nothing: plain and empty, or a word for it that has no other tag.  A tag for
nothing allows only the words. -/
def optional? {α : Type} (read : Yaml → Option α) : Yaml → Option (Option α)
  | scalar p .plain text =>
    match p.tag with
    | none =>
      if text.isEmpty || isNullWord text then some none
      else (read (scalar p .plain text)).map some
    | some tag =>
      if tag = commonTag "null" then if isNullWord text then some none else none
      else (read (scalar p .plain text)).map some
  | y => (read y).map some

end Yaml

end EventFlow

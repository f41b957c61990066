import EventFlow.Json.Shape
import EventFlow.Json.Text

/-!
# Identifiers

Flows are named by their author and heads are numbered within their instance; events, instances,
invocations and timers get identifiers from an `IdSource`.  The source is plain data, part of every
snapshot, so a restored engine goes on with the very sequence it would have produced.

An identifier is the text of a random-format UUID: two 64-bit words, of which four bits hold the
version and two the variant.  The high word is `mix` of an arithmetic progression with an odd
difference, the low word is mixed from the high one.
-/

set_option autoImplicit false

namespace EventFlow

/-- The name of a flow. -/
structure FlowId where
  text : String
deriving DecidableEq, Inhabited

/-- The identity of an event. -/
structure EventId where
  text : String
deriving DecidableEq, Inhabited

/-- The identity of a running instance of a flow. -/
structure InstanceId where
  text : String
deriving DecidableEq, Inhabited

/-- The identity of one call of an action, by which its result finds the caller. -/
structure InvocationId where
  text : String
deriving DecidableEq, Inhabited

/-- The identity of a timer. -/
structure TimerId where
  text : String
deriving DecidableEq, Inhabited

instance : LT InvocationId := ⟨fun a b => a.text < b.text⟩

instance : DecidableLT InvocationId := fun a b => inferInstanceAs (Decidable (a.text < b.text))

instance : LT TimerId := ⟨fun a b => a.text < b.text⟩

instance : DecidableLT TimerId := fun a b => inferInstanceAs (Decidable (a.text < b.text))

instance : LT InstanceId := ⟨fun a b => a.text < b.text⟩

instance : DecidableLT InstanceId := fun a b => inferInstanceAs (Decidable (a.text < b.text))

/-- The identity of a head within its instance. -/
structure HeadId where
  number : Nat
deriving DecidableEq, Inhabited

/-- The text of a head's identity. -/
def HeadId.text (h : HeadId) : String := "h" ++ toString h.number

/-- The difference of the progression that the high words are mixed from. -/
def idStride : UInt64 := 0x9E3779B97F4A7C15

/-- Scramble a word: every bit of the result depends on every bit of the word. -/
def mix (z : UInt64) : UInt64 :=
  let z := (z ^^^ (z >>> 30)) * 0xBF58476D1CE4E5B9
  let z := (z ^^^ (z >>> 27)) * 0x94D049BB133111EB
  z ^^^ (z >>> 31)

/-- The `width` lowest hexadecimal digits of a word. -/
def hexDigits : Nat → UInt64 → List Char
  | 0, _ => []
  | width + 1, n => hexDigits width (n >>> 4) ++ [hexDigit (n &&& 0xF).toNat]

/-- A sequence of identifiers: its seed, and how many were handed out. -/
structure IdSource where
  seed : UInt64
  issued : UInt64
deriving DecidableEq, Inhabited

namespace IdSource

/-- The source that has handed out nothing. -/
def seeded (seed : UInt64) : IdSource := ⟨seed, 0⟩

/-- The high word of the identifier with the given number. -/
def high (seed number : UInt64) : UInt64 := mix (seed + number * idStride)

/-- The low word that goes with a high word. -/
def low (seed hi : UInt64) : UInt64 := mix (hi ^^^ seed)

/-- A high word with the version set to 4. -/
def stampVersion (hi : UInt64) : UInt64 := (hi &&& 0xFFFFFFFFFFFF0FFF) ||| 0x4000

/-- A low word with the variant of the standard layout. -/
def stampVariant (lo : UInt64) : UInt64 := (lo &&& 0x3FFFFFFFFFFFFFFF) ||| 0x8000000000000000

/-- The text of two words: groups of 8, 4, 4, 4 and 12 digits. -/
def uuidText (hi lo : UInt64) : String :=
  String.ofList <|
    hexDigits 8 (hi >>> 32) ++ '-' :: hexDigits 4 (hi >>> 16) ++ '-' :: hexDigits 4 hi ++
      '-' :: hexDigits 4 (lo >>> 48) ++ '-' :: hexDigits 12 lo

/-- The next identifier's text, and the source after it. -/
def next (s : IdSource) : String × IdSource :=
  let issued := s.issued + 1
  let hi := high s.seed issued
  (uuidText (stampVersion hi) (stampVariant (low s.seed hi)), { s with issued })

/-- The next event identifier. -/
def nextEvent (s : IdSource) : EventId × IdSource := (⟨s.next.1⟩, s.next.2)

/-- The next instance identifier. -/
def nextInstance (s : IdSource) : InstanceId × IdSource := (⟨s.next.1⟩, s.next.2)

/-- The next invocation identifier. -/
def nextInvocation (s : IdSource) : InvocationId × IdSource := (⟨s.next.1⟩, s.next.2)

/-- The next timer identifier. -/
def nextTimer (s : IdSource) : TimerId × IdSource := (⟨s.next.1⟩, s.next.2)

/-- A source written as JSON. -/
def toJson (s : IdSource) : Json :=
  .object [("seed", .ofNat s.seed.toNat), ("counter", .ofNat s.issued.toNat)]

/-- The source that JSON holds. -/
def ofJson? (j : Json) : Option IdSource := do
  let fields ← j.record? ⟨["seed", "counter"], []⟩
  let seed ← Json.required fields "seed" Json.nat64?
  let issued ← Json.required fields "counter" Json.nat64?
  return ⟨.ofNat seed, .ofNat issued⟩

/-- What is read of a source. -/
def shape : Json.Shape := .record [("seed", .all), ("counter", .all)]

end IdSource

end EventFlow

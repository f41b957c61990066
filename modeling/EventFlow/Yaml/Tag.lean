import EventFlow.Yaml.Place

/-!
# Anchors, tags and directives

An anchor or a reference has a name in front of a value (`anchorName?`).  A tag has a handle, for
which a directive may give what it stands for, and a rest (`tag?`); both may be empty.  The bytes of
a tag may be written by their codes, of which those of one character stand together, and a byte that
is zero ends it.

Directives stand on lines of their own in front of a document: the version of the language, and what
handles stand for.
-/

set_option autoImplicit false

namespace EventFlow

namespace Yaml

/-- Whether a character may occur in a name. -/
def isNameChar (c : Char) : Bool := c.isAlphanum || c = '_' || c = '-'

/-- The name in front. -/
def nameIn (ps : List Place) : List Char := (ps.takeWhile fun p => isNameChar p.char).map Place.char

/-- What follows the name in front. -/
def behindName (ps : List Place) : List Place := ps.dropWhile fun p => isNameChar p.char

/-- The name of an anchor or a reference, behind its mark. -/
def anchorName? (ps : List Place) : Option (String × List Place) :=
  let rest := behindName ps
  let ends :=
    match rest with
    | [] => true
    | p :: _ => endsWord rest || ['?', ':', ',', ']', '\x7d', '%', '@', '\x60'].contains p.char
  if !(nameIn ps).isEmpty && ends then some (String.ofList (nameIn ps), rest) else none

/-! ## Tags -/

/-- Whether a character may occur in a tag.  Commas and square brackets may only in one that is
written out. -/
def isTagChar (full : Bool) (c : Char) : Bool :=
  isNameChar c ||
    [';', '/', '?', ':', '@', '&', '=', '+', '$', '.', '!', '~', '*', '\'', '(', ')'].contains c ||
    (full && [',', '[', ']'].contains c)

/-- How many bytes of a character follow its first one. -/
def following? (octet : Nat) : Option Nat :=
  if octet < 0x80 then some 0
  else if octet < 0xc0 then none
  else if octet < 0xe0 then some 1
  else if octet < 0xf0 then some 2
  else if octet < 0xf8 then some 3
  else none

/-- How many bytes of a character are still to come behind a byte, when some were before it. -/
def pending? (pending octet : Nat) : Option Nat :=
  if pending = 0 then following? octet
  else if octet / 64 = 2 then some (pending - 1)
  else none

/-- The bytes in front that belong to a tag, where some bytes of a character are still to come. -/
def tagBytes? (full : Bool) : Nat → List Place → Option (List UInt8 × List Place)
  | pending, [] => if pending = 0 then some ([], []) else none
  | pending, p :: ps =>
    if p.char = '%' then
      match ps with
      | high :: low :: rest => do
        let octet := 16 * (← hexValue? high.char) + (← hexValue? low.char)
        let (octets, rest) ← tagBytes? full (← pending? pending octet) rest
        some (octet.toUInt8 :: octets, rest)
      | _ => none
    else if pending ≠ 0 then none
    else if isTagChar full p.char then do
      let (octets, rest) ← tagBytes? full 0 ps
      some (p.char.toNat.toUInt8 :: octets, rest)
    else some ([], p :: ps)

/-- The bytes up to one that is zero. -/
def upToZero (octets : List UInt8) : List UInt8 := octets.takeWhile (· ≠ 0)

/-- The bytes of a tag, or of a part of one, of which there is at least one. -/
def tagText? (full : Bool) (ps : List Place) : Option (List UInt8 × List Place) := do
  let (octets, rest) ← tagBytes? full 0 ps
  if octets.isEmpty then none else some (upToZero octets, rest)

/-- A handle: an exclamation mark, a name and perhaps another exclamation mark. -/
def handle? : List Place → Option (List Char × List Place)
  | [] => none
  | p :: ps =>
    if p.char = '!' then
      match behindName ps with
      | q :: rest =>
        if q.char = '!' then some ('!' :: nameIn ps ++ ['!'], rest)
        else some ('!' :: nameIn ps, q :: rest)
      | [] => some ('!' :: nameIn ps, [])
    else none

/-- Whether a handle is one by itself, and not the beginning of a tag. -/
def isFullHandle (handle : List Char) : Bool :=
  handle.length ≠ 1 && handle.getLast? = some '!'

/-- A tag that is written out, behind its bracket. -/
def fullTag? (ps : List Place) : Option (List UInt8 × List Place) := do
  match ← tagText? true ps with
  | (octets, p :: rest) => if p.char = '>' then some (octets, rest) else none
  | (_, []) => none

/-- The handle and the rest of a tag. -/
def tagParts? : List Place → Option (List Char × List UInt8 × List Place)
  | p :: q :: ps =>
    if q.char = '<' then (fullTag? ps).map fun r => ([], r)
    else do
      let (handle, rest) ← handle? (p :: q :: ps)
      if isFullHandle handle then
        let (octets, rest) ← tagText? false rest
        some (handle, octets, rest)
      else
        let (octets, rest) ← tagBytes? false 0 rest
        let octets := upToZero (bytes (String.ofList handle.tail) ++ octets)
        if octets.isEmpty then some ([], bytes "!", rest) else some (['!'], octets, rest)
  | _ => some ([], bytes "!", [])

/-- The handle and the rest of the tag in front, behind which a word ends. -/
def tag? (inFlow : Bool) (ps : List Place) : Option (String × List UInt8 × List Place) := do
  let (handle, octets, rest) ← tagParts? ps
  let ends :=
    match rest with
    | [] => true
    | p :: _ => endsWord rest || (inFlow && p.char = ',')
  if ends then some (String.ofList handle, octets, rest) else none

/-! ## Directives -/

/-- What a directive says. -/
inductive Directive
  | version (major minor : Nat)
  | handle (name : String) (stands : List UInt8)

/-- Go on behind blanks. -/
def skipBlanks (ps : List Place) : List Place := ps.dropWhile Place.isBlank

/-- A number of at most nine digits. -/
def versionNumber? (ps : List Place) : Option (Nat × List Place) := do
  let digits := (ps.takeWhile fun p => p.char.isDigit).map Place.char
  if 9 < digits.length then none
  else
    let n ← Numeral.digits? digits
    some (n, ps.dropWhile fun p => p.char.isDigit)

/-- The numbers of a version. -/
def version? (ps : List Place) : Option (Directive × List Place) := do
  let (major, rest) ← versionNumber? (skipBlanks ps)
  match rest with
  | [] => none
  | p :: rest =>
    if p.char = '.' then
      let (minor, rest) ← versionNumber? rest
      some (.version major minor, rest)
    else none

/-- A handle and what it stands for. -/
def handleMeaning? (ps : List Place) : Option (Directive × List Place) := do
  let (handle, rest) ← handle? (skipBlanks ps)
  let begins := (rest.head?.map Place.isBlank).getD false
  if begins && (handle.length = 1 || isFullHandle handle) then
    let (octets, rest) ← tagText? true (skipBlanks rest)
    if endsWord rest then some (.handle (String.ofList handle) octets, rest) else none
  else none

/-- The directive behind the mark of one, and what follows on the next line. -/
def directive? (ps : List Place) : Option (Directive × List Place) := do
  let rest := behindName ps
  let (directive, rest) ←
    if !endsWord rest then none
    else if nameIn ps = "YAML".toList then version? rest
    else if nameIn ps = "TAG".toList then handleMeaning? rest
    else none
  some (directive, ← lineEnd? rest)

end Yaml

end EventFlow

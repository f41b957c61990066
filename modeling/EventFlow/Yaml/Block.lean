import EventFlow.Double.Scaled
import EventFlow.Yaml.Place

/-!
# Block scalars

The lines of a block scalar stand in one column or right of it.  That column is given by a number
behind the indicator of the scalar, or else it is the last one in which a line begins up to the
first that is not empty; blank lines count there, so a long one may leave the scalar without lines.

In literal scalars line breaks stay.  In folded ones a break between two lines that begin with no
blanks is a space, or is left out if empty lines follow it.  What becomes of the breaks at the end
is said behind the indicator as well (`Chomping`).
-/

set_option autoImplicit false

namespace EventFlow

namespace Yaml

/-- Which line breaks at the end of a block scalar stay. -/
inductive Chomping
  | clip
  | strip
  | keep

/-- What stands behind the indicator of a block scalar. -/
structure BlockHeader where
  chomping : Chomping
  /-- How far the lines are indented; zero if their column is to be found. -/
  indentation : Nat

/-- The chomping that a character stands for. -/
def ofChompingMark? : Char → Option Chomping
  | '+' => some .keep
  | '-' => some .strip
  | _ => none

/-- The header of a block scalar, in either order, and what follows on the next line. -/
def blockHeader? (ps : List Place) : Option (BlockHeader × List Place) := do
  let mark? : List Place → Option (Chomping × List Place)
    | [] => none
    | p :: rest => (ofChompingMark? p.char).map fun c => (c, rest)
  let number : List Place → Nat × List Place
    | [] => (0, [])
    | p :: rest =>
      if '1' ≤ p.char && p.char ≤ '9' then (digitValue p.char, rest) else (0, p :: rest)
  let (header, rest) : BlockHeader × List Place :=
    match mark? ps with
    | some (chomping, rest) =>
      let (indentation, rest) := number rest
      (⟨chomping, indentation⟩, rest)
    | none =>
      let (indentation, rest) := number ps
      match mark? rest with
      | some (chomping, rest) => (⟨chomping, indentation⟩, rest)
      | none => (⟨.clip, indentation⟩, rest)
  some (header, ← lineEnd? rest)

/-- The text of a block scalar so far; it is kept back to front. -/
structure BlockDraft where
  text : List Char
  /-- Whether a line has ended with a break. -/
  ended : Bool
  /-- Whether the last line begins with a blank. -/
  blank : Bool
  /-- The number of empty lines behind it. -/
  breaks : Nat

namespace BlockDraft

/-- Nothing yet, behind some empty lines. -/
def empty (breaks : Nat) : BlockDraft := ⟨[], false, false, breaks⟩

/-- The breaks of the empty lines behind the text. -/
def gap (d : BlockDraft) : List Char := List.replicate d.breaks '\n'

/-- A line begins with a character. -/
def begin (folded : Bool) (d : BlockDraft) (c : Char) : BlockDraft :=
  let blank := c = ' ' || c = '\t'
  let text :=
    if !d.ended then d.gap ++ d.text
    else if folded && !d.blank && !blank then
      if d.breaks = 0 then ' ' :: d.text else d.gap ++ d.text
    else d.gap ++ '\n' :: d.text
  ⟨c :: text, false, blank, 0⟩

/-- The text with the breaks at the end that stay. -/
def finish (chomping : Chomping) (d : BlockDraft) : String :=
  let text := if d.ended then '\n' :: d.text else d.text
  String.ofList <| List.reverse <|
    match chomping with
    | .strip => d.text
    | .clip => text
    | .keep => d.gap ++ text

end BlockDraft

/-- Go on to the first line of a block scalar that is not empty, counting the empty ones.  The first
number is the last column in which a line has begun. -/
def findColumn? (last breaks : Nat) : List Place → Option (Nat × Nat × List Place)
  | [] => some (last, breaks, [])
  | p :: ps =>
    if p.char = ' ' then findColumn? last breaks ps
    else if p.char = '\t' then none
    else if p.char = '\n' then findColumn? (max last p.column) (breaks + 1) ps
    else some (max last p.column, breaks, p :: ps)

/-- Read on in a block scalar whose lines stand in a column, inside a line or in front of one. -/
def blockLines? (folded : Bool) (column : Nat) :
    Bool → BlockDraft → List Place → Option (BlockDraft × List Place)
  | _, d, [] => some (d, [])
  | true, d, p :: ps =>
    if p.char = '\n' then blockLines? folded column false { d with ended := true } ps
    else blockLines? folded column true { d with text := p.char :: d.text } ps
  | false, d, p :: ps =>
    if p.char = ' ' && p.column < column then blockLines? folded column false d ps
    else if p.char = '\t' && p.column < column then none
    else if p.char = '\n' then
      blockLines? folded column false { d with breaks := d.breaks + 1 } ps
    else if p.column = column then blockLines? folded column true (d.begin folded p.char) ps
    else some (d, p :: ps)

/-- The text of a block scalar, from behind its indicator; its lines may be indented to the column
`least`. -/
def block? (folded : Bool) (least : Nat) (ps : List Place) : Option (String × List Place) := do
  let (header, rest) ← blockHeader? ps
  let (draft, rest) ←
    if header.indentation = 0 then do
      let (last, breaks, rest) ← findColumn? 0 0 rest
      blockLines? folded (max last (max least 1)) false (.empty breaks) rest
    else blockLines? folded (least - 1 + header.indentation) false (.empty 0) rest
  some (draft.finish header.chomping, rest)

end Yaml

end EventFlow

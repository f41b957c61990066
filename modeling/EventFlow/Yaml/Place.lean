import EventFlow.Yaml

/-!
# Places in a document

Where a character stands matters in YAML, so documents are read as lists of `Place`s.  All kinds of
line breaks are made one before anything else (`unifyBreaks`).

`skip` goes on to the next thing that is neither white space nor a comment.  Outside brackets a tab
does not count as white space where a key may begin, because it would have to be indentation there,
and a new line is such a place.  A byte order mark may begin a line; it takes a column.
-/

set_option autoImplicit false

namespace EventFlow

namespace Yaml

/-- A character and where it stands. -/
structure Place where
  char : Char
  line : Nat
  column : Nat
  /-- How many bytes stand before it on its line. -/
  offset : Nat

/-- Whether a character may occur in a document. -/
def isAllowed (c : Char) : Bool :=
  c = '\t' || c = '\n' || c = '\r' || c = '\u0085' || (' ' ≤ c && c ≤ '~') ||
    ('\u00a0' ≤ c && c ≤ '\ufffd') || '\ufffd'.toNat + 2 < c.toNat

/-- Whether a character ends a line. -/
def isBreak (c : Char) : Bool :=
  c = '\n' || c = '\r' || c = '\u0085' || c = '\u2028' || c = '\u2029'

/-- A text with all its line breaks made one. -/
def unifyBreaks : List Char → List Char
  | [] => []
  | '\r' :: '\n' :: cs => '\n' :: unifyBreaks cs
  | c :: cs => (if isBreak c then '\n' else c) :: unifyBreaks cs

/-- The places of a text that begins somewhere on a line. -/
def placesFrom (line column offset : Nat) : List Char → List Place
  | [] => []
  | c :: cs =>
    ⟨c, line, column, offset⟩ ::
      if c = '\n' then placesFrom (line + 1) 0 0 cs
      else placesFrom line (column + 1) (offset + c.utf8Size) cs

/-- The places of a text. -/
def places (cs : List Char) : List Place := placesFrom 0 0 0 (unifyBreaks cs)

namespace Place

/-- Whether a place is blank. -/
def isBlank (p : Place) : Bool := p.char = ' ' || p.char = '\t'

/-- Whether a byte order mark begins a line here. -/
def isOrderMark (p : Place) : Bool := p.column = 0 && p.char = '\ufeff'

end Place

/-- Go on to the next thing, from inside a comment or not.  The answer says with it whether a key
may begin there. -/
def skipFrom (inFlow : Bool) : Bool → Bool → List Place → Bool × List Place
  | keyAllowed, _, [] => (keyAllowed, [])
  | keyAllowed, inComment, p :: ps =>
    if p.char = '\n' then skipFrom inFlow (keyAllowed || !inFlow) false ps
    else if inComment || p.isOrderMark || p.char = ' ' ||
        (p.char = '\t' && (inFlow || !keyAllowed)) then
      skipFrom inFlow keyAllowed inComment ps
    else if p.char = '#' then skipFrom inFlow keyAllowed true ps
    else (keyAllowed, p :: ps)

/-- Go on to the next thing that is neither white space nor a comment. -/
def skip (inFlow keyAllowed : Bool) (ps : List Place) : Bool × List Place :=
  skipFrom inFlow keyAllowed false ps

/-- Go on behind the blanks on this line and a comment. -/
def skipLine : Bool → List Place → List Place
  | _, [] => []
  | inComment, p :: ps =>
    if p.char = '\n' then p :: ps
    else if inComment || p.isBlank then skipLine inComment ps
    else if p.char = '#' then skipLine true ps
    else p :: ps

/-- What follows on the next line, where nothing more but a comment stands on this one. -/
def lineEnd? (ps : List Place) : Option (List Place) :=
  match skipLine false ps with
  | [] => some []
  | p :: ps => if p.char = '\n' then some ps else none

/-- Whether a word ends here. -/
def endsWord : List Place → Bool
  | [] => true
  | p :: _ => p.isBlank || p.char = '\n'

/-- Whether a line begins with three times a character as a word of their own. -/
def isMarker (c : Char) : List Place → Bool
  | p :: q :: r :: ps =>
    p.column = 0 && p.char = c && q.char = c && r.char = c && endsWord ps
  | _ => false

/-- Whether the document ends here. -/
def isEnd (ps : List Place) : Bool := ps.isEmpty || isMarker '-' ps || isMarker '.' ps

end Yaml

end EventFlow

import EventFlow.Yaml.Place

/-!
# Plain and quoted scalars

A scalar may go on over several lines, which are folded: a single line break is a space, and of
several all but the first count.  A `Draft` is the text so far with the white space behind it, of
which it is not known yet what it will become.

A plain scalar ends where a comment, an indicator or a line with too little indentation begins, and
does not have the white space before that.  Quoted scalars end with their quote; a single quote is
written twice inside single quotes, and a backslash begins an escape inside double quotes.
-/

set_option autoImplicit false

namespace EventFlow

namespace Yaml

/-- The text of a scalar so far; texts are kept back to front. -/
structure Draft where
  text : List Char
  /-- The blanks behind the text, if no line break is. -/
  blanks : List Char
  /-- The number of line breaks behind the text. -/
  breaks : Nat
  /-- Whether the first line break was escaped. -/
  escaped : Bool

namespace Draft

/-- Nothing yet. -/
def empty : Draft := ⟨[], [], 0, false⟩

/-- Whether white space is behind the text. -/
def isSpaced (d : Draft) : Bool := !d.blanks.isEmpty || d.breaks ≠ 0 || d.escaped

/-- The text with what the white space behind it becomes. -/
def folded (d : Draft) : List Char :=
  if d.escaped then List.replicate d.breaks '\n' ++ d.text
  else
    match d.breaks with
    | 0 => d.blanks ++ d.text
    | 1 => ' ' :: d.text
    | n + 2 => List.replicate (n + 1) '\n' ++ d.text

/-- One more character. -/
def push (d : Draft) (c : Char) : Draft := ⟨c :: d.folded, [], 0, false⟩

/-- One more blank. -/
def blank (d : Draft) (c : Char) : Draft :=
  if d.breaks ≠ 0 || d.escaped then d else { d with blanks := c :: d.blanks }

/-- One more line break. -/
def lineBreak (d : Draft) : Draft := { d with blanks := [], breaks := d.breaks + 1 }

/-- A line break that does not count. -/
def escapedBreak (d : Draft) : Draft := ⟨d.folded, [], 0, true⟩

end Draft

/-! ## Plain scalars -/

/-- The characters that end a plain scalar inside brackets. -/
def isBracketing (c : Char) : Bool :=
  c = ',' || c = '[' || c = ']' || c = '\x7b' || c = '\x7d'

/-- Whether the place in front begins a plain scalar. -/
def beginsPlain (inFlow : Bool) : List Place → Bool
  | [] => false
  | p :: ps =>
    if p.char = '-' then !endsWord ps
    else if p.char = '?' || p.char = ':' then !inFlow && !endsWord ps
    else
      !(isBracketing p.char || p.isBlank ||
        ['\n', '#', '&', '*', '!', '|', '>', '\'', '"', '%', '@', '\x60'].contains p.char)

/-- Whether a plain scalar ends before the place in front, which is not blank. -/
def endsPlain (inFlow : Bool) (least : Nat) (d : Draft) : List Place → Bool
  | [] => true
  | p :: ps =>
    (p.char = '#' && d.isSpaced) || (d.breaks ≠ 0 && !inFlow && p.column < least) ||
      (d.breaks ≠ 0 && isEnd (p :: ps)) || (p.char = ':' && endsWord ps) ||
      (inFlow && isBracketing p.char)

/-- Whether a colon inside brackets stands where none may stand. -/
def isStrayColon : List Place → Bool
  | p :: q :: _ => p.char = ':' && (isBracketing q.char || q.char = '?')
  | _ => false

/-- Read on in a plain scalar, whose lines must be indented to the column `least`.  The white space
behind it is read as well; the answer says whether there is a line break in it. -/
def plain? (inFlow : Bool) (least : Nat) (d : Draft) :
    List Place → Option (String × Bool × List Place)
  | [] => some (String.ofList d.text.reverse, d.breaks ≠ 0, [])
  | p :: ps =>
    if p.char = '\n' then plain? inFlow least d.lineBreak ps
    else if p.isBlank then
      if d.breaks ≠ 0 && p.char = '\t' && p.column < least then none
      else plain? inFlow least (d.blank p.char) ps
    else if endsPlain inFlow least d (p :: ps) then
      some (String.ofList d.text.reverse, d.breaks ≠ 0, p :: ps)
    else if inFlow && isStrayColon (p :: ps) then none
    else plain? inFlow least (d.push p.char) ps

/-! ## Quoted scalars -/

/-- What has been begun inside a quoted scalar. -/
inductive QuoteMode
  | inside
  /-- Behind a quote that may be the last one. -/
  | closing
  | escape
  /-- Inside a code: how many digits are still to come, and the value so far. -/
  | code (left value : Nat)

/-- The character that a single character behind a backslash stands for. -/
def ofEscape? : Char → Option Char
  | '0' => some '\x00'
  | 'a' => some '\x07'
  | 'b' => some '\x08'
  | 't' | '\t' => some '\t'
  | 'n' => some '\n'
  | 'v' => some '\x0b'
  | 'f' => some '\x0c'
  | 'r' => some '\r'
  | 'e' => some '\x1b'
  | ' ' => some ' '
  | '"' => some '"'
  | '/' => some '/'
  | '\\' => some '\\'
  | 'N' => some '\u0085'
  | '_' => some '\u00a0'
  | 'L' => some '\u2028'
  | 'P' => some '\u2029'
  | _ => none

/-- How many digits the code behind a letter has. -/
def codeLength? : Char → Option Nat
  | 'x' => some 2
  | 'u' => some 4
  | 'U' => some 8
  | _ => none

/-- The character with a code. -/
def ofCode? (n : Nat) : Option Char := if n.isValidChar then some (Char.ofNat n) else none

/-- Read on in a quoted scalar. -/
def quoted? (quote : Char) : QuoteMode → Draft → List Place → Option (String × List Place)
  | .closing, d, [] => some (String.ofList d.folded.reverse, [])
  | _, _, [] => none
  | .closing, d, p :: ps =>
    if quote = '\'' && p.char = '\'' then quoted? quote .inside (d.push '\'') ps
    else some (String.ofList d.folded.reverse, p :: ps)
  | .inside, d, p :: ps =>
    if isEnd (p :: ps) then none
    else if p.char = '\n' then quoted? quote .inside d.lineBreak ps
    else if p.isBlank then quoted? quote .inside (d.blank p.char) ps
    else if p.char = quote then quoted? quote .closing d ps
    else if quote = '"' && p.char = '\\' then quoted? quote .escape d ps
    else quoted? quote .inside (d.push p.char) ps
  | .escape, d, p :: ps =>
    if p.char = '\n' then quoted? quote .inside d.escapedBreak ps
    else
      match codeLength? p.char with
      | some n => quoted? quote (.code n 0) d ps
      | none =>
        match ofEscape? p.char with
        | some c => quoted? quote .inside (d.push c) ps
        | none => none
  | .code left value, d, p :: ps =>
    match hexValue? p.char with
    | none => none
    | some digit =>
      let value := 16 * value + digit
      if left ≤ 1 then
        match ofCode? value with
        | some c => quoted? quote .inside (d.push c) ps
        | none => none
      else quoted? quote (.code (left - 1) value) d ps

end Yaml

end EventFlow

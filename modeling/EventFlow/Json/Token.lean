import EventFlow.Double.Scaled
import EventFlow.Json
import EventFlow.Text.Numeral

/-!
# JSON tokens

`Token.scan?` cuts a text into tokens, one character at a time: the scanner is a state that every
character moves, so scanning is a fold over the text.  A maximal run of the characters that
numbers and the three names are written with is one word.

Words and texts are kept as they are written, and scanning refuses what is written wrongly.  What
they denote is a second question, to which there may be no answer: a number may be too large, and
an escape may be only half of a character.

Integers that fit 64 bits, signed or unsigned, are read as integers; longer ones, `-0`, and whatever
has a point or an exponent are read as a double, from as many leading digits as fit 64 bits.
-/

set_option autoImplicit false

namespace EventFlow

/-- The number a list of decimal digits denotes. -/
def ofDigits (digits : List Char) : Nat :=
  digits.foldl (fun n c => 10 * n + digitValue c) 0

namespace Json

/-! ## Words -/

/-- A number as it is written. -/
structure Figures where
  negative : Bool
  /-- The digits before the point. -/
  whole : List Char
  /-- The digits behind the point, if there is one. -/
  fraction : Option (List Char)
  exponent : Option Int

namespace Figures

/-- An exponent: an optional sign and at least one digit. -/
def exponent? (word : List Char) : Option Int :=
  let (negative, digits) :=
    match word with
    | '-' :: rest => (true, rest)
    | '+' :: rest => (false, rest)
    | rest => (false, rest)
  if digits.isEmpty || !digits.all Char.isDigit then none
  else some (if negative then -(ofDigits digits : Int) else ofDigits digits)

/-- The exponent that ends a word, if one does. -/
def ending? : List Char → Option (Option Int)
  | [] => some none
  | 'e' :: rest | 'E' :: rest => (exponent? rest).map some
  | _ => none

/-- The figures of a word: no leading zeros, and a digit on either side of the point. -/
def ofWord? (word : List Char) : Option Figures :=
  let (negative, word) :=
    match word with
    | '-' :: rest => (true, rest)
    | rest => (false, rest)
  let whole := word.takeWhile Char.isDigit
  if whole.isEmpty || (whole.head? == some '0' && whole.length != 1) then none
  else
    match word.dropWhile Char.isDigit with
    | '.' :: rest =>
      let fraction := rest.takeWhile Char.isDigit
      if fraction.isEmpty then none
      else (ending? (rest.dropWhile Char.isDigit)).map fun e => ⟨negative, whole, some fraction, e⟩
    | rest => (ending? rest).map fun e => ⟨negative, whole, none, e⟩

/-- The double of a sign, digits before and after the point, and an exponent. -/
def double? (negative : Bool) (whole fraction : List Char) (exponent : Int) : Option Number :=
  let (significand, dropped) := absorbDigits 0 whole
  let (significand, unread) := absorbDigits significand fraction
  let power := exponent + dropped.length - (fraction.length - unread.length : Nat)
  (Double.ofScaled? negative significand power).map .double

/-- The integer of a sign and digits; a double when it is minus zero or does not fit 64 bits. -/
def integer? (negative : Bool) (whole : List Char) : Option Number :=
  let n := ofDigits whole
  if negative = true then
    if n = 0 ∨ UInt64.size < 2 * n then double? true whole [] 0 else some (.int (-n))
  else if n < UInt64.size then some (.int n) else double? false whole [] 0

/-- The number that figures denote, unless it is too large. -/
def number? (f : Figures) : Option Number :=
  match f.fraction, f.exponent with
  | none, none => integer? f.negative f.whole
  | fraction, exponent => double? f.negative f.whole (fraction.getD []) (exponent.getD 0)

end Figures

/-- The value that a name denotes. -/
def ofName? : List Char → Option Json
  | ['n', 'u', 'l', 'l'] => some .null
  | ['t', 'r', 'u', 'e'] => some (.bool true)
  | ['f', 'a', 'l', 's', 'e'] => some (.bool false)
  | _ => none

/-- Whether a word is a name or the figures of a number. -/
def isWord (word : List Char) : Bool := (ofName? word).isSome || (Figures.ofWord? word).isSome

/-- What a word denotes. -/
def ofWord? (word : List Char) : Option Json :=
  (ofName? word).or (((Figures.ofWord? word).bind Figures.number?).map .num)

/-! ## Texts -/

/-- The character that a single letter behind a backslash stands for. -/
def ofEscape? : Char → Option Char
  | '"' => some '"'
  | '\\' => some '\\'
  | '/' => some '/'
  | 'b' => some '\x08'
  | 'f' => some '\x0c'
  | 'n' => some '\n'
  | 'r' => some '\r'
  | 't' => some '\t'
  | _ => none

/-- The code that four digits give. -/
def code? (digits : List Char) : Option Nat := Numeral.digitsIn? 16 digits

/-- The characters that the inside of a text stands for; `done` are those so far, back to front.
A code that is half of a character must have the other half behind it. -/
def unescapeFrom? (done : List Char) : List Char → Option String
  | [] => some (String.ofList done.reverse)
  | '\\' :: 'u' :: a :: b :: c :: d :: rest => do
    let high ← code? [a, b, c, d]
    if high < 0xD800 ∨ 0xE000 ≤ high then unescapeFrom? (Char.ofNat high :: done) rest
    else
      match rest with
      | '\\' :: 'u' :: a :: b :: c :: d :: rest => do
        let low ← code? [a, b, c, d]
        if high < 0xDC00 ∧ 0xDC00 ≤ low ∧ low < 0xE000 then
          let code := 0x10000 + (high - 0xD800) * 0x400 + (low - 0xDC00)
          unescapeFrom? (Char.ofNat code :: done) rest
        else none
      | _ => none
  | '\\' :: c :: rest => (ofEscape? c).bind fun c => unescapeFrom? (c :: done) rest
  | c :: rest => unescapeFrom? (c :: done) rest

/-- The string that the inside of a text stands for. -/
def unescape? (chars : List Char) : Option String := unescapeFrom? [] chars

/-! ## The scanner -/

/-- A token of JSON text. -/
inductive Token
  | openArray
  | closeArray
  | openObject
  | closeObject
  | comma
  | colon
  | word (chars : List Char)
  /-- What is written between two quotes. -/
  | text (chars : List Char)

namespace Token

/-- What the characters read so far have begun.  Texts and words are kept back to front. -/
inductive Mode
  | between
  | word (chars : List Char)
  | text (chars : List Char)
  | escape (chars : List Char)
  /-- Inside the code of a character, with some digits still to come. -/
  | code (chars : List Char) (left : Nat)

/-- The scanner: what is begun, and the tokens completed, back to front. -/
structure Scanner where
  mode : Mode
  tokens : List Token

/-- The token a character is by itself. -/
def ofChar? : Char → Option Token
  | '[' => some .openArray
  | ']' => some .closeArray
  | '\x7b' => some .openObject
  | '\x7d' => some .closeObject
  | ',' => some .comma
  | ':' => some .colon
  | _ => none

/-- The characters that separate tokens. -/
def isSpace (c : Char) : Bool := c == ' ' || c == '\n' || c == '\t' || c == '\r'

/-- The characters of words. -/
def isWordChar (c : Char) : Bool := c.isAlphanum || c == '+' || c == '-' || c == '.'

/-- Read a character that begins something. -/
def begin? (tokens : List Token) (c : Char) : Option Scanner :=
  if isSpace c then some ⟨.between, tokens⟩
  else if c == '"' then some ⟨.text [], tokens⟩
  else if isWordChar c then some ⟨.word [c], tokens⟩
  else (ofChar? c).map fun t => ⟨.between, t :: tokens⟩

/-- The token that a word is. -/
def ofWord? (word : List Char) : Option Token := if isWord word then some (.word word) else none

/-- Read one character. -/
def step? (s : Scanner) (c : Char) : Option Scanner :=
  match s.mode with
  | .between => begin? s.tokens c
  | .word chars =>
    if isWordChar c then some { s with mode := .word (c :: chars) }
    else (ofWord? chars.reverse).bind fun t => begin? (t :: s.tokens) c
  | .text chars =>
    if c == '"' then some ⟨.between, .text chars.reverse :: s.tokens⟩
    else if c == '\\' then some { s with mode := .escape (c :: chars) }
    else if c.toNat < 32 then none
    else some { s with mode := .text (c :: chars) }
  | .escape chars =>
    if c == 'u' then some { s with mode := .code (c :: chars) 4 }
    else if (ofEscape? c).isSome then some { s with mode := .text (c :: chars) }
    else none
  | .code chars left =>
    if (hexValue? c).isNone then none
    else if left ≤ 1 then some { s with mode := .text (c :: chars) }
    else some { s with mode := .code (c :: chars) (left - 1) }

/-- The tokens of a finished scan. -/
def finish? (s : Scanner) : Option (List Token) :=
  match s.mode with
  | .between => some s.tokens.reverse
  | .word chars => (ofWord? chars.reverse).map fun t => (t :: s.tokens).reverse
  | _ => none

/-- The tokens of a text. -/
def scan? (text : String) : Option (List Token) :=
  (text.toList.foldlM step? ⟨.between, []⟩).bind finish?

end Token

end Json

end EventFlow

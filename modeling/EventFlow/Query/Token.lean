import EventFlow.Json.Parse
import EventFlow.Query.Fault

/-!
# Tokens of the query language

Queries are written in JMESPath.  `Token.scan` cuts a query into tokens, each with the place of its
first byte.  `lexeme` reads one of them behind its first character and returns what is left together
with the fact that it is no longer than before, on which the recursion of `scan` rests.

Three kinds of token enclose text.  A raw string `'…'` keeps every backslash except before a quote,
a literal is any JSON text, and a quoted name is a JSON string.
-/

set_option autoImplicit false

namespace EventFlow

namespace Query

/-- A token. -/
inductive Token
  | name (text : String)
  | quoted (text : String)
  | number (value : Int)
  | literal (value : Json)
  | dot
  | star
  | flatten
  | filter
  | openBracket
  | closeBracket
  | openBrace
  | closeBrace
  | openParen
  | closeParen
  | comma
  | colon
  | at
  | either
  | both
  | pipe
  | negate
  | equal
  | notEqual
  | less
  | lessEqual
  | greater
  | greaterEqual
  | reference

/-- A token and the place of its first byte. -/
structure Lexeme where
  place : Nat
  token : Token

namespace Token

/-- How strongly a token binds to the expression on its left. -/
def power : Token → Nat
  | pipe => 1
  | either => 2
  | both => 3
  | equal | notEqual | less | lessEqual | greater | greaterEqual => 5
  | flatten => 9
  | star => 20
  | filter => 21
  | dot => 40
  | negate => 45
  | openBrace => 50
  | openBracket => 55
  | openParen => 60
  | _ => 0

/-- The characters up to the next `delimiter` not behind a backslash, and those after it. -/
def enclosed? (delimiter : Char) : List Char → Option (List Char × List Char)
  | [] => none
  | c :: cs =>
    if c = delimiter then some ([], cs)
    else if c = '\\' then
      match cs with
      | [] => none
      | c' :: cs => (enclosed? delimiter cs).map fun r => (c :: c' :: r.1, r.2)
    else (enclosed? delimiter cs).map fun r => (c :: r.1, r.2)

theorem length_of_enclosed? {delimiter : Char} : ∀ {cs : List Char} {r : List Char × List Char},
    enclosed? delimiter cs = some r → r.2.length < cs.length
  | [], _, h => by simp [enclosed?] at h
  | c :: cs, r, h => by
    rw [enclosed?.eq_def] at h
    simp only at h
    split at h
    · cases h; simp
    · split at h
      · cases cs with
        | nil => simp at h
        | cons c' cs =>
          obtain ⟨r', h', rfl⟩ := Option.map_eq_some_iff.1 h
          have := length_of_enclosed? h'
          simp only [List.length_cons]; omega
      · obtain ⟨r', h', rfl⟩ := Option.map_eq_some_iff.1 h
        have := length_of_enclosed? h'
        simp only [List.length_cons]; omega

/-- The text with every backslash dropped that stands directly before `delimiter`. -/
def unescape (delimiter : Char) : List Char → List Char
  | [] => []
  | [c] => [c]
  | c :: c' :: cs =>
    if c = '\\' ∧ c' = delimiter then delimiter :: unescape delimiter cs
    else c :: unescape delimiter (c' :: cs)

/-- What is left of `cs`. -/
abbrev Rest (cs : List Char) : Type := { rest : List Char // rest.length ≤ cs.length }

/-- All of `cs` is left. -/
def Rest.all (cs : List Char) : Rest cs := ⟨cs, Nat.le_refl _⟩

/-- All characters from the first on that fails `p` are left. -/
def Rest.dropWhile (p : Char → Bool) (cs : List Char) : Rest cs :=
  ⟨cs.dropWhile p, (List.dropWhile_sublist p).length_le⟩

/-- The longer token if `next` follows, the shorter one otherwise. -/
def choose (next : Char) (long short : Token) (cs : List Char) : Token × Rest cs :=
  match cs with
  | [] => (short, Rest.all [])
  | c :: cs => if c = next then (long, ⟨cs, by simp⟩) else (short, Rest.all (c :: cs))

/-- Read the text up to a delimiter and turn it into a token. -/
def readEnclosed (delimiter : Char) (cs : List Char) (token : List Char → Except Fault Token) :
    Except Fault (Token × Rest cs) :=
  match h : enclosed? delimiter cs with
  | none => .error (.unclosed delimiter)
  | some r => (token r.1).map (·, ⟨r.2, Nat.le_of_lt (length_of_enclosed? h)⟩)

/-- The characters of names. -/
def isNameChar (c : Char) : Bool := c.isAlphanum || c == '_'

/-- The digits of a number as a token; indices have 32 bits. -/
def ofIndex (negative : Bool) (digits : List Char) : Except Fault Token :=
  let value : Int := if negative then -(ofDigits digits) else ofDigits digits
  if -Numeral.int32Bound ≤ value ∧ value < Numeral.int32Bound then .ok (.number value)
  else .error .indexTooLarge

/-- A quoted name, read as a JSON string. -/
def ofQuoted (text : List Char) : Except Fault Token :=
  match Json.parse? (String.ofList ('"' :: text ++ ['"'])) with
  | some (.str s) => .ok (.quoted s)
  | _ => .error .malformedLiteral

/-- A literal, read as JSON. -/
def ofLiteral (text : List Char) : Except Fault Token :=
  match Json.parse? (String.ofList (unescape '\x60' text)) with
  | some value => .ok (.literal value)
  | none => .error .malformedLiteral

/-- Read the token that begins with `c`; white space is none. -/
def lexeme (c : Char) (cs : List Char) : Except Fault (Option Token × Rest cs) :=
  let single (t : Token) : Except Fault (Option Token × Rest cs) := .ok (some t, Rest.all cs)
  let pair (r : Token × Rest cs) : Except Fault (Option Token × Rest cs) := .ok (some r.1, r.2)
  if c.isAlpha || c == '_' then
    .ok (some (.name (String.ofList (c :: cs.takeWhile isNameChar))), Rest.dropWhile isNameChar cs)
  else if c.isDigit then
    (ofIndex false (c :: cs.takeWhile Char.isDigit)).map fun t =>
      (some t, Rest.dropWhile Char.isDigit cs)
  else
    match c with
    | ' ' | '\n' | '\t' | '\r' => .ok (none, Rest.all cs)
    | '.' => single .dot
    | '*' => single .star
    | '@' => single .at
    | ']' => single .closeBracket
    | '\x7b' => single .openBrace
    | '\x7d' => single .closeBrace
    | '(' => single .openParen
    | ')' => single .closeParen
    | ',' => single .comma
    | ':' => single .colon
    | '[' =>
      match cs with
      | ']' :: cs => .ok (some .flatten, ⟨cs, by simp⟩)
      | '?' :: cs => .ok (some .filter, ⟨cs, by simp⟩)
      | cs => .ok (some .openBracket, Rest.all cs)
    | '|' => pair (choose '|' .either .pipe cs)
    | '&' => pair (choose '&' .both .reference cs)
    | '>' => pair (choose '=' .greaterEqual .greater cs)
    | '<' => pair (choose '=' .lessEqual .less cs)
    | '!' => pair (choose '=' .notEqual .negate cs)
    | '=' =>
      match cs with
      | '=' :: cs => .ok (some .equal, ⟨cs, by simp⟩)
      | _ => .error .singleEquals
    | '-' =>
      match cs with
      | d :: cs =>
        if d.isDigit && d != '0' then
          (ofIndex true (d :: cs.takeWhile Char.isDigit)).map fun t =>
            (some t, ⟨cs.dropWhile Char.isDigit,
              Nat.le_succ_of_le (List.dropWhile_sublist _).length_le⟩)
        else .error .lonelyMinus
      | [] => .error .lonelyMinus
    | '"' => readEnclosed '"' cs ofQuoted >>= pair
    | '\'' =>
      readEnclosed '\'' cs
        (fun text => .ok (.literal (.str (String.ofList (unescape '\'' text))))) >>= pair
    | '\x60' => readEnclosed '\x60' cs ofLiteral >>= pair
    | c => .error (.strayCharacter c)

/-- How many bytes some characters take. -/
def bytes (cs : List Char) : Nat := cs.foldl (fun n c => n + c.utf8Size) 0

/-- The tokens of the end of a text of `size` bytes. -/
def scanChars (size : Nat) : List Char → Except Fault (List Lexeme)
  | [] => .ok []
  | c :: cs =>
    match lexeme c cs with
    | .error fault => .error fault
    | .ok (token, ⟨rest, _⟩) =>
      match scanChars size rest with
      | .error fault => .error fault
      | .ok lexemes =>
        .ok ((token.map (Lexeme.mk (size - bytes (c :: cs)))).toList ++ lexemes)
termination_by cs => cs.length

/-- The tokens of a query. -/
def scan (text : String) : Except Fault (List Lexeme) := scanChars text.utf8ByteSize text.toList

end Token

end Query

end EventFlow

import EventFlow.Json

/-!
# Compact JSON text

`Json.text` writes a value without spaces, object members in key order, and in strings escapes only
the quote, the backslash and the control characters below U+0020: five of these have a letter, the
others are written in hexadecimal with lower-case digits.
-/

set_option autoImplicit false

namespace EventFlow

/-- The lower-case hexadecimal digit of a number below sixteen. -/
def hexDigit (n : Nat) : Char := Nat.digitChar n

namespace Json

/-- Write one character of a string. -/
def pushEscaped (out : String) (c : Char) : String :=
  match c with
  | '"' => out ++ "\\\""
  | '\\' => out ++ "\\\\"
  | '\n' => out ++ "\\n"
  | '\r' => out ++ "\\r"
  | '\t' => out ++ "\\t"
  | c =>
    if c.toNat = 8 then out ++ "\\b"
    else if c.toNat = 12 then out ++ "\\f"
    else if c.toNat < 32 then
      ((out ++ "\\u00").push (hexDigit (c.toNat / 16))).push (hexDigit (c.toNat % 16))
    else out.push c

/-- Write a string between quotes. -/
def pushQuoted (out : String) (s : String) : String :=
  (s.foldl pushEscaped (out.push '"')).push '"'

mutual

/-- Write a value behind `out`. -/
def push (out : String) : Json → String
  | .null => out ++ "null"
  | .bool true => out ++ "true"
  | .bool false => out ++ "false"
  | .num n => out ++ n.text
  | .str s => pushQuoted out s
  | .arr items => (pushItems (out.push '[') items).push ']'
  | .obj fields => (pushFields (out.push '\x7b') fields).push '\x7d'

/-- Write the items of an array, a comma between each two. -/
def pushItems (out : String) : List Json → String
  | [] => out
  | [item] => push out item
  | item :: items => pushItems ((push out item).push ',') items

/-- Write the members of an object, a comma between each two. -/
def pushFields (out : String) : List (String × Json) → String
  | [] => out
  | [(k, v)] => push ((pushQuoted out k).push ':') v
  | (k, v) :: fields => pushFields ((push ((pushQuoted out k).push ':') v).push ',') fields

end

/-- The compact text of a value. -/
def text (j : Json) : String := push "" j

end Json

end EventFlow

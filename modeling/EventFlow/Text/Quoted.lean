import EventFlow.Text.Visible

/-!
# Quoted texts in messages

Messages quote a text that came from outside so that it stays on one line and its ends are seen: the
quote and the backslash are escaped, line ends, tabs and the null character have letters of their
own, and any other character that is not visible is written by its code point.
-/

set_option autoImplicit false

namespace EventFlow

namespace Quoted

/-- The form of one character between quotes. -/
def encodeChar (c : Char) : List Char :=
  match c with
  | '"' => ['\\', '"']
  | '\\' => ['\\', '\\']
  | '\n' => ['\\', 'n']
  | '\r' => ['\\', 'r']
  | '\t' => ['\\', 't']
  | '\x00' => ['\\', '0']
  | c =>
    if isVisible c then [c]
    else '\\' :: 'u' :: '\x7b' :: Nat.toDigits 16 c.toNat ++ ['\x7d']

/-- A text between quotes. -/
def encode (s : String) : String :=
  String.ofList ('"' :: s.toList.flatMap encodeChar ++ ['"'])

/-- A text that may be absent. -/
def encodeOption : Option String → String
  | none => "None"
  | some s => "Some(" ++ encode s ++ ")"

end Quoted

end EventFlow

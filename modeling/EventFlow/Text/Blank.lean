/-!
# Blank text

A text is blank when it consists of characters with the Unicode property White_Space.  The property
is wider than ASCII white space: the no-break space and the ideographic space have it, the zero
width space does not.
-/

set_option autoImplicit false

namespace EventFlow

/-- The ranges of code points with the property White_Space. -/
def whiteSpaceRanges : List (Nat × Nat) :=
  [(0x09, 0x0D), (0x20, 0x20), (0x85, 0x85), (0xA0, 0xA0), (0x1680, 0x1680), (0x2000, 0x200A),
   (0x2028, 0x2029), (0x202F, 0x202F), (0x205F, 0x205F), (0x3000, 0x3000)]

/-- Whether a character has the property White_Space. -/
def isWhiteSpace (c : Char) : Bool :=
  whiteSpaceRanges.any fun r => r.1 ≤ c.toNat && c.toNat ≤ r.2

/-- Whether a text has nothing but white space. -/
def isBlank (s : String) : Bool := s.toList.all isWhiteSpace

end EventFlow

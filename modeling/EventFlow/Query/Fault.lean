/-!
# What can be wrong with a query

A query fails either when its text is read or when it is evaluated, and its faults say which: the
message of a fault begins with the words for its phase.  A result that is not a number, such as the
mean of no numbers, is reported as a fault of the text although only evaluation finds it.

Evaluation need not come to an end, so it is an `Attempt`.
-/

set_option autoImplicit false

namespace EventFlow

namespace Query

/-- Why a query has no value. -/
inductive Fault
  | strayCharacter (c : Char)
  | singleEquals
  | lonelyMinus
  | indexTooLarge
  | unclosed (delimiter : Char)
  | malformedLiteral
  | unexpectedToken
  | trailingTokens
  | missing (what : String)
  | quotedFunctionName
  | notAFunctionName
  | trailingComma
  | tooManyColons
  | notANumber
  | unknownFunction (name : String)
  | wrongArity (name : String)
  | wrongArgument (name : String) (position : Nat)
  | mixedKeys (name : String)
  | zeroStep
deriving DecidableEq

namespace Fault

/-- Whether a fault is reported as one of evaluation. -/
def isRuntime : Fault → Bool
  | unknownFunction _ | wrongArity _ | wrongArgument _ _ | mixedKeys _ | zeroStep => true
  | _ => false

/-- The fault in words. -/
def reason : Fault → String
  | strayCharacter c => "Invalid character: " ++ c.toString
  | singleEquals => "A single '=' is no operator"
  | lonelyMinus => "'-' must be followed by numbers 1-9"
  | indexTooLarge => "Index out of range"
  | unclosed delimiter => "Unclosed " ++ delimiter.toString ++ " delimiter"
  | malformedLiteral => "Unable to parse literal JSON"
  | unexpectedToken => "Unexpected token"
  | trailingTokens => "Did not parse the complete expression"
  | missing what => "Expected " ++ what
  | quotedFunctionName => "Quoted strings can't be a function name"
  | notAFunctionName => "Invalid function name"
  | trailingComma => "Invalid token after ','"
  | tooManyColons => "Too many colons in slice expression"
  | notANumber => "Expected to be a valid number"
  | unknownFunction name => "Call to undefined function " ++ name
  | wrongArity name => "Wrong number of arguments for " ++ name
  | wrongArgument name position =>
    "Argument " ++ toString position ++ " of " ++ name ++ " has the wrong type"
  | mixedKeys name => "The keys of " ++ name ++ " are not all strings or all numbers"
  | zeroStep => "Invalid slice"

/-- The message of a fault. -/
def message (f : Fault) : String :=
  (if f.isRuntime then "Runtime error: " else "Parse error: ") ++ f.reason

end Fault

/-- An attempt to find a value: it succeeds, meets a fault, or is still under way when it is given
up. -/
abbrev Attempt : Type → Type := ExceptT Fault Option

end Query

end EventFlow

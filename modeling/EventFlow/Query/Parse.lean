import EventFlow.Query.Expr
import EventFlow.Query.Token

/-!
# Reading queries

The parser climbs precedences: `expr power` reads an expression and goes on while the next token
binds more strongly than `power` to what was read, `prim` reads what stands before any operator and
`operation` what stands behind one.

Every function returns what is left of the tokens with the fact that something was consumed
(`Shorter`) or that nothing was added (`AtMost`); with a rank for the functions that call one
another on the same tokens this bounds the recursion.

Some texts are read that one might expect to be refused: the items of a list or call need no commas
between them, a blank list `[ ]` is empty, and a name in parentheses can be called.

The place of an expression is that of the token it begins with, of its operator, or, for projections
and comparisons, of the last token read for it (`lastRead`).
-/

set_option autoImplicit false

namespace EventFlow

namespace Query

/-- Fewer tokens than `ts`. -/
abbrev Shorter (ts : List Lexeme) : Type := { rest : List Lexeme // rest.length < ts.length }

/-- At most the tokens `ts`. -/
abbrev AtMost (ts : List Lexeme) : Type := { rest : List Lexeme // rest.length ≤ ts.length }

namespace Parser

/-- How strongly the next token binds. -/
def power : List Lexeme → Nat
  | [] => 0
  | t :: _ => t.token.power

/-- The place of the last token read when `rest` is left of `ts`; the one in front of `ts` was at
`before`. -/
def lastRead (before : Nat) (ts rest : List Lexeme) : Nat :=
  ((ts.take (ts.length - rest.length)).getLast?.map Lexeme.place).getD before

/-- Projections end before tokens that bind less strongly than this. -/
def projectionStop : Nat := 10

/-- Whether an index or slice goes on with a colon or its closing bracket. -/
def endsNumber : List Lexeme → Bool
  | ⟨_, .colon⟩ :: _ | ⟨_, .closeBracket⟩ :: _ => true
  | _ => false

/-- Whether a number or a colon comes next. -/
def startsIndex : List Lexeme → Bool
  | ⟨_, .number _⟩ :: _ | ⟨_, .colon⟩ :: _ => true
  | _ => false

/-- Whether what may follow a dot, other than a list, comes next. -/
def startsMember : List Lexeme → Bool
  | ⟨_, .name _⟩ :: _ | ⟨_, .quoted _⟩ :: _ | ⟨_, .star⟩ :: _ | ⟨_, .openBrace⟩ :: _
  | ⟨_, .reference⟩ :: _ => true
  | _ => false

/-- Whether an index, a slice, a list or a filter comes next. -/
def startsBracket : List Lexeme → Bool
  | ⟨_, .openBracket⟩ :: _ | ⟨_, .filter⟩ :: _ => true
  | _ => false

/-- The numbers of an index or slice, the bracket being open: `parts` are those read so far, `seen`
counts the colons before the next.  The result has the parts and the place of the closing bracket.
-/
def bracketParts (parts : List (Option Int)) (part : Option Int) (seen : Nat) (ts : List Lexeme) :
    Except Fault (List (Option Int) × Nat × Shorter ts) :=
  match ts with
  | ⟨_, .number n⟩ :: rest =>
    if endsNumber rest then do
      let (parts, place, left) ← bracketParts parts (some n) seen rest
      return (parts, place, ⟨left.1, Nat.lt_succ_of_lt left.2⟩)
    else .error (.missing "':', or ']'")
  | ⟨place, .closeBracket⟩ :: rest => .ok (parts ++ [part], place, ⟨rest, by simp⟩)
  | ⟨_, .colon⟩ :: rest =>
    if 2 ≤ seen then .error .tooManyColons
    else if startsIndex rest || endsNumber rest then do
      let (parts, place, left) ← bracketParts (parts ++ [part]) none (seen + 1) rest
      return (parts, place, ⟨left.1, Nat.lt_succ_of_lt left.2⟩)
    else .error (.missing "number, ':', or ']'")
  | _ => .error (.missing "number, ':', or ']'")

/-- The comparison a token stands for. -/
def comparator? : Token → Option Comparator
  | .equal => some .equal
  | .notEqual => some .notEqual
  | .less => some .less
  | .lessEqual => some .lessEqual
  | .greater => some .greater
  | .greaterEqual => some .greaterEqual
  | _ => none

/-- What follows the first token, and the place of that one, if it passes `p`. -/
def skip? (p : Token → Bool) (ts : List Lexeme) : Option (Nat × Shorter ts) :=
  match ts with
  | [] => none
  | t :: rest => if p t.token then some (t.place, ⟨rest, Nat.lt_succ_self _⟩) else none

/-- Whether a token is a comma. -/
def isComma : Token → Bool
  | .comma => true
  | _ => false

/-- Whether a token closes a hash. -/
def closesHash : Token → Bool
  | .closeBrace => true
  | _ => false

/-- Whether a token is the one that closes a list or a call. -/
def closes (paren : Bool) : Token → Bool
  | .closeParen => paren
  | .closeBracket => !paren
  | _ => false

mutual

/-- An expression up to the first token that binds no more strongly than `rbp`. -/
def expr (rbp : Nat) (ts : List Lexeme) : Except Fault (Expr × Shorter ts) :=
  match prim ts with
  | .error fault => .error fault
  | .ok (left, ⟨rest, h⟩) =>
    match continueExpr rbp left rest with
    | .error fault => .error fault
    | .ok (e, ⟨rest', h'⟩) => .ok (e, ⟨rest', Nat.lt_of_le_of_lt h' h⟩)
termination_by 8 * ts.length + 2

/-- Go on from an expression while the next token binds more strongly than `rbp`. -/
def continueExpr (rbp : Nat) (left : Expr) (ts : List Lexeme) : Except Fault (Expr × AtMost ts) :=
  if rbp < power ts then
    match operation left ts with
    | .error fault => .error fault
    | .ok (e, ⟨rest, h⟩) =>
      match continueExpr rbp e rest with
      | .error fault => .error fault
      | .ok (e, ⟨rest', h'⟩) => .ok (e, ⟨rest', Nat.le_trans h' (Nat.le_of_lt h)⟩)
  else .ok (left, ⟨ts, Nat.le_refl _⟩)
termination_by 8 * ts.length + 2

/-- What stands before any operator. -/
def prim (ts : List Lexeme) : Except Fault (Expr × Shorter ts) :=
  match ts with
  | [] => .error .unexpectedToken
  | ⟨place, .at⟩ :: rest => .ok (.current place, ⟨rest, by simp⟩)
  | ⟨place, .name text⟩ :: rest => .ok (.field place text, ⟨rest, by simp⟩)
  | ⟨place, .quoted text⟩ :: rest =>
    match rest with
    | ⟨_, .openParen⟩ :: _ => .error .quotedFunctionName
    | rest => .ok (.field place text, ⟨rest, by simp⟩)
  | ⟨place, .literal value⟩ :: rest => .ok (.literal place value, ⟨rest, by simp⟩)
  | ⟨place, .star⟩ :: rest => do
    let (body, left) ← projected place Token.star.power rest
    let last := lastRead place rest left.1
    return (.project last (.members last (.current place)) body,
      ⟨left.1, Nat.lt_succ_of_le left.2⟩)
  | ⟨place, .openBracket⟩ :: rest =>
    if startsIndex rest then do
      let (e, left) ← bracket rest
      return (e, ⟨left.1, Nat.lt_succ_of_lt left.2⟩)
    else
      match rest with
      | ⟨_, .star⟩ :: ⟨closing, .closeBracket⟩ :: rest => do
        let (body, left) ← projected closing Token.star.power rest
        return (.project (lastRead closing rest left.1) (.current place) body,
          ⟨left.1, by have := left.2; simp only [List.length_cons]; omega⟩)
      | rest => do
        let (items, left) ← exprList false rest
        return (.list place items, ⟨left.1, Nat.lt_succ_of_lt left.2⟩)
  | ⟨place, .flatten⟩ :: rest => do
    let (body, left) ← projected place Token.flatten.power rest
    let last := lastRead place rest left.1
    return (.project last (.flatten last (.current place)) body,
      ⟨left.1, Nat.lt_succ_of_le left.2⟩)
  | ⟨place, .openBrace⟩ :: rest => do
    let (entries, left) ← hashEntries rest
    return (.hash place entries, ⟨left.1, Nat.lt_succ_of_lt left.2⟩)
  | ⟨place, .reference⟩ :: rest => do
    let (body, left) ← expr 0 rest
    return (.reference place body, ⟨left.1, Nat.lt_succ_of_lt left.2⟩)
  | ⟨place, .negate⟩ :: rest => do
    let (body, left) ← expr Token.negate.power rest
    return (.negate place body, ⟨left.1, Nat.lt_succ_of_lt left.2⟩)
  | ⟨place, .filter⟩ :: rest => do
    let (e, left) ← filtered (.current place) rest
    return (e, ⟨left.1, Nat.lt_succ_of_lt left.2⟩)
  | ⟨_, .openParen⟩ :: rest =>
    match expr 0 rest with
    | .error fault => .error fault
    | .ok (e, ⟨left, h⟩) =>
      match skip? (closes true) left with
      | some (_, ⟨left, h'⟩) => .ok (e, ⟨left, Nat.lt_succ_of_lt (Nat.lt_trans h' h)⟩)
      | none => .error (.missing "')' to close '('")
  | _ :: _ => .error .unexpectedToken
termination_by 8 * ts.length + 1

/-- What stands behind an expression: an operator and its right side, an index, or a call. -/
def operation (left : Expr) (ts : List Lexeme) : Except Fault (Expr × Shorter ts) :=
  match ts with
  | [] => .error .unexpectedToken
  | ⟨place, .dot⟩ :: rest =>
    match rest with
    | ⟨star, .star⟩ :: rest => do
      let (body, left') ← projected star Token.star.power rest
      let last := lastRead star rest left'.1
      return (.project last (.members last left) body,
        ⟨left'.1, by have := left'.2; simp only [List.length_cons]; omega⟩)
    | rest => do
      let (e, left') ← dotted Token.dot.power rest
      return (.chain place left e, ⟨left'.1, Nat.lt_succ_of_lt left'.2⟩)
  | ⟨place, .openBracket⟩ :: rest =>
    if startsIndex rest then do
      let (e, left') ← bracket rest
      return (.chain place left e, ⟨left'.1, Nat.lt_succ_of_lt left'.2⟩)
    else
      match rest with
      | ⟨_, .star⟩ :: ⟨closing, .closeBracket⟩ :: rest => do
        let (body, left') ← projected closing Token.star.power rest
        return (.project (lastRead closing rest left'.1) left body,
          ⟨left'.1, by have := left'.2; simp only [List.length_cons]; omega⟩)
      | _ => .error (.missing "number, ':', or '*]'")
  | ⟨place, .either⟩ :: rest => do
    let (right, left') ← expr Token.either.power rest
    return (.either place left right, ⟨left'.1, Nat.lt_succ_of_lt left'.2⟩)
  | ⟨place, .both⟩ :: rest => do
    let (right, left') ← expr Token.both.power rest
    return (.both place left right, ⟨left'.1, Nat.lt_succ_of_lt left'.2⟩)
  | ⟨place, .pipe⟩ :: rest => do
    let (right, left') ← expr Token.pipe.power rest
    return (.chain place left right, ⟨left'.1, Nat.lt_succ_of_lt left'.2⟩)
  | ⟨place, .openParen⟩ :: rest =>
    match left with
    | .field _ function => do
      let (arguments, left') ← exprList true rest
      return (.call place function arguments, ⟨left'.1, Nat.lt_succ_of_lt left'.2⟩)
    | _ => .error .notAFunctionName
  | ⟨place, .flatten⟩ :: rest => do
    let (body, left') ← projected place Token.flatten.power rest
    let last := lastRead place rest left'.1
    return (.project last (.flatten last left) body, ⟨left'.1, Nat.lt_succ_of_le left'.2⟩)
  | ⟨_, .filter⟩ :: rest => do
    let (e, left') ← filtered left rest
    return (e, ⟨left'.1, Nat.lt_succ_of_lt left'.2⟩)
  | t :: rest =>
    match comparator? t.token with
    | none => .error .unexpectedToken
    | some comparator => do
      let (right, left') ← expr t.token.power rest
      return (.compare (lastRead t.place rest left'.1) comparator left right,
        ⟨left'.1, Nat.lt_succ_of_lt left'.2⟩)
termination_by 8 * ts.length + 1

/-- A condition up to its closing bracket, and what every item that meets it is fed into. -/
def filtered (source : Expr) (ts : List Lexeme) : Except Fault (Expr × Shorter ts) :=
  match expr 0 ts with
  | .error fault => .error fault
  | .ok (test, ⟨rest, h⟩) =>
    match skip? (closes false) rest with
    | none => .error (.missing "']'")
    | some (closing, ⟨rest, h'⟩) =>
      have h := Nat.lt_trans h' h
      match projected closing Token.filter.power rest with
      | .error fault => .error fault
      | .ok (body, ⟨left, h'⟩) =>
        let last := lastRead closing rest left
        .ok (.project last source (.whenever last test body), ⟨left, Nat.lt_of_le_of_lt h' h⟩)
termination_by 8 * ts.length + 4

/-- What stands behind a dot. -/
def dotted (rbp : Nat) (ts : List Lexeme) : Except Fault (Expr × Shorter ts) :=
  match ts with
  | ⟨place, .openBracket⟩ :: rest => do
    let (items, left) ← exprList false rest
    return (.list place items, ⟨left.1, Nat.lt_succ_of_lt left.2⟩)
  | ts =>
    if startsMember ts then expr rbp ts
    else .error (.missing "identifier, '*', '\x7b', '[', '&', or '[?'")
termination_by 8 * ts.length + 3

/-- What the items of a projection are fed into; nothing at all when the projection ends here,
behind the token at `before`. -/
def projected (before rbp : Nat) (ts : List Lexeme) : Except Fault (Expr × AtMost ts) :=
  match ts with
  | ⟨_, .dot⟩ :: rest => do
    let (e, left) ← dotted rbp rest
    return (e, ⟨left.1, Nat.le_succ_of_le (Nat.le_of_lt left.2)⟩)
  | ts =>
    if startsBracket ts then do
      let (e, left) ← expr rbp ts
      return (e, ⟨left.1, Nat.le_of_lt left.2⟩)
    else if power ts < projectionStop then .ok (.current before, ⟨ts, Nat.le_refl _⟩)
    else .error (.missing "'.', '[', or '[?'")
termination_by 8 * ts.length + 4

/-- An index or a slice, its bracket being open; a slice is a projection. -/
def bracket (ts : List Lexeme) : Except Fault (Expr × Shorter ts) :=
  match bracketParts [] none 0 ts with
  | .error fault => .error fault
  | .ok ([some position], place, left) => .ok (.index place position, left)
  | .ok ([none], _, _) => .error .unexpectedToken
  | .ok (parts, place, ⟨rest, h⟩) =>
    match projected place Token.star.power rest with
    | .error fault => .error fault
    | .ok (body, ⟨left, h'⟩) =>
      let part (i : Nat) : Option Int := (parts[i]?).join
      .ok (.project place (.slice place (part 0) (part 1) ((part 2).getD 1)) body,
        ⟨left, Nat.lt_of_le_of_lt h' h⟩)
termination_by 8 * ts.length + 4

/-- The members of a hash up to its closing brace; there is at least one. -/
def hashEntries (ts : List Lexeme) : Except Fault (List (String × Expr) × Shorter ts) :=
  match ts with
  | ⟨_, .name key⟩ :: ⟨_, .colon⟩ :: rest | ⟨_, .quoted key⟩ :: ⟨_, .colon⟩ :: rest =>
    match expr 0 rest with
    | .error fault => .error fault
    | .ok (value, ⟨left, h⟩) =>
      match skip? closesHash left with
      | some (_, ⟨left, h'⟩) =>
        .ok ([(key, value)], ⟨left, by simp only [List.length_cons]; omega⟩)
      | none =>
        match skip? isComma left with
        | none => .error (.missing "'\x7d' or ','")
        | some (_, ⟨left, h'⟩) =>
          have h := Nat.lt_trans h' h
          match hashEntries left with
          | .error fault => .error fault
          | .ok (entries, ⟨left, h'⟩) =>
            .ok ((key, value) :: entries, ⟨left, by simp only [List.length_cons]; omega⟩)
  | ⟨_, .name _⟩ :: _ | ⟨_, .quoted _⟩ :: _ => .error (.missing "':' to follow key")
  | _ => .error (.missing "field to start key value pair")
termination_by 8 * ts.length + 4

/-- Expressions up to the closing bracket, or parenthesis; a comma behind one must be followed by
another. -/
def exprList (paren : Bool) (ts : List Lexeme) : Except Fault (List Expr × Shorter ts) :=
  match ts with
  | [] => .error .unexpectedToken
  | t :: rest =>
    if closes paren t.token then .ok ([], ⟨rest, by simp⟩)
    else
      match expr 0 (t :: rest) with
      | .error fault => .error fault
      | .ok (item, ⟨left, h⟩) =>
        match skip? isComma left with
        | some (_, ⟨left, h'⟩) =>
          have h := Nat.lt_trans h' h
          if (left.head?.map fun t => closes paren t.token).getD false then .error .trailingComma
          else
            match exprList paren left with
            | .error fault => .error fault
            | .ok (items, ⟨left, h'⟩) => .ok (item :: items, ⟨left, Nat.lt_trans h' h⟩)
        | none =>
          match exprList paren left with
          | .error fault => .error fault
          | .ok (items, ⟨left, h'⟩) => .ok (item :: items, ⟨left, Nat.lt_trans h' h⟩)
termination_by 8 * ts.length + 4
decreasing_by all_goals omega

end

end Parser

/-- The expression a text denotes. -/
def parse (text : String) : Except Fault Expr := do
  let tokens ← Token.scan text
  let (e, rest) ← Parser.expr 0 tokens
  if rest.1.isEmpty then return e else throw .trailingTokens

end Query

end EventFlow

import EventFlow.Json.Token

/-!
# JSON texts taken apart

A `Draft` is what a text says before anything in it is read: its arrays and objects are known, but
words and texts are as they are written, and an object may have several members with one key.  A
text is taken apart by folding over its tokens with the open arrays and objects on a stack.
-/

set_option autoImplicit false

namespace EventFlow

namespace Json

/-- A value of JSON text, taken apart. -/
inductive Draft
  | word (chars : List Char)
  | text (chars : List Char)
  | arr (items : List Draft)
  | obj (members : List (List Char × Draft))

namespace Draft

/-- An open array or an open object, with the key of its latest member.  What is in them is kept
back to front. -/
inductive Frame
  | arr (done : List Draft)
  | obj (done : List (List Char × Draft)) (key : List Char)

/-- What may come next. -/
inductive Awaited
  | value
  | firstItem
  | firstKey
  | key
  | colon
  | separator
  | nothing (draft : Draft)

/-- A text read in part. -/
structure Reader where
  awaited : Awaited
  stack : List Frame

namespace Reader

/-- Place a complete value in the innermost open array or object. -/
def place (value : Draft) : List Frame → Reader
  | [] => ⟨.nothing value, []⟩
  | .arr done :: stack => ⟨.separator, .arr (value :: done) :: stack⟩
  | .obj done key :: stack => ⟨.separator, .obj ((key, value) :: done) key :: stack⟩

/-- Read a token where a value may begin. -/
def begin? (stack : List Frame) : Token → Option Reader
  | .word chars => some (place (.word chars) stack)
  | .text chars => some (place (.text chars) stack)
  | .openArray => some ⟨.firstItem, .arr [] :: stack⟩
  | .openObject => some ⟨.firstKey, .obj [] [] :: stack⟩
  | _ => none

/-- Read a token where the key of a member may stand. -/
def key? : List Frame → Token → Option Reader
  | .obj done _ :: stack, .text key => some ⟨.colon, .obj done key :: stack⟩
  | _, _ => none

/-- Close the innermost array or object. -/
def close? : List Frame → Token → Option Reader
  | .arr done :: stack, .closeArray => some (place (.arr done.reverse) stack)
  | .obj done _ :: stack, .closeObject => some (place (.obj done.reverse) stack)
  | _, _ => none

/-- Read one token. -/
def step? (r : Reader) (t : Token) : Option Reader :=
  match r.awaited with
  | .value => begin? r.stack t
  | .firstItem => (close? r.stack t).or (begin? r.stack t)
  | .firstKey => (close? r.stack t).or (key? r.stack t)
  | .key => key? r.stack t
  | .colon =>
    match t with
    | .colon => some { r with awaited := .value }
    | _ => none
  | .separator =>
    match t, r.stack with
    | .comma, .arr _ :: _ => some { r with awaited := .value }
    | .comma, .obj _ _ :: _ => some { r with awaited := .key }
    | t, stack => close? stack t
  | .nothing _ => none

end Reader

/-- A text taken apart. -/
def ofText? (text : String) : Option Draft := do
  let tokens ← Token.scan? text
  let reader ← tokens.foldlM Reader.step? ⟨.value, []⟩
  match reader.awaited with
  | .nothing draft => some draft
  | _ => none

end Draft

end Json

end EventFlow

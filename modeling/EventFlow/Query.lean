import EventFlow.Json

/-!
# Queries

Conditions and computed values are texts in a query language over JSON.  The engine does not read
them itself: it hands them to a library, of which `Query.Library` lists what is called.  Everything
about the engine is said for any such library.

A search need not return, since a query may apply an expression to itself without end.  A request
that makes such a search is never answered, so what the engine does with it does not matter:
`Query.answer` reads it as a search that failed.  Where an answer is promised, `Query.Returns` is
among the conditions.
-/

set_option autoImplicit false

namespace EventFlow

namespace Query

/-- What is called of a library that reads queries and searches JSON with them. -/
class Library (Compiled Found : outParam Type) where
  /-- The query that a text holds, or the words for what is wrong with it. -/
  compile (text : String) : Except String Compiled
  /-- What a query finds in a JSON value, or the words for why it finds nothing; none of both if the
  search does not return. -/
  search (query : Compiled) (value : Json) : Option (Except String Found)
  /-- What was found, as JSON. -/
  toJson (found : Found) : Json
  /-- Whether what was found counts as true. -/
  isTruthy (found : Found) : Bool

variable {Compiled Found : Type} [Library Compiled Found]

/-- What a search comes to. -/
def answer (query : Compiled) (value : Json) : Except String Found :=
  (Library.search query value).getD (.error "")

/-- Whether the query that a text holds can be searched for in any JSON value, and the search
returns. -/
def Returns (text : String) : Prop :=
  ∀ query : Compiled, Library.compile text = .ok query →
    ∀ value : Json, (Library.search query value).isSome

end Query

end EventFlow

import EventFlow.Config
import EventFlow.Emission

/-!
# Conflicts between emissions

Emissions with the same key compete.  The best one of a group decides for its instance: all
emissions of that instance in the group win, and those of other instances are overridden.  Better is
what has the higher priority, then the higher specificity, then the place in the order of creation
that the tie-break prefers, then the smaller identity of the instance.

When priority and specificity do not tell the best two instances of a group apart, the group has a
tie worth reporting.
-/

set_option autoImplicit false

namespace EventFlow

/-- An emission that lost, and to whom. -/
structure Overridden where
  emission : Emission
  winner : InstanceId

/-- A group whose best two instances are equal in priority and specificity. -/
structure Tie where
  key : String
  winner : InstanceId
  runnerUp : InstanceId
  /-- Whether the identity of the instance had to decide. -/
  unresolvable : Bool

/-- What becomes of some emissions: those that win and those that lose, each in the order in which
they were made, and the ties by key. -/
structure Resolution where
  winners : List Emission
  overridden : List Overridden
  ties : List Tie

namespace Emission

/-- How two emissions compare by the order of creation. -/
def compareCreation (t : TieBreak) (a b : Emission) : Ordering :=
  match t with
  | .earliestFirst => compare a.createdAt b.createdAt
  | .latestFirst => compare b.createdAt a.createdAt

/-- How two emissions rank; the better one is less. -/
def rank (t : TieBreak) (a b : Emission) : Ordering :=
  (compare b.priority a.priority).then <|
    (compare b.specificity a.specificity).then <|
      (compareCreation t a b).then (compare a.instanceId.text b.instanceId.text)

/-- The better of two emissions, the first one if they rank equal. -/
def better (t : TieBreak) (a b : Emission) : Emission := if rank t b a = .lt then b else a

/-- The best of some emissions, the first one of those that rank equal. -/
def best? (t : TieBreak) : List Emission → Option Emission
  | [] => none
  | e :: es => some (es.foldl (better t) e)

end Emission

namespace Conflict

/-- The members of a group, in order. -/
def members (es : List Emission) (key : String) : List Emission := es.filter (·.key = some key)

/-- The keys in use, in order and each once. -/
def keys (es : List Emission) : List String :=
  Dict.keys (Dict.ofList (es.filterMap fun e => e.key.map (·, ())))

/-- The instance whose emissions win a group. -/
def winner? (t : TieBreak) (es : List Emission) (key : String) : Option InstanceId :=
  (Emission.best? t (members es key)).map Emission.instanceId

/-- The tie of a group, if it has one. -/
def tie? (t : TieBreak) (es : List Emission) (key : String) : Option Tie := do
  let best ← Emission.best? t (members es key)
  let others := (members es key).filter (·.instanceId ≠ best.instanceId)
  let next ← Emission.best? t others
  if next.priority = best.priority ∧ next.specificity = best.specificity then
    return ⟨key, best.instanceId, next.instanceId, next.createdAt = best.createdAt⟩
  else none

/-- Who an emission loses to; nobody if it wins. -/
def lostTo? (t : TieBreak) (es : List Emission) (e : Emission) : Option InstanceId := do
  let key ← e.key
  let w ← winner? t es key
  if w = e.instanceId then none else some w

/-- Let emissions compete. -/
def resolve (t : TieBreak) (es : List Emission) : Resolution where
  winners := es.filter fun e => (lostTo? t es e).isNone
  overridden := es.filterMap fun e => (lostTo? t es e).map (⟨e, ·⟩)
  ties := (keys es).filterMap (tie? t es)

end Conflict

end EventFlow

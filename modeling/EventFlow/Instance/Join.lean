import EventFlow.Instance.Basic

/-!
# Forks and joins

A fork puts a head on each branch: the forking head goes down the first one, new heads down the
others.  A head that reaches the join waits there; when the last one arrives, all are merged into
the head of the lowest branch, which goes on behind the join.

A join whose fork lost a head can never complete, so `Instance.settle` aborts the heads that wait
there.  Those are heads of outer forks as well, so settling repeats until nobody is left waiting in
vain.
-/

set_option autoImplicit false

namespace EventFlow

namespace Instance

/-! ## Aborts -/

/-- The forks that a head was aborted in. -/
def brokenForks (i : Instance) : List Nat :=
  (i.heads.filter (·.state.isAborted)).flatMap fun h => h.branches.map Branch.group

/-- The fork a head waits for in vain. -/
def vain? (broken : List Nat) (h : Head) : Option Nat :=
  h.state.joining?.filter broken.contains

/-- Why a head is aborted that waits for a broken fork. -/
def siblingReason (group : Nat) : String :=
  "sibling in fork group " ++ toString group ++ " aborted"

/-- A head, aborted if it waits in vain. -/
def giveUp (broken : List Nat) (h : Head) : Head :=
  match vain? broken h with
  | some group => { h with state := .aborted (siblingReason group) }
  | none => h

/-- The observations of the heads that are aborted because they wait in vain. -/
def vainObservations (i : Instance) (broken : List Nat) : List Observation :=
  i.heads.filterMap fun h =>
    (vain? broken h).map fun group => .headAborted i.id h.id (siblingReason group)

/-- One round of settling: forget the bases of broken forks and abort who waits for them. -/
def settleOnce (i : Instance) : Instance :=
  let broken := i.brokenForks
  { i with
    heads := i.heads.map (giveUp broken)
    bases := broken.foldl Dict.remove i.bases
    observations := i.observations ++ i.vainObservations broken }

/-- How many heads wait at a join. -/
def joiningCount (i : Instance) : Nat := i.heads.countP (·.state.joining?.isSome)

theorem joining?_giveUp (broken : List Nat) (h : Head) :
    (giveUp broken h).state.joining?.isSome = true → h.state.joining?.isSome = true := by
  unfold giveUp
  split
  · simp [HeadState.joining?]
  · exact fun h => h

theorem countP_giveUp_le (broken : List Nat) : ∀ heads : List Head,
    (heads.map (giveUp broken)).countP (·.state.joining?.isSome) ≤
      heads.countP (·.state.joining?.isSome)
  | [] => Nat.le_refl _
  | h :: heads => by
    have ih := countP_giveUp_le broken heads
    have := joining?_giveUp broken h
    simp only [List.map_cons, List.countP_cons]
    split <;> split <;> first | omega | simp_all

theorem countP_giveUp_lt (broken : List Nat) : ∀ heads : List Head,
    heads.any (fun h => (vain? broken h).isSome) = true →
    (heads.map (giveUp broken)).countP (·.state.joining?.isSome) <
      heads.countP (·.state.joining?.isSome)
  | [], h => by simp at h
  | x :: heads, h => by
    simp only [List.map_cons, List.countP_cons]
    simp only [List.any_cons, Bool.or_eq_true] at h
    have hle := countP_giveUp_le broken heads
    by_cases hx : (vain? broken x).isSome = true
    · obtain ⟨group, hg⟩ := Option.isSome_iff_exists.1 hx
      have hj : x.state.joining?.isSome = true := by
        simp only [vain?, Option.filter_eq_some_iff] at hg
        simp [hg.1]
      have hn : (giveUp broken x).state.joining?.isSome = false := by
        simp [giveUp, hg, HeadState.joining?]
      simp only [hj, hn, if_true, Bool.false_eq_true, if_false]
      omega
    · have hih := countP_giveUp_lt broken heads (h.resolve_left hx)
      have hn : giveUp broken x = x := by
        rw [Option.not_isSome_iff_eq_none] at hx
        simp [giveUp, hx]
      rw [hn]
      omega

/-- Abort every head that waits for a fork in which a head was aborted, until none is left. -/
def settle (i : Instance) : Instance :=
  if i.heads.any fun h => (vain? i.brokenForks h).isSome then settle i.settleOnce
  else i.settleOnce
termination_by i.joiningCount
decreasing_by exact countP_giveUp_lt _ _ (by assumption)

/-- Abort the head at a place in the list from within. -/
def abortHead (i : Instance) (k : Nat) (h : Head) (reason : String) : Instance :=
  settle
    { (i.setHead k { h with state := .aborted reason }).observe (.headAborted i.id h.id reason) with
      abortReason := some (i.abortReason.getD reason) }

/-! ## Forks -/

/-- Send the head at a place in the list down the first branch of a fork, and new heads down the
others; the identities of those come with the instance. -/
def fork (i : Instance) (k : Nat) (h : Head) (first : Nat) (others : List Nat) :
    Instance × List HeadId :=
  let branch (index : Nat) : Branch := ⟨i.nextGroup, others.length + 1, index⟩
  let spawned := others.zipIdx.map fun s => h.goDown ⟨i.nextHead + s.2⟩ (branch (s.2 + 1)) s.1
  let i' :=
    { i with
      heads := i.heads.set k (h.goDown h.id (branch 0) first) ++ spawned
      nextHead := i.nextHead + others.length
      nextGroup := i.nextGroup + 1
      bases := Dict.put i.bases i.nextGroup h.bindings }
  (i', spawned.map Head.id)

/-! ## Joins -/

/-- The bindings of a branch that differ from those at the fork. -/
def changes (base bindings : Bindings) : Bindings :=
  bindings.filter fun b =>
    match Dict.get? base b.1 with
    | some v => !v.same b.2
    | none => true

/-- The bindings after a join: those at the fork, and over them the changes of every branch. -/
def mergeBindings (base : Bindings) (branches : List Bindings) : Bindings :=
  branches.foldl (fun merged b => Dict.putAll merged (changes base b)) base

/-- The heads that wait for a fork, with their places in the list, by branch. -/
def arrived (i : Instance) (group : Nat) : List (Head × Nat) :=
  (i.heads.zipIdx.filter fun s => s.1.state.joining? = some group).mergeSort
    fun a b => a.1.joinOrder ≤ b.1.joinOrder

/-- The head that goes on behind a join. -/
def survivor (base : Bindings) (h : Head) (arrived : List Head) : Head :=
  { h with
    state := .ready
    position := h.position + 1
    bindings := mergeBindings base (arrived.map Head.bindings)
    branches := h.branches.tail
    specificity := (arrived.map Head.specificity).foldl max 0 }

/-- Merge the heads that wait for a fork into the first of them. -/
def merge (i : Instance) (group : Nat) (h : Head) (k : Nat) (others : List (Head × Nat)) :
    Instance :=
  let base := (Dict.get? i.bases group).getD []
  let away := others.map fun s => s.1.id
  { i with
    heads := (i.heads.set k (survivor base h (h :: others.map Prod.fst))).filter
      fun h => !away.contains h.id
    bases := Dict.remove i.bases group }

/-- Let the head at a place in the list arrive at a join.  The identity of the head that goes on
behind it comes with the instance, if there is one. -/
def arrive (i : Instance) (k : Nat) (h : Head) : Instance × Option HeadId :=
  match h.branches with
  | [] => (i.setHead k h.advance, some h.id)
  | b :: _ =>
    let i := settle (i.setHead k { h with state := .atJoin b.group })
    if (i.heads[k]?.bind (·.state.joining?)) = some b.group then
      match i.arrived b.group with
      | [] => (i, none)
      | (first, place) :: others =>
        if others.length + 1 < b.size then (i, none)
        else (i.merge b.group first place others, some first.id)
    else (i, none)

end Instance

end EventFlow

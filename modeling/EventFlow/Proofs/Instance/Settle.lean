import EventFlow.Instance.Weight
import EventFlow.Proofs.Instance.Forest
import Mathlib.Data.List.Nodup

/-!
# The heads of an instance

How forks, joins and settling change the list of heads, said by membership: a head is replaced in
place, some are added behind, some are dropped.  All of it needs that no two heads have the same
identity.

## What is here

* `Instance.On` is the relation between heads and branches whose forest is of interest.
* `Instance.HasArrived` and `Instance.Broken` are what a join looks at: which branches have a head
  that waits, and whether a head of the fork was aborted.
* `Instance.Stops` relates an instance and the same instance with some heads aborted.
* `settle_unbroken`: after settling nobody waits for a broken fork; `heads_settle`: settling changes
  nothing when nobody does so anyway.
* `mem_fork` and `mem_merge` are the heads behind a fork and behind a join.
-/

set_option autoImplicit false

namespace EventFlow

/-- Exchanging an entry of a list for one with the same value leaves all values in place. -/
theorem map_set_of_eq {α β : Type} {f : α → β} {l : List α} {k : Nat} {a b : α}
    (hk : l[k]? = some a) (hf : f b = f a) : (l.set k b).map f = l.map f := by
  obtain ⟨hlt, hget⟩ := List.getElem?_eq_some_iff.1 hk
  have hself := List.set_getElem_self (show k < (l.map f).length by simpa using hlt)
  rw [List.getElem_map, hget] at hself
  rw [List.map_set, hf, hself]

namespace Instance

/-- The head with an identity is on some branches. -/
def On (i : Instance) (id : HeadId) (bs : List Branch) : Prop :=
  ∃ h ∈ i.heads, h.id = id ∧ h.branches = bs

/-- The head of a branch waits for the other heads of its fork. -/
def HasArrived (i : Instance) (g j : Nat) : Prop :=
  ∃ h ∈ i.heads, h.state = .atJoin g ∧ ∃ b bs, h.branches = b :: bs ∧ b.index = j

/-- A head was aborted that is on a branch of a fork. -/
def Broken (i : Instance) (g : Nat) : Prop :=
  ∃ h ∈ i.heads, h.state.isAborted = true ∧ ∃ b ∈ h.branches, b.group = g

/-- No head waits for a fork that a head was aborted in. -/
def Unbroken (i : Instance) : Prop := ∀ h ∈ i.heads, ∀ g, h.state = .atJoin g → ¬i.Broken g

section Heads

variable {i : Instance} {h h' x : Head} {k : Nat}

theorem mem_brokenForks {g : Nat} : g ∈ i.brokenForks ↔ i.Broken g := by
  simp only [brokenForks, Broken, List.mem_flatMap, List.mem_filter, List.mem_map, and_assoc]

/-- Two heads with the same identity are one. -/
theorem eq_of_id (hd : (i.heads.map Head.id).Nodup) (hh : h ∈ i.heads) (hx : x ∈ i.heads)
    (he : x.id = h.id) : x = h := List.inj_on_of_nodup_map hd hx hh he

theorem exists_slot (hd : (i.heads.map Head.id).Nodup) (hh : h ∈ i.heads) :
    ∃ k, i.slot? h.id = some (h, k) := by
  obtain ⟨k, hk⟩ := List.mem_iff_getElem?.1 hh
  cases hs : i.slot? h.id with
  | none =>
    have := List.find?_eq_none.1 hs (h, k) (List.mem_zipIdx_iff_getElem?.2 hk)
    simp at this
  | some s =>
    have hid : s.1.id = h.id := by
      have := List.find?_some hs
      simpa using this
    have hmem := List.mem_of_getElem? (getElem?_of_mem_zipIdx (List.mem_of_find?_eq_some hs))
    exact ⟨s.2, by rw [← eq_of_id hd hh hmem hid]⟩

/-! ## Replacing a head -/

/-- A head that is replaced in place, by one with the same identity. -/
theorem mem_setHead (hd : (i.heads.map Head.id).Nodup) (hk : i.heads[k]? = some h) :
    x ∈ (i.setHead k h').heads ↔ x = h' ∨ x ∈ i.heads ∧ x.id ≠ h.id := by
  obtain ⟨hlt, hget⟩ := List.getElem?_eq_some_iff.1 hk
  rw [setHead, List.mem_iff_getElem?, List.mem_iff_getElem?]
  constructor
  · rintro ⟨j, hj⟩
    by_cases hjk : k = j
    · subst hjk
      rw [List.getElem?_set_self hlt] at hj
      exact .inl (Option.some.inj hj).symm
    · rw [List.getElem?_set_ne hjk] at hj
      refine .inr ⟨⟨j, hj⟩, fun he => hjk ?_⟩
      obtain ⟨hlt', hget'⟩ := List.getElem?_eq_some_iff.1 hj
      rw [← hget, ← hget', ← List.getElem_map Head.id, ← List.getElem_map Head.id] at he
      · exact (hd.getElem_inj_iff.1 he).symm
      all_goals simpa
  · rintro (rfl | ⟨⟨j, hj⟩, hne⟩)
    · exact ⟨k, List.getElem?_set_self hlt⟩
    · refine ⟨j, ?_⟩
      rw [List.getElem?_set_ne, hj]
      rintro rfl
      rw [hk] at hj
      exact hne (congrArg Head.id (Option.some.inj hj).symm)

theorem ids_setHead (hk : i.heads[k]? = some h) (hid : h'.id = h.id) :
    (i.setHead k h').heads.map Head.id = i.heads.map Head.id := map_set_of_eq hk hid

theorem on_setHead (hd : (i.heads.map Head.id).Nodup) (hk : i.heads[k]? = some h)
    (hid : h'.id = h.id) (hbs : h'.branches = h.branches) (id : HeadId) (bs : List Branch) :
    (i.setHead k h').On id bs ↔ i.On id bs := by
  have hmem := List.mem_of_getElem? hk
  constructor
  · rintro ⟨x, hx, rfl, rfl⟩
    rcases (mem_setHead hd hk).1 hx with rfl | ⟨hx, -⟩
    · exact ⟨h, hmem, hid.symm, hbs.symm⟩
    · exact ⟨x, hx, rfl, rfl⟩
  · rintro ⟨x, hx, rfl, rfl⟩
    by_cases he : x.id = h.id
    · obtain rfl := eq_of_id hd hmem hx he
      exact ⟨h', (mem_setHead hd hk).2 (.inl rfl), hid, hbs⟩
    · exact ⟨x, (mem_setHead hd hk).2 (.inr ⟨hx, he⟩), rfl, rfl⟩

theorem on_setState (hd : (i.heads.map Head.id).Nodup) (hk : i.heads[k]? = some h)
    (state : HeadState) (id : HeadId) (bs : List Branch) :
    (i.setHead k { h with state }).On id bs ↔ i.On id bs := by
  rw [on_setHead hd hk] <;> rfl

/-- A fork is broken by the heads that are aborted, not by those that are moved. -/
theorem broken_setHead (hd : (i.heads.map Head.id).Nodup) (hk : i.heads[k]? = some h)
    (hu : h.state.isAborted = false) (hu' : h'.state.isAborted = false) (g : Nat) :
    (i.setHead k h').Broken g ↔ i.Broken g := by
  constructor
  · rintro ⟨x, hx, ha, hb⟩
    rcases (mem_setHead hd hk).1 hx with rfl | ⟨hx, -⟩
    · rw [hu'] at ha
      cases ha
    · exact ⟨x, hx, ha, hb⟩
  · rintro ⟨x, hx, ha, hb⟩
    refine ⟨x, (mem_setHead hd hk).2 (.inr ⟨hx, fun he => ?_⟩), ha, hb⟩
    obtain rfl := eq_of_id hd (List.mem_of_getElem? hk) hx he
    rw [hu] at ha
    cases ha

/-! ## Aborting heads -/

/-- `i'` is `i` with some heads aborted. -/
structure Stops (i i' : Instance) : Prop where
  heads : ∃ f : Head → Head, i'.heads = i.heads.map f ∧
    ∀ h, f h = h ∨ ∃ reason, f h = { h with state := .aborted reason }
  nextHead : i'.nextHead = i.nextHead
  nextGroup : i'.nextGroup = i.nextGroup

section Stops

variable {i' : Instance}

theorem Stops.mem (hs : i.Stops i') (hx : x ∈ i'.heads) :
    x ∈ i.heads ∨ ∃ h ∈ i.heads, ∃ reason, x = { h with state := .aborted reason } := by
  obtain ⟨f, hf, hs⟩ := hs.heads
  rw [hf] at hx
  obtain ⟨h, hh, rfl⟩ := List.mem_map.1 hx
  rcases hs h with he | ⟨reason, he⟩
  · exact .inl (by rwa [he])
  · exact .inr ⟨h, hh, reason, he⟩

theorem Stops.ids (hs : i.Stops i') : i'.heads.map Head.id = i.heads.map Head.id := by
  obtain ⟨f, hf, hs⟩ := hs.heads
  rw [hf, List.map_map]
  refine List.map_congr_left fun h _ => ?_
  rcases hs h with he | ⟨reason, he⟩ <;> rw [Function.comp, he]

/-- Aborted heads stay on their branches. -/
theorem Stops.on (hs : i.Stops i') (id : HeadId) (bs : List Branch) :
    i'.On id bs ↔ i.On id bs := by
  obtain ⟨f, hf, hs⟩ := hs.heads
  have hkeep (h : Head) : (f h).id = h.id ∧ (f h).branches = h.branches := by
    rcases hs h with he | ⟨reason, he⟩ <;> rw [he] <;> exact ⟨rfl, rfl⟩
  rw [On]
  rw [hf]
  constructor
  · rintro ⟨x, hx, rfl, rfl⟩
    obtain ⟨h, hh, rfl⟩ := List.mem_map.1 hx
    exact ⟨h, hh, (hkeep h).1.symm, (hkeep h).2.symm⟩
  · rintro ⟨h, hh, rfl, rfl⟩
    exact ⟨f h, List.mem_map_of_mem hh, hkeep h⟩

theorem heads_refresh (i : Instance) : i.refresh.heads = i.heads := by
  rw [refresh]
  split
  · rfl
  · simp only
    split <;> rfl

theorem stops_refresh (i : Instance) : i.Stops i.refresh := by
  have hcounters : i.refresh.nextHead = i.nextHead ∧ i.refresh.nextGroup = i.nextGroup := by
    rw [refresh]
    split
    · exact ⟨rfl, rfl⟩
    · simp only
      split <;> exact ⟨rfl, rfl⟩
  exact ⟨⟨fun h => h, by rw [heads_refresh, List.map_id'], fun _ => .inl rfl⟩, hcounters.1,
    hcounters.2⟩

theorem stops_settle (i : Instance) : i.Stops i.settle := by
  have hcounters : i.settle.nextHead = i.nextHead ∧ i.settle.nextGroup = i.nextGroup := by
    fun_induction settle i with
    | case1 i _ ih => exact ih
    | case2 i _ => exact ⟨rfl, rfl⟩
  obtain ⟨f, hf, hs⟩ := i.settle_heads
  exact ⟨⟨f, hf, fun h => (hs h).imp_right And.right⟩, hcounters.1, hcounters.2⟩

/-- An abort from within stops a head and then those that wait for it. -/
theorem stops_abortHead (i : Instance) (k : Nat) (h : Head) (reason : String) :
    (i.setHead k { h with state := .aborted reason }).Stops (i.abortHead k h reason) := by
  have hs := stops_settle
    { (i.setHead k { h with state := .aborted reason }).observe (.headAborted i.id h.id reason) with
      abortReason := some (i.abortReason.getD reason) }
  exact ⟨hs.heads, hs.nextHead, hs.nextGroup⟩

/-- An instance all of whose live heads are aborted. -/
def stopAll (i : Instance) (reason : String) : Instance :=
  { i with
    heads := i.heads.map fun h => if h.isTerminal then h else { h with state := .aborted reason }
    abortReason := some (i.abortReason.getD reason) }

theorem abort_eq (i : Instance) (reason : String) :
    i.abort reason = if i.status.isTerminal then i else (i.stopAll reason).refresh := rfl

theorem stops_stopAll (i : Instance) (reason : String) : i.Stops (i.stopAll reason) := by
  refine ⟨⟨_, rfl, fun h => ?_⟩, rfl, rfl⟩
  split
  · exact .inl rfl
  · exact .inr ⟨reason, rfl⟩

theorem isTerminal_of_mem_stopAll {reason : String} (hx : x ∈ (i.stopAll reason).heads) :
    x.isTerminal = true := by
  obtain ⟨h, -, rfl⟩ := List.mem_map.1 hx
  split
  · assumption
  · rfl

end Stops

/-! ## Settling -/

theorem not_vain {broken : List Nat} {g : Nat} (hj : h.state = .atJoin g)
    (hv : ¬(vain? broken h).isSome = true) : g ∉ broken := by
  intro hg
  apply hv
  simp [vain?, hj, HeadState.joining?, hg]

/-- When nobody waits in vain, no head is changed. -/
theorem heads_settleOnce (hv : ¬(i.heads.any fun h => (vain? i.brokenForks h).isSome) = true) :
    i.settleOnce.heads = i.heads := by
  simp only [settleOnce]
  refine (List.map_congr_left fun h hh => ?_).trans (List.map_id _)
  have hnone : vain? i.brokenForks h = none := by
    simp only [List.any_eq_true, not_exists, not_and] at hv
    simpa using hv h hh
  simp [giveUp, hnone]

/-- **After settling, nobody waits for a fork that a head was aborted in.** -/
theorem settle_unbroken (i : Instance) : i.settle.Unbroken := by
  fun_induction settle i with
  | case1 i _ ih => exact ih
  | case2 i hv =>
    have heads := heads_settleOnce hv
    intro h hh g hj hg
    have hg : i.Broken g := by
      obtain ⟨x, hx, hb⟩ := hg
      exact ⟨x, by rwa [heads] at hx, hb⟩
    rw [heads] at hh
    simp only [List.any_eq_true, not_exists, not_and] at hv
    exact not_vain hj (hv h hh) (mem_brokenForks.2 hg)

/-- Settling leaves the heads alone when nobody waits for a broken fork. -/
theorem heads_settle (hu : i.Unbroken) : i.settle.heads = i.heads := by
  rw [settle]
  have hv : ¬(i.heads.any fun h => (vain? i.brokenForks h).isSome) = true := by
    simp only [List.any_eq_true, not_exists, not_and]
    intro h hh hv
    obtain ⟨g, hg⟩ := Option.isSome_iff_exists.1 hv
    obtain ⟨hj, hb⟩ := Option.filter_eq_some_iff.1 hg
    exact hu h hh g (state_of_joining hj) (mem_brokenForks.1 (by simpa using hb))
  rw [if_neg hv, heads_settleOnce hv]

/-- What settling makes of a head: nothing, or an aborted one if it waited. -/
theorem mem_settle (hx : x ∈ i.settle.heads) : x ∈ i.heads ∨
    ∃ h ∈ i.heads, (∃ g, h.state = .atJoin g) ∧
      ∃ reason, x = { h with state := .aborted reason } := by
  obtain ⟨f, hf, hs⟩ := i.settle_heads
  rw [hf] at hx
  obtain ⟨h, hh, rfl⟩ := List.mem_map.1 hx
  rcases hs h with he | ⟨hj, reason, he⟩
  · exact .inl (by rwa [he])
  · exact .inr ⟨h, hh, hj, reason, he⟩

/-! ## Forks -/

/-- The heads behind a fork: the others, and one on each branch. -/
theorem mem_fork (hd : (i.heads.map Head.id).Nodup) (hk : i.heads[k]? = some h) {first : Nat}
    {others : List Nat} : x ∈ (i.fork k h first others).1.heads ↔ x ∈ i.heads ∧ x.id ≠ h.id ∨
      ∃ j start, (first :: others)[j]? = some start ∧
        x = h.goDown (Forest.forkHead h.id i.nextHead j)
          ⟨i.nextGroup, others.length + 1, j⟩ start := by
  have hset := @mem_setHead i h (h.goDown h.id ⟨i.nextGroup, others.length + 1, 0⟩ first) x k hd hk
  simp only [fork, List.mem_append, List.mem_map]
  constructor
  · rintro (hx | ⟨⟨start, j⟩, hs, rfl⟩)
    · rcases hset.1 hx with rfl | hx
      · exact .inr ⟨0, first, rfl, rfl⟩
      · exact .inl hx
    · exact .inr ⟨j + 1, start, getElem?_of_mem_zipIdx hs, rfl⟩
  · rintro (hx | ⟨_ | j, start, hs, rfl⟩)
    · exact .inl (hset.2 (.inr hx))
    · cases hs
      exact .inl (hset.2 (.inl rfl))
    · exact .inr ⟨(start, j), List.mem_zipIdx_iff_getElem?.2 hs, rfl⟩

theorem nodup_fork (hd : (i.heads.map Head.id).Nodup) (hk : i.heads[k]? = some h)
    (hfresh : ∀ x ∈ i.heads, x.id.number < i.nextHead) (first : Nat) (others : List Nat) :
    ((i.fork k h first others).1.heads.map Head.id).Nodup := by
  have hids : (i.heads.set k (h.goDown h.id ⟨i.nextGroup, others.length + 1, 0⟩ first)).map
      Head.id = i.heads.map Head.id := ids_setHead hk rfl
  have hnew : (others.zipIdx.map fun s => (⟨i.nextHead + s.2⟩ : HeadId)) =
      (List.range' 0 others.length).map fun j => ⟨i.nextHead + j⟩ := by
    rw [← List.zipIdx_map_snd 0 others, List.map_map]
    rfl
  simp only [fork, List.map_append, hids, List.map_map]
  rw [show (Head.id ∘ fun s : Nat × Nat => h.goDown ⟨i.nextHead + s.2⟩
    ⟨i.nextGroup, others.length + 1, s.2 + 1⟩ s.1) = fun s => ⟨i.nextHead + s.2⟩ from rfl, hnew,
    List.nodup_append]
  refine ⟨hd, ?_, ?_⟩
  · refine List.Nodup.map (fun j j' hj => ?_) List.nodup_range'
    have := congrArg HeadId.number hj
    simp only at this
    omega
  · intro id hid id' hid' he
    obtain ⟨x, hx, rfl⟩ := List.mem_map.1 hid
    obtain ⟨j, -, rfl⟩ := List.mem_map.1 hid'
    have := hfresh x hx
    rw [he] at this
    simp only at this
    omega

/-! ## Joins -/

theorem nodup_arrived (hd : (i.heads.map Head.id).Nodup) (g : Nat) :
    ((i.arrived g).map fun s => s.1.id).Nodup := by
  refine ((List.mergeSort_perm _ _).map _).nodup_iff.2 ?_
  have hsub := ((List.filter_sublist (p := fun s : Head × Nat => s.1.state.joining? = some g)
    (l := i.heads.zipIdx)).map fun s => s.1.id)
  refine hd.sublist ?_
  have hids : i.heads.zipIdx.map (fun s => s.1.id) = i.heads.map Head.id := by
    rw [← List.zipIdx_map_fst 0 i.heads, List.map_map, List.zipIdx_map_fst]
    rfl
  rwa [hids] at hsub

/-- The head that goes on behind a join is one of those that wait there. -/
theorem first_of_arrived {g place : Nat} {first : Head} {others : List (Head × Nat)}
    (ha : i.arrived g = (first, place) :: others) :
    first ∈ i.heads ∧ first.state = .atJoin g := by
  have hmem : (first, place) ∈ i.arrived g := by
    rw [ha]
    exact .head _
  obtain ⟨hplace, hj⟩ := mem_arrived.1 hmem
  exact ⟨List.mem_of_getElem? hplace, state_of_joining hj⟩

/-- The heads behind a join: the one that goes on, and those that did not wait there. -/
theorem mem_merge (hd : (i.heads.map Head.id).Nodup) {g place : Nat} {first : Head}
    {others : List (Head × Nat)} (ha : i.arrived g = (first, place) :: others) :
    x ∈ (i.merge g first place others).heads ↔
      x = survivor ((Dict.get? i.bases g).getD []) first (first :: others.map Prod.fst) ∨
      x ∈ i.heads ∧ x.state ≠ .atJoin g := by
  have hids := nodup_arrived hd g
  rw [ha, List.map_cons, List.nodup_cons] at hids
  have hmem {y : Head} (hy : y ∈ i.heads) (hj : y.state = .atJoin g) :
      y.id = first.id ∨ y.id ∈ others.map fun s => s.1.id := by
    obtain ⟨j, hj'⟩ := List.mem_iff_getElem?.1 hy
    have : (y, j) ∈ i.arrived g := mem_arrived.2 ⟨hj', by rw [hj]; rfl⟩
    rw [ha] at this
    rcases List.mem_cons.1 this with he | hm
    · exact .inl (congrArg (·.1.id) he)
    · exact .inr (List.mem_map_of_mem (f := fun s : Head × Nat => s.1.id) hm)
  have hwait {s : Head × Nat} (hs : s ∈ i.arrived g) : s.1 ∈ i.heads ∧ s.1.state = .atJoin g := by
    obtain ⟨hget, hj⟩ := mem_arrived.1 hs
    exact ⟨List.mem_of_getElem? hget, state_of_joining hj⟩
  have hat := (mem_arrived.1 (show (first, place) ∈ i.arrived g by rw [ha]; exact .head _)).1
  have hfirst := first_of_arrived ha
  rw [merge]
  simp only [List.mem_filter, Bool.not_eq_true', List.contains_eq_mem, decide_eq_false_iff_not]
  rw [show ∀ s, x ∈ i.heads.set place s ↔ x ∈ (i.setHead place s).heads from fun _ => Iff.rfl,
    mem_setHead hd hat]
  constructor
  · rintro ⟨rfl | ⟨hx, hne⟩, haway⟩
    · exact .inl rfl
    · exact .inr ⟨hx, fun hj => (hmem hx hj).elim hne haway⟩
  · rintro (rfl | ⟨hx, hj⟩)
    · exact ⟨.inl rfl, hids.1⟩
    · refine ⟨.inr ⟨hx, fun he => hj ?_⟩, fun haway => hj ?_⟩
      · rw [eq_of_id hd hfirst.1 hx he]
        exact hfirst.2
      · obtain ⟨s, hs, he⟩ := List.mem_map.1 haway
        have hs := hwait (show s ∈ i.arrived g by rw [ha]; exact .tail _ hs)
        rw [eq_of_id hd hs.1 hx he.symm]
        exact hs.2

theorem nodup_merge (hd : (i.heads.map Head.id).Nodup) {g place : Nat} {first : Head}
    {others : List (Head × Nat)} (ha : i.arrived g = (first, place) :: others) :
    ((i.merge g first place others).heads.map Head.id).Nodup := by
  have hat := (mem_arrived.1 (show (first, place) ∈ i.arrived g by rw [ha]; exact .head _)).1
  have hids := @ids_setHead i first
    (survivor ((Dict.get? i.bases g).getD []) first (first :: others.map Prod.fst)) place hat rfl
  rw [merge]
  refine List.Nodup.sublist (List.filter_sublist.map Head.id) ?_
  rw [setHead] at hids
  simp only at hids ⊢
  rwa [hids]

end Heads

end Instance

end EventFlow

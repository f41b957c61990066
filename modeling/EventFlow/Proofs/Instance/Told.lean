import EventFlow.Proofs.Flow.Closing
import EventFlow.Proofs.Flow.Valid
import EventFlow.Proofs.Instance.Chronicle
import EventFlow.Proofs.Instance.Listening
import EventFlow.Proofs.Instance.Progress
import EventFlow.Query.Eval

/-!
# A join joins its own fork

The layout of an instance says that *some* forks could have put its heads where they are.  Here they
are the forks of its chronicle: every branch that a head is on belongs to a fork that was made by a
head whose own branches are the ones around it, and the joins the head has before it are those that
the branches of that fork lead to.

## What is here

* `Chronicle.Fits` ties the branches of a head to the chronicle, one fork at a time, and remembers
  who has gone down the first branch.
* `Instance.Told` is the invariant; `Told.setHead`, `Told.stops`, `Told.fork` and `Told.merge` keep
  it, as their namesakes keep the layout.
* `Laid.joinOrders` says in which order the heads of a fork are merged.

**`join_joins_own_fork`** is the main result, for every flow that may be loaded.
-/

set_option autoImplicit false

namespace EventFlow

section

variable {Compiled Found : Type} [Query.Library Compiled Found]

namespace Chronicle

/-- A fork was made by the head `o`, and it has `n` branches. -/
def Made (program : Program) (c : Chronicle) (g n : Nat) (o : Head) : Prop :=
  c.forks[g]? = some o ∧ ∃ starts, program.fetch o.position = .fork starts ∧ starts.length = n

/-- A head with an identity may be on some branches: the head that made the fork of the innermost
one was on the others, and went down the first branch itself. -/
def Fits (program : Program) (c : Chronicle) (id : HeadId) : List Branch → Prop
  | [] => True
  | b :: bs => ∃ o, c.Made program b.group b.size o ∧ o.branches = bs ∧ (b.index = 0 → o.id = id)

/-- The joins that the branches of a fork have before them. -/
def ahead (program : Program) (J : Nat → List Nat) (c : Chronicle) (g : Nat) : List Nat :=
  match c.forks[g]? with
  | some o =>
    match program.fetch o.position with
    | .fork (s :: _) => J s
    | _ => []
  | none => []

section Fork

variable {program : Program} {J : Nat → List Nat} {c : Chronicle} {g n : Nat} {h o : Head}
  {id : HeadId} {bs : List Branch}

theorem getElem?_fork_self : (c.fork h).forks[c.forks.length]? = some h :=
  List.getElem?_concat_length

theorem getElem?_fork (hg : g < c.forks.length) : (c.fork h).forks[g]? = c.forks[g]? :=
  List.getElem?_append_left hg

theorem Made.lt (ho : c.Made program g n o) : g < c.forks.length :=
  (List.getElem?_eq_some_iff.1 ho.1).1

theorem Made.fork (ho : c.Made program g n o) (h : Head) : (c.fork h).Made program g n o :=
  ⟨(getElem?_fork ho.lt).trans ho.1, ho.2⟩

theorem Fits.fork (hf : c.Fits program id bs) (h : Head) : (c.fork h).Fits program id bs := by
  cases bs with
  | nil => trivial
  | cons b bs =>
    obtain ⟨o, ho, hrest⟩ := hf
    exact ⟨o, ho.fork h, hrest⟩

theorem ahead_fork (hg : g < c.forks.length) :
    (c.fork h).ahead program J g = c.ahead program J g := by
  rw [ahead, ahead, getElem?_fork hg]

theorem ahead_of_made {first : Nat} {others : List Nat} (ho : c.forks[g]? = some o)
    (hfetch : program.fetch o.position = .fork (first :: others)) :
    c.ahead program J g = J first := by
  rw [ahead, ho]
  simp only [hfetch]

end Fork

end Chronicle

namespace Instance

/-- An instance is where its chronicle has led it. -/
structure Told (program : Program) (Safe : Nat → Prop) (J : Nat → List Nat) (c : Chronicle)
    (i : Instance) : Prop extends i.Laid program Safe J where
  /-- Forks are numbered. -/
  counted : c.forks.length = i.nextGroup
  /-- Heads are on branches of forks that were made. -/
  fits : ∀ x ∈ i.heads, c.Fits program x.id x.branches
  /-- So were the heads that made forks. -/
  origins : ∀ o ∈ c.forks, Safe o.position ∧ c.Fits program o.id o.branches
  /-- The joins before a head are those before the branches it is on. -/
  ahead : ∀ x ∈ i.heads, Tracks (c.ahead program J) (J x.position) x.branches
  /-- The heads stand in the order in which they were made. -/
  increasing : (i.heads.map Head.id).Pairwise fun a b => a.number < b.number
  /-- A fork is open until its join has completed. -/
  joined : ∀ g, g ∈ c.joins ↔ g < i.nextGroup ∧ ¬i.Open g

section Told

variable {program : Program} {Safe : Nat → Prop} {J : Nat → List Nat} {c : Chronicle}
  {i i' : Instance} {h h' x y : Head} {k g : Nat} {b : Branch} {bs : List Branch}

/-! ## Who made the fork -/

/-- Every branch that a head is on belongs to a fork that a head on the branches around it made. -/
theorem Told.made (ht : i.Told program Safe J c) (hx : x ∈ i.heads) {inner outer : List Branch}
    (hb : x.branches = inner ++ b :: outer) :
    ∃ o, c.Made program b.group b.size o ∧ o.branches = outer := by
  have hall : ∀ {id : HeadId} {bs : List Branch}, c.Fits program id bs → bs = inner ++ b :: outer →
      ∃ o, c.Made program b.group b.size o ∧ o.branches = outer := by
    intro id bs hf hbs
    clear hb
    induction inner generalizing id bs with
    | nil =>
      subst hbs
      obtain ⟨o, ho, houter, -⟩ := hf
      exact ⟨o, ho, houter⟩
    | cons d inner ih =>
      subst hbs
      obtain ⟨o, ho, houter, -⟩ := hf
      exact ih (ht.origins o (List.mem_of_getElem? ho.1)).2 houter
  exact hall (ht.fits x hx) hb

/-- A head at a join is on a branch of the fork that this join closes. -/
theorem Told.closes {closings : List (Nat × Nat)} (hp : program.Pairs Safe J)
    (hc : program.Closes Safe J closings) (ht : i.Told program Safe J c) (hx : x ∈ i.heads)
    (hfetch : program.fetch x.position = .join) :
    ∃ b bs o, x.branches = b :: bs ∧ c.forks[b.group]? = some o ∧
      (o.position, x.position) ∈ closings := by
  obtain ⟨b, bs, hb⟩ := ht.exists_branch hp hx hfetch
  obtain ⟨o, ⟨ho, starts, hstarts, -⟩, -⟩ := ht.made hx (show x.branches = [] ++ b :: bs from hb)
  refine ⟨b, bs, o, hb, ho, ?_⟩
  have hsafe := (ht.origins o (List.mem_of_getElem? ho)).1
  obtain ⟨L, hL⟩ := ht.tracked
  have htracks := ht.ahead x hx
  rw [hb, (hp.join _ (hL x hx).1 hfetch).2] at htracks
  obtain ⟨hne, -⟩ := hp.fork _ _ hsafe hstarts
  obtain ⟨first, others, rfl⟩ := List.exists_cons_of_ne_nil hne
  rw [Tracks, Chronicle.ahead_of_made ho hstarts] at htracks
  exact hc _ _ hsafe hstarts first (.head _) _ (by rw [← htracks.1, List.head?_cons])

/-- All heads that wait for a fork wait at the same place. -/
theorem Told.position_eq (hp : program.Pairs Safe J) (ht : i.Told program Safe J c)
    (hx : x ∈ i.heads) (hy : y ∈ i.heads) (hxj : x.state = .atJoin g) (hyj : y.state = .atJoin g) :
    x.position = y.position := by
  obtain ⟨L, hL⟩ := ht.tracked
  have hfirst {z : Head} (hz : z ∈ i.heads) (hzj : z.state = .atJoin g) :
      (c.ahead program J g).head? = some z.position := by
    obtain ⟨hfetch, d, ds, hd, rfl⟩ := ht.waits hz hzj
    have htracks := ht.ahead z hz
    rw [hd, (hp.join _ (hL z hz).1 hfetch).2] at htracks
    rw [← htracks.1, List.head?_cons]
  exact Option.some.inj ((hfirst hx hxj).symm.trans (hfirst hy hyj))

/-! ## Changes that make no fork and complete no join -/

theorem Told.setHead (hp : program.Pairs Safe J) (ht : i.Told program Safe J c)
    (hk : i.heads[k]? = some h) (hid : h'.id = h.id) (hbs : h'.branches = h.branches)
    (hpos : h'.position = h.position ∨ h'.position ∈ program.exits h.position)
    (hst : h'.Stands program) : (i.setHead k h').Told program Safe J c := by
  have hmem := List.mem_of_getElem? hk
  refine ⟨ht.toLaid.setHead hp hk hid hbs hpos hst, ht.counted, ?fits, ht.origins, ?ahead,
    ?increasing, ?joined⟩
  case fits =>
    intro x hx
    rcases (mem_setHead ht.distinct hk).1 hx with rfl | ⟨hx, -⟩
    · rw [hid, hbs]
      exact ht.fits h hmem
    · exact ht.fits x hx
  case ahead =>
    intro x hx
    rcases (mem_setHead ht.distinct hk).1 hx with rfl | ⟨hx, -⟩
    · obtain ⟨L, hL⟩ := ht.tracked
      have hJ : J x.position = J h.position := by
        rcases hpos with hpos | hpos
        · rw [hpos]
        · exact (hp.exits _ (hL h hmem).1 _ hpos).2
      rw [hJ, hbs]
      exact ht.ahead h hmem
    · exact ht.ahead x hx
  case increasing =>
    rw [ids_setHead hk hid]
    exact ht.increasing
  case joined =>
    intro g
    rw [ht.joined, Machine.open_iff_of_on (on_setHead ht.distinct hk hid hbs)]
    rfl

theorem Told.stops (ht : i.Told program Safe J c) (hs : i.Stops i') :
    i'.Told program Safe J c := by
  refine ⟨ht.toLaid.stops hs, ht.counted.trans hs.nextGroup.symm, ?fits, ht.origins, ?ahead,
    ?increasing, ?joined⟩
  case fits =>
    intro x hx
    rcases hs.mem hx with hx | ⟨y, hy, reason, rfl⟩
    · exact ht.fits x hx
    · exact ht.fits y hy
  case ahead =>
    intro x hx
    rcases hs.mem hx with hx | ⟨y, hy, reason, rfl⟩
    · exact ht.ahead x hx
    · exact ht.ahead y hy
  case increasing =>
    rw [hs.ids]
    exact ht.increasing
  case joined =>
    intro g
    rw [ht.joined, hs.nextGroup, Machine.open_iff_of_on hs.on]

/-- What has come to a join is not asked by the invariant. -/
theorem Told.arrive (ht : i.Told program Safe J c) (g : Nat) (y : Head) :
    i.Told program Safe J (c.arrive g y) :=
  ⟨ht.toLaid, ht.counted, ht.fits, ht.origins, ht.ahead, ht.increasing, ht.joined⟩

/-! ## Forks -/

/-- A fork is open when it has been made, and the forking head is still in all those around it. -/
theorem open_fork (hd : (i.heads.map Head.id).Nodup) (hk : i.heads[k]? = some h) {first : Nat}
    {others : List Nat} (hne : g ≠ i.nextGroup) :
    (i.fork k h first others).1.Open g ↔ i.Open g := by
  have hmem := List.mem_of_getElem? hk
  constructor
  · rintro ⟨x, hx, b, hb, rfl⟩
    rcases (mem_fork hd hk).1 hx with ⟨hx, -⟩ | ⟨j, start, hj, rfl⟩
    · exact ⟨x, hx, b, hb, rfl⟩
    · refine ⟨h, hmem, b, (List.mem_cons.1 hb).resolve_left ?_, rfl⟩
      rintro rfl
      exact hne rfl
  · rintro ⟨x, hx, b, hb, rfl⟩
    by_cases he : x.id = h.id
    · obtain rfl := eq_of_id hd hmem hx he
      exact ⟨_, (mem_fork hd hk).2 (.inr ⟨0, first, rfl, rfl⟩), b, .tail _ hb, rfl⟩
    · exact ⟨x, (mem_fork hd hk).2 (.inl ⟨hx, he⟩), b, hb, rfl⟩

/-- The heads that a fork makes come after those that were there. -/
theorem increasing_fork (hk : i.heads[k]? = some h)
    (hfresh : ∀ x ∈ i.heads, x.id.number < i.nextHead)
    (hi : (i.heads.map Head.id).Pairwise fun a b => a.number < b.number) (first : Nat)
    (others : List Nat) :
    ((i.fork k h first others).1.heads.map Head.id).Pairwise fun a b => a.number < b.number := by
  have hids : (i.heads.set k (h.goDown h.id ⟨i.nextGroup, others.length + 1, 0⟩ first)).map
      Head.id = i.heads.map Head.id := ids_setHead hk rfl
  simp only [Instance.fork, List.map_append, hids, List.map_map]
  refine List.pairwise_append.2 ⟨hi, ?_, ?_⟩
  · rw [List.pairwise_map]
    have hplaces : (others.zipIdx.map Prod.snd).Pairwise (· < ·) := by
      rw [List.zipIdx_map_snd]
      exact List.pairwise_lt_range'
    refine (List.pairwise_map.1 hplaces).imp fun {s t} hlt => ?_
    simp only [Function.comp, Head.goDown]
    omega
  · intro a ha a' ha'
    obtain ⟨x, hx, rfl⟩ := List.mem_map.1 ha
    obtain ⟨s, -, rfl⟩ := List.mem_map.1 ha'
    have := hfresh x hx
    simp only [Function.comp, Head.goDown]
    omega

/-- The heads that a fork makes have the joins before them that its branches lead to. -/
theorem Told.tracks_fork (hp : program.Pairs Safe J) (ht : i.Told program Safe J c)
    (hk : i.heads[k]? = some h) {first : Nat} {others : List Nat}
    (hfetch : program.fetch h.position = .fork (first :: others))
    (hx : x ∈ (i.fork k h first others).1.heads) :
    Tracks ((c.fork h).ahead program J) (J x.position) x.branches := by
  have hmem := List.mem_of_getElem? hk
  obtain ⟨L, hL⟩ := ht.tracked
  have hself : (c.fork h).forks[i.nextGroup]? = some h := by
    rw [← ht.counted]
    exact Chronicle.getElem?_fork_self
  have hcongr {x : Head} (hx : x ∈ i.heads) : ∀ b ∈ x.branches,
      c.ahead program J b.group = (c.fork h).ahead program J b.group := by
    intro b hb
    rw [Chronicle.ahead_fork (by rw [ht.counted]; exact ht.lt_nextGroup hx hb)]
  rcases (mem_fork ht.distinct hk).1 hx with ⟨hx, -⟩ | ⟨j, start, hj, rfl⟩
  · exact (ht.ahead x hx).congr (hcongr hx)
  · obtain ⟨-, js, hjs, hstarts⟩ := hp.fork _ _ (hL h hmem).1 hfetch
    simp only [Head.goDown]
    rw [(hstarts start (List.mem_of_getElem? hj)).2]
    refine ⟨?_, by rw [hjs]; exact (ht.ahead h hmem).congr (hcongr hmem)⟩
    rw [Chronicle.ahead_of_made hself hfetch, (hstarts first (.head _)).2]

theorem Told.fork (hp : program.Pairs Safe J) (ht : i.Told program Safe J c)
    (hk : i.heads[k]? = some h) (hr : h.state = .ready) {first : Nat} {others : List Nat}
    (hfetch : program.fetch h.position = .fork (first :: others)) :
    (i.fork k h first others).1.Told program Safe J (c.fork h) := by
  have hmem := List.mem_of_getElem? hk
  obtain ⟨origin, hf⟩ := ht.forest
  obtain ⟨L, hL⟩ := ht.tracked
  have hself : (c.fork h).forks[i.nextGroup]? = some h := by
    rw [← ht.counted]
    exact Chronicle.getElem?_fork_self
  refine ⟨ht.toLaid.fork hp hk hr hfetch, ?counted, ?fits, ?origins,
    fun x hx => ht.tracks_fork hp hk hfetch hx,
    increasing_fork hk (fun x hx => hf.fresh _ _ ⟨x, hx, rfl, rfl⟩) ht.increasing first others,
    ?joined⟩
  case counted => simp only [Chronicle.fork, Instance.fork, List.length_append, ht.counted,
    List.length_singleton]
  case fits =>
    intro x hx
    rcases (mem_fork ht.distinct hk).1 hx with ⟨hx, -⟩ | ⟨j, start, hj, rfl⟩
    · exact (ht.fits x hx).fork h
    · refine ⟨h, ⟨hself, _, hfetch, rfl⟩, rfl, ?_⟩
      rintro (rfl : j = 0)
      rfl
  case origins =>
    intro o ho
    rcases List.mem_append.1 ho with ho | ho
    · exact ⟨(ht.origins o ho).1, (ht.origins o ho).2.fork h⟩
    · obtain rfl := List.mem_singleton.1 ho
      exact ⟨(hL o hmem).1, (ht.fits o hmem).fork o⟩
  case joined =>
    intro g
    have hnew : (i.fork k h first others).1.Open i.nextGroup :=
      ⟨_, (mem_fork ht.distinct hk).2 (.inr ⟨0, first, rfl, rfl⟩), _, .head _, rfl⟩
    show g ∈ c.joins ↔ g < i.nextGroup + 1 ∧ _
    rw [ht.joined]
    by_cases hg : g = i.nextGroup
    · subst hg
      exact ⟨fun h => absurd h.1 (Nat.lt_irrefl _), fun h => absurd hnew h.2⟩
    · rw [open_fork ht.distinct hk hg]
      constructor
      · exact fun h => ⟨by omega, h.2⟩
      · exact fun h => ⟨by omega, h.2⟩

/-! ## Joins -/

/-- When all branches of a fork have arrived, the heads that wait there are listed by branch. -/
theorem Laid.joinOrders (hl : i.Laid program Safe J) (hx : x ∈ i.heads) (hb : x.branches = b :: bs)
    (hle : b.size ≤ (i.arrived b.group).length) :
    ((i.arrived b.group).map fun s => s.1.joinOrder) = List.range' 1 b.size := by
  have hsorted : ((i.arrived b.group).map fun s => s.1.joinOrder).Pairwise (· ≤ ·) := by
    rw [List.pairwise_map]
    refine (List.pairwise_mergeSort (fun a b c hab hbc => ?_) (fun a b => ?_) _).imp ?_
    · simp only [decide_eq_true_eq] at hab hbc ⊢
      exact Nat.le_trans hab hbc
    · simpa using Nat.le_total a.1.joinOrder b.1.joinOrder
    · simp
  refine List.Perm.eq_of_pairwise (fun a b _ _ hab hba => Nat.le_antisymm hab hba) hsorted
    (List.Pairwise.imp Nat.le_of_lt List.pairwise_lt_range') ?_
  refine (List.perm_ext_iff_of_nodup (hl.nodup_joinOrder _) List.nodup_range').2 fun o => ?_
  rw [List.mem_range'_1]
  constructor
  · intro ho
    obtain ⟨s, hs, rfl⟩ := List.mem_map.1 ho
    obtain ⟨hplace, hj⟩ := mem_arrived.1 hs
    have hs := List.mem_of_getElem? hplace
    obtain ⟨-, d, ds, hd, hg⟩ := hl.waits hs (state_of_joining hj)
    have := hl.index_lt hx hb hs (by rw [hd]; exact .head _) hg
    simp only [Head.joinOrder, hd]
    omega
  · rintro ⟨hpos, hlt⟩
    obtain ⟨j, rfl⟩ : ∃ j, o = j + 1 := ⟨o - 1, by omega⟩
    exact hl.hasArrived_iff.1 (hl.all_arrived hx hb hle j (by omega))

/-- The head that goes on behind a join is that of the first branch. -/
theorem Laid.index_first (hl : i.Laid program Safe J) {place : Nat} {first : Head}
    {others : List (Head × Nat)} (ha : i.arrived b.group = (first, place) :: others)
    (hb : first.branches = b :: bs) (hle : b.size ≤ others.length + 1) : b.index = 0 := by
  have hfirst := (first_of_arrived ha).1
  have horders := hl.joinOrders hfirst hb (by rw [ha]; exact hle)
  obtain ⟨origin, hf⟩ := hl.forest
  have hindex := (hf.grown _ _ ⟨first, hfirst, rfl, hb⟩).2.1
  obtain ⟨n, hn⟩ : ∃ n, b.size = n + 1 := ⟨b.size - 1, by omega⟩
  rw [ha, hn, List.map_cons, List.range'_succ, List.cons.injEq, Head.joinOrder, hb] at horders
  simpa using horders.1

/-- A join closes no other fork than its own, and opens none. -/
theorem open_merge_iff (hl : i.Laid program Safe J) {place g' : Nat} {first : Head}
    {others : List (Head × Nat)} (ha : i.arrived g' = (first, place) :: others) (hne : g ≠ g') :
    (i.merge g' first place others).Open g ↔ i.Open g := by
  refine ⟨?_, Machine.open_merge hl ha hne⟩
  rintro ⟨x, hx, d, hd, hg⟩
  rcases (mem_merge hl.distinct ha).1 hx with rfl | ⟨hx, -⟩
  · exact ⟨first, (first_of_arrived ha).1, d, List.mem_of_mem_tail hd, hg⟩
  · exact ⟨x, hx, d, hd, hg⟩

theorem Told.merge (hp : program.Pairs Safe J) (ht : i.Told program Safe J c) {place : Nat}
    {first : Head} {others : List (Head × Nat)} (ha : i.arrived g = (first, place) :: others)
    (hb : first.branches = b :: bs) (hle : b.size ≤ others.length + 1) :
    (i.merge g first place others).Told program Safe J (c.join g) := by
  obtain ⟨hfirst, hj⟩ := first_of_arrived ha
  obtain ⟨hfetch, d, ds, hd, hg⟩ := ht.waits hfirst hj
  rw [hb] at hd
  cases hd
  subst hg
  have hall := ht.all_arrived hfirst hb (by rw [ha]; exact hle)
  refine ⟨ht.toLaid.merge hp ha hb hle, ht.counted, ?fits, ht.origins, ?ahead, ?increasing, ?joined⟩
  case fits =>
    intro x hx
    rcases (mem_merge ht.distinct ha).1 hx with rfl | ⟨hx, -⟩
    · have hfit := ht.fits first hfirst
      rw [hb] at hfit
      obtain ⟨o, ho, hbs, hid⟩ := hfit
      have horigin := (ht.origins o (List.mem_of_getElem? ho.1)).2
      simp only [survivor, hb, List.tail_cons]
      rwa [hid (ht.index_first ha hb hle), hbs] at horigin
    · exact ht.fits x hx
  case ahead =>
    intro x hx
    rcases (mem_merge ht.distinct ha).1 hx with rfl | ⟨hx, -⟩
    · obtain ⟨L, hL⟩ := ht.tracked
      have htracks := ht.ahead first hfirst
      rw [hb, (hp.join _ (hL first hfirst).1 hfetch).2] at htracks
      simp only [survivor, hb, List.tail_cons]
      exact htracks.2
    · exact ht.ahead x hx
  case increasing =>
    have hat := (mem_arrived.1
      (show (first, place) ∈ i.arrived b.group by rw [ha]; exact .head _)).1
    have hids := @ids_setHead i first
      (survivor ((Dict.get? i.bases b.group).getD []) first (first :: others.map Prod.fst)) place
      hat rfl
    have hset := ht.increasing
    rw [← hids] at hset
    exact hset.sublist (List.filter_sublist.map Head.id)
  case joined =>
    intro g
    show g ∈ c.joins ++ [b.group] ↔ g < i.nextGroup ∧ _
    rw [List.mem_append, List.mem_singleton, ht.joined]
    have hlt := ht.lt_nextGroup hfirst (by rw [hb]; exact .head _)
    have hclosed := Machine.not_open_merge ht.toLaid hfirst hb hall ha
    by_cases hg : g = b.group
    · subst hg
      exact ⟨fun _ => ⟨hlt, hclosed⟩, fun _ => .inr rfl⟩
    · rw [open_merge_iff ht.toLaid ha hg, or_iff_left hg]

/-! ## Runs -/

/-- A head that comes to a join waits there, or waits in vain. -/
theorem Told.atJoin (hp : program.Pairs Safe J) (ht : i.Told program Safe J c)
    (hk : i.heads[k]? = some h) (hfetch : program.fetch h.position = .join)
    (hb : h.branches = b :: bs) :
    (i.atJoin k h b.group).Told program Safe J (c.arrive b.group h) := by
  have hset : (i.setHead k (waiter h b.group)).Told program Safe J (c.arrive b.group h) :=
    (ht.arrive _ _).setHead hp hk rfl rfl (.inl rfl) ⟨hfetch, b, bs, hb, rfl⟩
  exact hset.stops (stops_settle _)

theorem Told.step {m m' : Machine} (hp : program.Pairs Safe J) (hm : m.Sound program Safe J)
    (ht : m.inst.Told program Safe J c) (hs : m.step? program = some m') :
    m'.inst.Told program Safe J (c.after program m) := by
  have htells := tells_of_step hp hm hs c
  generalize c.after program m = c' at htells ⊢
  cases htells with
  | idle inst =>
    rw [inst]
    exact ht
  | go h h' k runs on made inst =>
    rw [inst]
    exact ht.setHead hp runs.getElem? on.id on.branches on.position on.stands
  | abort h k reason runs inst =>
    have hset : (m.inst.setHead k { h with state := .aborted reason }).Told program Safe J c :=
      ht.setHead hp runs.getElem? rfl rfl (.inl rfl) trivial
    rw [inst]
    exact hset.stops (stops_abortHead ..)
  | fork h k first others runs fetch inst =>
    rw [inst]
    exact ht.fork hp runs.getElem? runs.ready fetch
  | wait h k b bs runs fetch branches inst =>
    rw [inst]
    exact ht.atJoin hp runs.getElem? fetch branches
  | merge h k b bs runs fetch branches first place others waits arrived all inst queue =>
    have hjoin := ht.atJoin hp runs.getElem? fetch branches
    obtain ⟨hfirst, hfj⟩ := first_of_arrived arrived
    obtain ⟨-, d, ds, hd, hg⟩ := hjoin.waits hfirst hfj
    have hsize := (hjoin.eq_of_group waits hfirst branches hd hg).1
    rw [inst]
    exact hjoin.merge hp arrived hd (by omega)

theorem told_spawn (hp : program.Pairs Safe J) (id : InstanceId) (flow : FlowId) (priority : Int)
    (createdAt : Nat) (parent : Option InstanceId) (bindings : Bindings) (specificity : Nat) :
    (spawn id flow priority createdAt parent bindings specificity).Told program Safe J
      (.opening (Dict.ofList bindings)) := by
  have hsound := Machine.sound_starting hp id flow priority createdAt parent bindings specificity
    ⟨[], .seeded 0⟩
  have honly {x : Head}
      (hx : x ∈ (spawn id flow priority createdAt parent bindings specificity).heads) :
      x = ⟨⟨0⟩, 0, .ready, Dict.ofList bindings, [], specificity⟩ := List.mem_singleton.1 hx
  refine ⟨hsound.inst.toLaid, rfl, ?_, List.forall_mem_nil _, ?_, List.pairwise_singleton .., ?_⟩
  · intro x hx
    rw [honly hx]
    trivial
  · intro x hx
    rw [honly hx]
    exact hp.start.2
  · intro g
    exact ⟨nofun, fun h => absurd h.1 (Nat.not_lt_zero g)⟩

theorem Told.advance {m : Machine} {w : World} {id : HeadId} {e : Event}
    (hp : program.Pairs Safe J) (ht : i.Told program Safe J c)
    (ha : Machine.advancing? i w id e = some m) : m.inst.Told program Safe J c := by
  obtain ⟨-, h, k, x, hslot, hx, rfl⟩ := advancing?_eq_some.1 ha
  have hk := Machine.getElem?_of_slot? hslot
  have hgo := Machine.goesOn_resume (ht.stands h (List.mem_of_getElem? hk)) hx w
  exact ht.setHead hp hk hgo.id hgo.branches hgo.position hgo.stands

theorem Told.abort (ht : i.Told program Safe J c) (reason : String) :
    (i.abort reason).Told program Safe J c := by
  rw [abort_eq]
  split
  · exact ht
  · exact (ht.stops (stops_stopAll i reason)).stops (stops_refresh _)

end Told

end Instance

section Recorded

variable {program : Program} {Safe : Nat → Prop} {J : Nat → List Nat}

mutual

theorem Machine.Recorded.told (hp : program.Pairs Safe J) {c : Chronicle} {m : Machine} :
    m.Recorded program c → m.Sound program Safe J ∧ m.inst.Told program Safe J c
  | .start .. => ⟨Machine.sound_starting hp .., Instance.told_spawn hp ..⟩
  | .advance w id e before set => by
    obtain ⟨hrests, ht⟩ := before.told hp
    exact ⟨Machine.sound_advancing hp hrests.sound hrests.idle set, ht.advance hp set⟩
  | .step before step => by
    obtain ⟨hm, ht⟩ := before.told hp
    exact ⟨hm.step hp step, ht.step hp hm step⟩

theorem Instance.Recorded.told (hp : program.Pairs Safe J) {c : Chronicle} {i : Instance} :
    i.Recorded program c → i.Rests program Safe J ∧ i.Told program Safe J c
  | .rest before stopped => by
    obtain ⟨hm, ht⟩ := before.told hp
    exact ⟨hm.inst.rests (hm.idle (Machine.queue_of_stopped stopped)),
      ht.stops (Instance.stops_refresh _)⟩
  | .abort reason before => by
    obtain ⟨hrests, ht⟩ := before.told hp
    exact ⟨hrests.abort reason, ht.abort reason⟩

end

end Recorded

/-! ## Joins and their forks -/

/-- The heads of an instance are on branches, and at joins, of the forks of its chronicle. -/
structure Instance.Paired (program : Program) (closings : List (Nat × Nat)) (c : Chronicle)
    (i : Instance) : Prop where
  /-- A head that waits for a fork is on a branch of it, and at the join that closes it. -/
  waits : ∀ x ∈ i.heads, ∀ g, x.state = .atJoin g → program.fetch x.position = .join ∧
    ∃ b bs o, x.branches = b :: bs ∧ b.group = g ∧ c.forks[g]? = some o ∧
      (o.position, x.position) ∈ closings
  /-- All heads that wait for one fork wait at the same place. -/
  together : ∀ x ∈ i.heads, ∀ y ∈ i.heads, ∀ g, x.state = .atJoin g → y.state = .atJoin g →
    x.position = y.position
  /-- A branch is one of those of a fork that was made, not joined yet, and made by a head on the
  branches around it. -/
  branches : ∀ x ∈ i.heads, ∀ inner b outer, x.branches = inner ++ b :: outer →
    b.group < i.nextGroup ∧ b.group ∉ c.joins ∧ b.index < b.size ∧
      ∃ o, c.Made program b.group b.size o ∧ o.branches = outer
  /-- Heads on branches of one fork agree on its size and on the branches around it. -/
  agree : ∀ x ∈ i.heads, ∀ y ∈ i.heads, ∀ inner b outer inner' b' outer',
    x.branches = inner ++ b :: outer → y.branches = inner' ++ b' :: outer' → b.group = b'.group →
      b.size = b'.size ∧ outer = outer'
  /-- One head at most is right on a branch. -/
  apart : ∀ x ∈ i.heads, ∀ y ∈ i.heads, ∀ b bs b' bs', x.branches = b :: bs →
    y.branches = b' :: bs' → b.group = b'.group → b.index = b'.index → x = y
  /-- Until a fork is joined there is a head on every branch of it. -/
  covered : ∀ g n o, c.Made program g n o → g ∉ c.joins → ∀ j < n,
    ∃ x ∈ i.heads, ∃ b ∈ x.branches, b.group = g ∧ b.size = n ∧ b.index = j
  /-- The heads are numbered in the order of the list. -/
  increasing : (i.heads.map (·.id.number)).Pairwise (· < ·)
  fresh : ∀ x ∈ i.heads, x.id.number < i.nextHead

section Paired

variable {program : Program} {Safe : Nat → Prop} {J : Nat → List Nat} {c : Chronicle}
  {i : Instance} {closings : List (Nat × Nat)}

theorem Chronicle.Made.unique {g n n' : Nat} {o o' : Head} (h : c.Made program g n o)
    (h' : c.Made program g n' o') : n = n' ∧ o = o' := by
  obtain ⟨ho, starts, hstarts, rfl⟩ := h
  obtain ⟨ho', starts', hstarts', rfl⟩ := h'
  rw [ho] at ho'
  cases ho'
  rw [hstarts] at hstarts'
  cases hstarts'
  exact ⟨rfl, rfl⟩

theorem Instance.Told.paired (hp : program.Pairs Safe J) (hc : program.Closes Safe J closings)
    (ht : i.Told program Safe J c) : i.Paired program closings c := by
  obtain ⟨origin, hf⟩ := ht.forest
  have hgrown {x : Head} (hx : x ∈ i.heads) {b : Branch} (hb : b ∈ x.branches) :
      b.group < i.nextGroup ∧ b.index < b.size := by
    have := (hf.grown _ _ ⟨x, hx, rfl, rfl⟩).of_mem hb
    exact ⟨this.1, this.2.1⟩
  constructor
  case waits =>
    intro x hx g hj
    obtain ⟨hfetch, d, ds, hd, hg⟩ := ht.waits hx hj
    obtain ⟨b, bs, o, hb, ho, hcl⟩ := ht.closes hp hc hx hfetch
    rw [hd] at hb
    cases hb
    exact ⟨hfetch, d, ds, o, hd, hg, hg ▸ ho, hcl⟩
  case together =>
    intro x hx y hy g
    exact ht.position_eq hp hx hy
  case branches =>
    intro x hx inner b outer hb
    have hmem : b ∈ x.branches := by simp [hb]
    refine ⟨(hgrown hx hmem).1, fun hj => ?_, (hgrown hx hmem).2, ht.made hx hb⟩
    exact ((ht.joined _).1 hj).2 ⟨x, hx, b, hmem, rfl⟩
  case agree =>
    intro x hx y hy inner b outer inner' b' outer' hb hb' hg
    obtain ⟨o, ho, houter⟩ := ht.made hx hb
    obtain ⟨o', ho', houter'⟩ := ht.made hy hb'
    rw [← hg] at ho'
    obtain ⟨hsize, rfl⟩ := ho.unique ho'
    exact ⟨hsize, houter.symm.trans houter'⟩
  case apart =>
    intro x hx y hy b bs b' bs' hb hb' hg hi
    have hid := hf.eq_of_top ⟨x, hx, rfl, hb⟩ ⟨y, hy, rfl, hb'⟩ (.head _) hg.symm hi.symm
    exact (eq_of_id ht.distinct hx hy hid).symm
  case covered =>
    intro g n o ho hjoin j hj
    have hopen : i.Open g := by
      by_contra hclosed
      exact hjoin ((ht.joined g).2 ⟨by rw [← ht.counted]; exact ho.lt, hclosed⟩)
    have hsize {x : Head} (hx : x ∈ i.heads) {b : Branch} (hb : b ∈ x.branches)
        (hg : b.group = g) : b.size = n := by
      obtain ⟨inner, outer, hb⟩ := List.append_of_mem hb
      obtain ⟨o', ho', -⟩ := ht.made hx hb
      exact (ho'.unique (hg ▸ ho)).1
    obtain ⟨x, hx, b, hb, hg⟩ := hopen
    obtain ⟨-, -, ⟨y, hy, rfl, rfl⟩, d, hd, hdg, hdi⟩ :=
      hf.covered _ _ ⟨x, hx, rfl, rfl⟩ b hb j (by rw [hsize hx hb hg]; exact hj)
    exact ⟨y, hy, d, hd, hdg.trans hg, hsize hy hd (hdg.trans hg), hdi⟩
  case increasing =>
    have := ht.increasing
    rw [List.pairwise_map] at this ⊢
    exact this
  case fresh =>
    intro x hx
    exact hf.fresh _ _ ⟨x, hx, rfl, rfl⟩

end Paired

/-- **A join joins its own fork.**  Every instance of a flow that may be loaded that calls lead to,
and every machine they pass through, has a chronicle, and its heads are paired by whatever chronicle
it has.  A head that executes a join is on a branch, and the fork of the innermost one was made at
the one fork element that this join closes. -/
theorem join_joins_own_fork {f : Flow} {l : LoadedFlow} (hl : f.load = .ok l) :
    (∀ i : Instance, i.Reached l.program → ∃ c, i.Recorded l.program c) ∧
    (∀ m : Machine, m.Passed l.program → ∃ c, m.Recorded l.program c) ∧
    (∀ (c : Chronicle) (i : Instance), i.Recorded l.program c →
      i.Paired l.program f.closings c) ∧
    ∀ (c : Chronicle) (m : Machine), m.Recorded l.program c →
      m.inst.Paired l.program f.closings c ∧
      ∀ h k, m.Runs h k → l.program.fetch h.position = .join →
        ∃ b bs o, h.branches = b :: bs ∧ c.forks[b.group]? = some o ∧
          ∀ p, (p, h.position) ∈ f.closings ↔ p = o.position := by
  obtain ⟨Safe, J, hp, hc⟩ := exists_pairs_closes hl
  have hforks := fun p => (valid_of_load hl p).branches
  refine ⟨fun i hi => hi.recorded hforks, fun m hm => hm.recorded hforks,
    fun c i hi => (hi.told hp).2.paired hp hc, fun c m hm => ?_⟩
  have ht := (hm.told hp).2
  refine ⟨ht.paired hp hc, fun h k hr hfetch => ?_⟩
  obtain ⟨b, bs, o, hb, ho, hcl⟩ := ht.closes hp hc hr.mem hfetch
  refine ⟨b, bs, o, hb, ho, fun p => ⟨fun hpc => closings_unique hpc hcl, ?_⟩⟩
  rintro rfl
  exact hcl

end

/-- A flow with a fork in a branch of a fork. -/
def nestedForks : Flow where
  id := ⟨"nested"⟩
  description := none
  priority := none
  activation := none
  body := [.fork [[.fork [[], []], .join], []], .join]

example : nestedForks.closings = [(1, 4), (0, 7)] := by decide

theorem join_joins_own_fork_nested :
    ∃ (l : LoadedFlow) (c : Chronicle) (m : Machine) (h : Head) (k : Nat),
      nestedForks.load = .ok l ∧ m.Recorded l.program c ∧ m.Runs h k ∧
      l.program.fetch h.position = .join ∧ h.branches.length = 2 ∧
      ∃ b bs o, h.branches = b :: bs ∧ c.forks[b.group]? = some o ∧
        ∀ p, (p, h.position) ∈ nestedForks.closings ↔ p = o.position := by
  have hl : nestedForks.load = .ok ⟨nestedForks, .ofBody nestedForks.body⟩ := rfl
  -- both forks are made, and the first head jumps to the inner join
  have hstart := @Machine.Recorded.start _ _ _ (.ofBody nestedForks.body) ⟨"i"⟩ nestedForks.id 0
    0 none [] 0 ⟨[], .seeded 0⟩
  have hjoin := ((hstart.step rfl).step rfl).step rfl
  refine ⟨_, _, _, ⟨⟨0⟩, 4, .ready, [], [⟨1, 2, 0⟩, ⟨0, 2, 0⟩], 0⟩, 0, hl, hjoin,
    ⟨⟨_, rfl⟩, rfl, rfl⟩, rfl, rfl, ?_⟩
  exact ((join_joins_own_fork hl).2.2.2 _ _ hjoin).2 _ _ ⟨⟨_, rfl⟩, rfl, rfl⟩ rfl

end EventFlow

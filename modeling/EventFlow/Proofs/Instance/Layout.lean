import EventFlow.Proofs.Instance.Settle
import EventFlow.Proofs.Instance.Turn
import Mathlib.Data.List.Perm.Subperm

/-!
# Where the heads of an instance are

The heads of an instance are laid out over its program and over the forest of its branches at once,
and the two fit together: the joins that a head still has before it are the joins of the forks it is
in.  `Instance.Laid` says so.  It does not say who waits for whom, and so it survives anything that
may happen to a head, aborts included.

## What is here

* `Tracks L js bs`: the joins `js` before a head are those of the forks of its branches `bs`, where
  `L` remembers for every fork which joins were before its branches when it was made.
* `Instance.Laid` is the invariant; `Laid.setHead`, `Laid.stops`, `Laid.fork` and `Laid.merge` keep
  it.
* **`Laid.all_arrived`** and **`Laid.exists_missing`**: counting the heads that wait for a fork
  tells whether all its branches have arrived.
-/

set_option autoImplicit false

namespace EventFlow

/-- The joins before a head are those of the forks it is in, innermost first; forks around those
are never joined. -/
def Tracks (L : Nat → List Nat) : List Nat → List Branch → Prop
  | js, [] => js = []
  | js, b :: bs => js = L b.group ∧ Tracks L js.tail bs

theorem Tracks.congr {L L' : Nat → List Nat} {js : List Nat} {bs : List Branch}
    (hL : ∀ b ∈ bs, L b.group = L' b.group) (h : Tracks L js bs) : Tracks L' js bs := by
  induction bs generalizing js with
  | nil => exact h
  | cons b bs ih =>
    obtain ⟨hb, hbs⟩ := List.forall_mem_cons.1 hL
    exact ⟨hb ▸ h.1, ih hbs h.2⟩

namespace Instance

/-- The heads of an instance fit its program and the forest of its branches. -/
structure Laid (program : Program) (Safe : Nat → Prop) (J : Nat → List Nat) (i : Instance) :
    Prop where
  /-- No two heads have the same identity. -/
  distinct : (i.heads.map Head.id).Nodup
  /-- The branches of the heads form a forest. -/
  forest : ∃ origin, Forest origin i.nextHead i.nextGroup i.On
  /-- Every head has the joins of its forks before it. -/
  tracked : ∃ L, ∀ h ∈ i.heads, Safe h.position ∧ Tracks L (J h.position) h.branches
  /-- The state of every head fits its position. -/
  stands : ∀ h ∈ i.heads, h.Stands program

section Laid

variable {program : Program} {Safe : Nat → Prop} {J : Nat → List Nat} {i : Instance}
  {h h' x : Head} {k g : Nat} {b : Branch} {bs : List Branch}

/-- A head that moves on within its branch stays in the layout. -/
theorem Laid.setHead (hp : program.Pairs Safe J) (hl : i.Laid program Safe J)
    (hk : i.heads[k]? = some h) (hid : h'.id = h.id) (hbs : h'.branches = h.branches)
    (hpos : h'.position = h.position ∨ h'.position ∈ program.exits h.position)
    (hst : h'.Stands program) : (i.setHead k h').Laid program Safe J := by
  have hmem := List.mem_of_getElem? hk
  constructor
  case distinct =>
    rw [ids_setHead hk hid]
    exact hl.distinct
  case forest =>
    obtain ⟨origin, hf⟩ := hl.forest
    exact ⟨origin, hf.congr (on_setHead hl.distinct hk hid hbs)⟩
  case tracked =>
    obtain ⟨L, hL⟩ := hl.tracked
    refine ⟨L, fun x hx => ?_⟩
    rcases (mem_setHead hl.distinct hk).1 hx with rfl | ⟨hx, -⟩
    · obtain ⟨hsafe, htracks⟩ := hL h hmem
      rw [hbs]
      rcases hpos with hpos | hpos
      · rw [hpos]
        exact ⟨hsafe, htracks⟩
      · obtain ⟨hsafe', hJ⟩ := hp.exits _ hsafe _ hpos
        rw [hJ]
        exact ⟨hsafe', htracks⟩
    · exact hL x hx
  case stands =>
    intro x hx
    rcases (mem_setHead hl.distinct hk).1 hx with rfl | ⟨hx, -⟩
    · exact hst
    · exact hl.stands x hx

/-- An abort leaves everything in its place. -/
theorem Laid.stops {i' : Instance} (hl : i.Laid program Safe J) (hs : i.Stops i') :
    i'.Laid program Safe J := by
  constructor
  case distinct =>
    rw [hs.ids]
    exact hl.distinct
  case forest =>
    obtain ⟨origin, hf⟩ := hl.forest
    rw [hs.nextHead, hs.nextGroup]
    exact ⟨origin, hf.congr hs.on⟩
  case tracked =>
    obtain ⟨L, hL⟩ := hl.tracked
    refine ⟨L, fun x hx => ?_⟩
    rcases hs.mem hx with hx | ⟨y, hy, reason, rfl⟩
    · exact hL x hx
    · exact hL y hy
  case stands =>
    intro x hx
    rcases hs.mem hx with hx | ⟨y, hy, reason, rfl⟩
    · exact hl.stands x hx
    · trivial

theorem Laid.lt_nextGroup (hl : i.Laid program Safe J) (hx : x ∈ i.heads) (hb : b ∈ x.branches) :
    b.group < i.nextGroup := by
  obtain ⟨origin, hf⟩ := hl.forest
  exact ((hf.grown _ _ ⟨x, hx, rfl, rfl⟩).of_mem hb).1

/-- A fork keeps the layout: all its branches lead to the join of the fork, if there is one. -/
theorem Laid.fork (hp : program.Pairs Safe J) (hl : i.Laid program Safe J)
    (hk : i.heads[k]? = some h) (hr : h.state = .ready) {first : Nat} {others : List Nat}
    (hfetch : program.fetch h.position = .fork (first :: others)) :
    (i.fork k h first others).1.Laid program Safe J := by
  have hmem := List.mem_of_getElem? hk
  obtain ⟨origin, hf⟩ := hl.forest
  obtain ⟨L, hL⟩ := hl.tracked
  obtain ⟨hsafe, htracks⟩ := hL h hmem
  obtain ⟨-, js, hjs, hstarts⟩ := hp.fork _ _ hsafe hfetch
  constructor
  case distinct =>
    exact nodup_fork hl.distinct hk (fun x hx => hf.fresh _ _ ⟨x, hx, rfl, rfl⟩) first others
  case forest =>
    have hon : i.On h.id h.branches := ⟨h, hmem, rfl, rfl⟩
    refine ⟨_, hf.fork hon (n := others.length) fun id' bs' => ?_⟩
    constructor
    · rintro ⟨x, hx, rfl, rfl⟩
      rcases (mem_fork hl.distinct hk).1 hx with ⟨hx, hne⟩ | ⟨j, start, hj, rfl⟩
      · exact .inl ⟨⟨x, hx, rfl, rfl⟩, hne⟩
      · have hlt := (List.getElem?_eq_some_iff.1 hj).1
        rw [List.length_cons] at hlt
        exact .inr ⟨j, by omega, rfl, rfl⟩
    · rintro (⟨⟨x, hx, rfl, rfl⟩, hne⟩ | ⟨j, hj, rfl, rfl⟩)
      · exact ⟨x, (mem_fork hl.distinct hk).2 (.inl ⟨hx, hne⟩), rfl, rfl⟩
      · have hlt : j < (first :: others).length := by rw [List.length_cons]; omega
        exact ⟨_, (mem_fork hl.distinct hk).2
          (.inr ⟨j, _, List.getElem?_eq_getElem hlt, rfl⟩), rfl, rfl⟩
  case tracked =>
    have hcongr {x : Head} (hx : x ∈ i.heads) :
        ∀ b ∈ x.branches, L b.group = Function.update L i.nextGroup js b.group := by
      intro b hb
      have := hl.lt_nextGroup hx hb
      rw [Function.update_of_ne (by omega)]
    refine ⟨Function.update L i.nextGroup js, fun x hx => ?_⟩
    rcases (mem_fork hl.distinct hk).1 hx with ⟨hx, -⟩ | ⟨j, start, hj, rfl⟩
    · exact ⟨(hL x hx).1, (hL x hx).2.congr (hcongr hx)⟩
    · obtain ⟨hsafe', hJ⟩ := hstarts start (List.mem_of_getElem? hj)
      refine ⟨hsafe', ?_⟩
      simp only [Head.goDown]
      rw [hJ]
      refine ⟨by rw [Function.update_self], ?_⟩
      rw [hjs]
      exact htracks.congr (hcongr hmem)
  case stands =>
    intro x hx
    rcases (mem_fork hl.distinct hk).1 hx with ⟨hx, -⟩ | ⟨j, start, -, rfl⟩
    · exact hl.stands x hx
    · simp only [Head.Stands, Head.goDown, hr]

/-! ## Who waits at a join -/

/-- A head that waits is at a join, on a branch of the fork it waits for. -/
theorem Laid.waits (hl : i.Laid program Safe J) (hx : x ∈ i.heads) (hj : x.state = .atJoin g) :
    program.fetch x.position = .join ∧ ∃ b bs, x.branches = b :: bs ∧ b.group = g := by
  have hst := hl.stands x hx
  rw [Head.Stands, hj] at hst
  exact hst

/-- Two heads right on branches of one fork are on branches of equal number and surroundings. -/
theorem Laid.eq_of_group (hl : i.Laid program Safe J) (hh : h ∈ i.heads) (hx : x ∈ i.heads)
    (hb : h.branches = b :: bs) {c : Branch} {cs : List Branch} (hc : x.branches = c :: cs)
    (hg : c.group = b.group) : c.size = b.size ∧ cs = bs := by
  obtain ⟨origin, hf⟩ := hl.forest
  obtain ⟨-, -, hob, -⟩ := hf.grown _ _ ⟨h, hh, rfl, hb⟩
  obtain ⟨-, -, hoc, -⟩ := hf.grown _ _ ⟨x, hx, rfl, hc⟩
  rw [hg, hob] at hoc
  exact ⟨(congrArg Origin.size hoc).symm, (congrArg Origin.outer hoc).symm⟩

theorem Laid.hasArrived_iff (hl : i.Laid program Safe J) {j : Nat} :
    i.HasArrived g j ↔ j + 1 ∈ (i.arrived g).map fun s => s.1.joinOrder := by
  rw [List.mem_map]
  constructor
  · rintro ⟨x, hx, hj, b, bs, hb, rfl⟩
    obtain ⟨place, hplace⟩ := List.mem_iff_getElem?.1 hx
    exact ⟨(x, place), mem_arrived.2 ⟨hplace, by rw [hj]; rfl⟩, by simp only [Head.joinOrder, hb]⟩
  · rintro ⟨s, hs, ho⟩
    obtain ⟨hplace, hj⟩ := mem_arrived.1 hs
    have hx := List.mem_of_getElem? hplace
    have hj := state_of_joining hj
    obtain ⟨-, b, bs, hb, -⟩ := hl.waits hx hj
    simp only [Head.joinOrder, hb] at ho
    exact ⟨s.1, hx, hj, b, bs, hb, by omega⟩

/-- The heads that wait for a fork are on different branches of it. -/
theorem Laid.nodup_joinOrder (hl : i.Laid program Safe J) (g : Nat) :
    ((i.arrived g).map fun s => s.1.joinOrder).Nodup := by
  obtain ⟨origin, hf⟩ := hl.forest
  have hids := List.pairwise_map.1 (nodup_arrived hl.distinct g)
  refine List.pairwise_map.2 (hids.imp_of_mem fun {s t} hs ht hne ho => hne ?_)
  obtain ⟨hs, hjs⟩ := mem_arrived.1 hs
  obtain ⟨ht, hjt⟩ := mem_arrived.1 ht
  have hs := List.mem_of_getElem? hs
  have ht := List.mem_of_getElem? ht
  obtain ⟨-, b, bs, hb, hgb⟩ := hl.waits hs (state_of_joining hjs)
  obtain ⟨-, c, cs, hc, hgc⟩ := hl.waits ht (state_of_joining hjt)
  simp only [Head.joinOrder, hb, hc] at ho
  exact hf.eq_of_top ⟨t.1, ht, rfl, hc⟩ ⟨s.1, hs, rfl, hb⟩ List.mem_cons_self
    (hgb.trans hgc.symm) (by omega)

/-- **When fewer heads wait for a fork than it has branches, one of these has not arrived.** -/
theorem Laid.exists_missing (hl : i.Laid program Safe J) {n : Nat}
    (hlt : (i.arrived g).length < n) : ∃ j < n, ¬i.HasArrived g j := by
  by_contra hall
  simp only [not_exists, not_and, not_not] at hall
  have hsub : (List.range' 1 n) ⊆ (i.arrived g).map fun s => s.1.joinOrder := by
    intro o ho
    rw [List.mem_range'_1] at ho
    obtain ⟨j, rfl⟩ : ∃ j, o = j + 1 := ⟨o - 1, by omega⟩
    exact hl.hasArrived_iff.1 (hall j (by omega))
  have hle := (List.Nodup.subperm List.nodup_range' hsub).length_le
  rw [List.length_range', List.length_map] at hle
  omega

/-- **When as many heads wait for a fork as it has branches, all of these have arrived.** -/
theorem Laid.all_arrived (hl : i.Laid program Safe J) (hx : x ∈ i.heads)
    (hb : x.branches = b :: bs) (hle : b.size ≤ (i.arrived b.group).length) :
    ∀ j < b.size, i.HasArrived b.group j := by
  obtain ⟨origin, hf⟩ := hl.forest
  have hsub : ((i.arrived b.group).map fun s => s.1.joinOrder) ⊆ List.range' 1 b.size := by
    intro o ho
    obtain ⟨s, hs, rfl⟩ := List.mem_map.1 ho
    obtain ⟨hplace, hj⟩ := mem_arrived.1 hs
    have hs := List.mem_of_getElem? hplace
    obtain ⟨-, c, cs, hc, hgc⟩ := hl.waits hs (state_of_joining hj)
    have hsize := (hl.eq_of_group hx hs hb hc hgc).1
    have hindex := (hf.grown _ _ ⟨s.1, hs, rfl, hc⟩).2.1
    rw [List.mem_range'_1]
    simp only [Head.joinOrder, hc]
    omega
  have hperm := (List.Nodup.subperm (hl.nodup_joinOrder b.group) hsub).perm_of_length_le
    (by rw [List.length_range', List.length_map]; exact hle)
  intro j hj
  rw [hl.hasArrived_iff, hperm.mem_iff, List.mem_range'_1]
  omega

/-- All branches of a fork are of the same size. -/
theorem Laid.index_lt (hl : i.Laid program Safe J) (hh : h ∈ i.heads) (hb : h.branches = b :: bs)
    (hx : x ∈ i.heads) {c : Branch} (hc : c ∈ x.branches) (hg : c.group = b.group) :
    c.index < b.size := by
  obtain ⟨origin, hf⟩ := hl.forest
  obtain ⟨-, -, hsize, -⟩ := hf.grown _ _ ⟨h, hh, rfl, hb⟩
  obtain ⟨-, hindex, hsize', -⟩ := (hf.grown _ _ ⟨x, hx, rfl, rfl⟩).of_mem hc
  rw [hg, hsize] at hsize'
  rwa [show b.size = c.size from hsize']

/-- Whoever is on a branch that has arrived is the head that waits at the join. -/
theorem Laid.state_of_arrived (hl : i.Laid program Safe J) (hx : x ∈ i.heads) {c : Branch}
    (hc : c ∈ x.branches) (ha : i.HasArrived c.group c.index) : x.state = .atJoin c.group := by
  obtain ⟨origin, hf⟩ := hl.forest
  obtain ⟨y, hy, hyj, d, ds, hd, hi⟩ := ha
  obtain ⟨-, d', ds', hd', hgd⟩ := hl.waits hy hyj
  rw [hd] at hd'
  cases hd'
  have hid := hf.eq_of_top ⟨y, hy, rfl, hd⟩ ⟨x, hx, rfl, rfl⟩ hc hgd.symm hi.symm
  rw [eq_of_id hl.distinct hy hx hid]
  exact hyj

/-- When all branches of a fork have arrived, whoever is in the fork waits there. -/
theorem Laid.state_of_all_arrived (hl : i.Laid program Safe J) (hh : h ∈ i.heads)
    (hb : h.branches = b :: bs) (hall : ∀ j < b.size, i.HasArrived b.group j) (hx : x ∈ i.heads)
    {c : Branch} (hc : c ∈ x.branches) (hg : c.group = b.group) : x.state = .atJoin b.group := by
  have ha := hall c.index (hl.index_lt hh hb hx hc hg)
  rw [← hg] at ha ⊢
  exact hl.state_of_arrived hx hc ha

/-- A join whose branches have all arrived keeps the layout: one head goes on around the fork, with
the joins of the forks around before it. -/
theorem Laid.merge (hp : program.Pairs Safe J) (hl : i.Laid program Safe J) {place : Nat}
    {first : Head} {others : List (Head × Nat)} (ha : i.arrived g = (first, place) :: others)
    (hb : first.branches = b :: bs) (hle : b.size ≤ others.length + 1) :
    (i.merge g first place others).Laid program Safe J := by
  obtain ⟨hfirst, hj⟩ := first_of_arrived ha
  obtain ⟨hjoin, c, cs, hc, hg⟩ := hl.waits hfirst hj
  rw [hb] at hc
  cases hc
  subst hg
  have hall := hl.all_arrived hfirst hb (by rw [ha]; exact hle)
  constructor
  case distinct => exact nodup_merge hl.distinct ha
  case forest =>
    obtain ⟨origin, hf⟩ := hl.forest
    have htops : ∀ j < b.size, ∃ id' b' bs', i.On id' (b' :: bs') ∧
        b'.group = b.group ∧ b'.index = j := by
      intro j hj
      obtain ⟨x, hx, hxj, c, cs, hc, hi⟩ := hall j hj
      obtain ⟨-, c', cs', hc', hg⟩ := hl.waits hx hxj
      rw [hc] at hc'
      cases hc'
      exact ⟨x.id, c, cs, ⟨x, hx, rfl, hc⟩, hg, hi⟩
    have hon : i.On first.id (b :: bs) := ⟨first, hfirst, rfl, hb⟩
    refine ⟨origin, hf.merge hon htops fun id' bs' => ?_⟩
    constructor
    · rintro ⟨x, hx, rfl, rfl⟩
      rcases (mem_merge hl.distinct ha).1 hx with rfl | ⟨hx, hne⟩
      · exact .inl ⟨rfl, by simp only [survivor, hb, List.tail_cons]⟩
      · exact .inr ⟨⟨x, hx, rfl, rfl⟩, fun c hc hg =>
          hne (hl.state_of_all_arrived hfirst hb hall hx hc hg)⟩
    · rintro (⟨rfl, rfl⟩ | ⟨⟨x, hx, rfl, rfl⟩, hnone⟩)
      · exact ⟨_, (mem_merge hl.distinct ha).2 (.inl rfl), rfl, by
          simp only [survivor, hb, List.tail_cons]⟩
      · refine ⟨x, (mem_merge hl.distinct ha).2 (.inr ⟨hx, fun hxj => ?_⟩), rfl, rfl⟩
        obtain ⟨-, c, cs, hc, hg⟩ := hl.waits hx hxj
        exact hnone c (by rw [hc]; exact List.mem_cons_self) hg
  case tracked =>
    obtain ⟨L, hL⟩ := hl.tracked
    refine ⟨L, fun x hx => ?_⟩
    rcases (mem_merge hl.distinct ha).1 hx with rfl | ⟨hx, -⟩
    · obtain ⟨hsafe, htracks⟩ := hL first hfirst
      obtain ⟨hsafe', hJ⟩ := hp.join _ hsafe hjoin
      rw [hb, hJ] at htracks
      refine ⟨hsafe', ?_⟩
      simp only [survivor, hb, List.tail_cons]
      exact htracks.2
    · exact hL x hx
  case stands =>
    intro x hx
    rcases (mem_merge hl.distinct ha).1 hx with rfl | ⟨hx, -⟩
    · trivial
    · exact hl.stands x hx

end Laid

end Instance

end EventFlow

import EventFlow.Proofs.Instance.Layout

/-!
# Joins that are waited for in vain

A head waits at a join for a reason: some branch of its fork has not arrived (`Pending`), and no
head of its fork was aborted (`Unbroken`), since then it would wait in vain.  Together with the
layout this is what running keeps, and it rules out that the heads of an instance wait for each
other in a circle: the head that is missing at the innermost fork waits for something else.

## What is here

* `Instance.Sound` adds the two reasons to the layout; `Sound.goOn`, `Sound.abortHead`, `Sound.fork`
  and `Sound.arrive` are the cases of a step.
* `arrive_cases` says what becomes of an arrival: the head is aborted because its fork is broken, or
  waits for others, or all have arrived and are merged.
* **`Sound.exists_moving`**: a sound instance without ready heads that has not come to its end has a
  head that expects an event or waits for a result.
-/

set_option autoImplicit false

namespace EventFlow

namespace Instance

/-- Whoever waits for a fork waits for a branch that has not arrived. -/
def Pending (i : Instance) : Prop :=
  ∀ h ∈ i.heads, ∀ b bs, h.branches = b :: bs → h.state = .atJoin b.group →
    ∃ j < b.size, ¬i.HasArrived b.group j

/-- The heads of an instance are laid out, and those that wait at a join have a reason to. -/
structure Sound (program : Program) (Safe : Nat → Prop) (J : Nat → List Nat) (i : Instance) :
    Prop extends i.Laid program Safe J where
  unbroken : i.Unbroken
  pending : i.Pending

section Sound

variable {program : Program} {Safe : Nat → Prop} {J : Nat → List Nat} {i i' : Instance}
  {h h' x : Head} {k g : Nat} {b : Branch} {bs : List Branch}

/-! ## Changes in which nobody comes to wait -/

/-- Those who wait keep their reasons when nobody else comes to wait. -/
theorem Pending.of_subset (hi : i.Pending)
    (hsub : ∀ x ∈ i'.heads, ∀ g, x.state = .atJoin g → x ∈ i.heads) : i'.Pending := by
  intro x hx b bs hb hj
  obtain ⟨j, hlt, hnot⟩ := hi x (hsub x hx _ hj) b bs hb hj
  refine ⟨j, hlt, ?_⟩
  rintro ⟨y, hy, hyj, hd⟩
  exact hnot ⟨y, hsub y hy _ hyj, hyj, hd⟩

theorem state_ne_of_joining {s : HeadState} (hs : s.joining? = none) : s ≠ .atJoin g := by
  rintro rfl
  cases hs

/-- A head that is replaced by one that does not wait at a join. -/
theorem mem_of_setHead (hd : (i.heads.map Head.id).Nodup) (hk : i.heads[k]? = some h)
    (hj : h'.state.joining? = none) :
    ∀ x ∈ (i.setHead k h').heads, ∀ g, x.state = .atJoin g → x ∈ i.heads := by
  intro x hx g hg
  rcases (mem_setHead hd hk).1 hx with rfl | ⟨hx, -⟩
  · exact absurd hg (state_ne_of_joining hj)
  · exact hx

theorem Sound.goOn (hp : program.Pairs Safe J) (hs : i.Sound program Safe J)
    (hk : i.heads[k]? = some h) (hu : h.state.isAborted = false)
    (hgo : h.GoesOn program h') : (i.setHead k h').Sound program Safe J where
  toLaid := hs.toLaid.setHead hp hk hgo.id hgo.branches hgo.position hgo.stands
  unbroken := by
    intro x hx g hg
    rw [broken_setHead hs.distinct hk hu hgo.unaborted]
    exact hs.unbroken x (mem_of_setHead hs.distinct hk hgo.joining x hx g hg) g hg
  pending := hs.pending.of_subset (mem_of_setHead hs.distinct hk hgo.joining)

/-- Settling gives everybody who still waits a reason. -/
theorem Laid.sound_settle (hl : i.Laid program Safe J) (hi : i.Pending) :
    i.settle.Sound program Safe J where
  toLaid := hl.stops i.stops_settle
  unbroken := i.settle_unbroken
  pending := by
    refine hi.of_subset fun x hx g hg => ?_
    rcases mem_settle hx with hx | ⟨y, -, -, reason, rfl⟩
    · exact hx
    · cases hg

theorem Sound.abortHead (hp : program.Pairs Safe J) (hs : i.Sound program Safe J)
    (hk : i.heads[k]? = some h) (reason : String) :
    (i.abortHead k h reason).Sound program Safe J := by
  have hl : (i.setHead k { h with state := .aborted reason }).Laid program Safe J :=
    hs.toLaid.setHead hp hk rfl rfl (.inl rfl) trivial
  have hi : (i.setHead k { h with state := .aborted reason }).Pending :=
    hs.pending.of_subset (mem_of_setHead hs.distinct hk rfl)
  -- the observation and the reason of the instance say nothing about its heads
  exact Laid.sound_settle ⟨hl.distinct, hl.forest, hl.tracked, hl.stands⟩ hi

theorem Sound.fork (hp : program.Pairs Safe J) (hs : i.Sound program Safe J)
    (hk : i.heads[k]? = some h) (hr : h.state = .ready) {first : Nat} {others : List Nat}
    (hfetch : program.fetch h.position = .fork (first :: others)) :
    (i.fork k h first others).1.Sound program Safe J := by
  have hold : ∀ x ∈ (i.fork k h first others).1.heads, x.state ≠ .ready → x ∈ i.heads := by
    intro x hx hne
    rcases (mem_fork hs.distinct hk).1 hx with ⟨hx, -⟩ | ⟨j, start, -, rfl⟩
    · exact hx
    · exact absurd hr hne
  have hsub : ∀ x ∈ (i.fork k h first others).1.heads, ∀ g, x.state = .atJoin g → x ∈ i.heads := by
    intro x hx g hg
    exact hold x hx (by rw [hg]; nofun)
  refine ⟨hs.toLaid.fork hp hk hr hfetch, ?_, hs.pending.of_subset hsub⟩
  rintro x hx g hg ⟨y, hy, ha, hb⟩
  refine hs.unbroken x (hsub x hx g hg) g hg ⟨y, hold y hy ?_, ha, hb⟩
  intro hready
  rw [hready] at ha
  cases ha

/-! ## Arrivals -/

/-- The head as it waits for the other heads of a fork. -/
def waiter (h : Head) (g : Nat) : Head := { h with state := .atJoin g }

/-- An instance in which the head at a place has come to wait for the other heads of a fork, if it
does not do so in vain. -/
def atJoin (i : Instance) (k : Nat) (h : Head) (g : Nat) : Instance :=
  settle (i.setHead k (waiter h g))

theorem Laid.atJoin (hp : program.Pairs Safe J) (hl : i.Laid program Safe J)
    (hk : i.heads[k]? = some h) (hfetch : program.fetch h.position = .join)
    (hb : h.branches = b :: bs) : (i.atJoin k h b.group).Laid program Safe J := by
  have hset : (i.setHead k (waiter h b.group)).Laid program Safe J :=
    hl.setHead hp hk rfl rfl (.inl rfl) ⟨hfetch, b, bs, hb, rfl⟩
  exact hset.stops (stops_settle _)

/-- Who waits after an arrival did so before, or is the head that arrived. -/
theorem mem_of_atJoin (hd : (i.heads.map Head.id).Nodup) (hk : i.heads[k]? = some h)
    (hx : x ∈ (i.atJoin k h b.group).heads) (hj : x.state = .atJoin g) :
    x = waiter h b.group ∨ x ∈ i.heads := by
  rcases mem_settle hx with hx | ⟨y, -, -, reason, rfl⟩
  · exact ((mem_setHead hd hk).1 hx).imp (fun he => he) And.left
  · cases hj

/-- Whether the head that arrives is left waiting is read off its place. -/
theorem joining_atJoin_iff (hd : (i.heads.map Head.id).Nodup) (hk : i.heads[k]? = some h) :
    (i.atJoin k h g).heads[k]?.bind (·.state.joining?) = some g ↔
      waiter h g ∈ (i.atJoin k h g).heads := by
  have hlt := (List.getElem?_eq_some_iff.1 hk).1
  have hplace : (i.setHead k (waiter h g)).heads[k]? = some (waiter h g) := by
    simp only [setHead]
    exact List.getElem?_set_self hlt
  have hids : (i.atJoin k h g).heads.map Head.id = i.heads.map Head.id := by
    rw [Instance.atJoin, (stops_settle _).ids]
    exact ids_setHead hk rfl
  constructor
  · intro hj
    obtain ⟨x, hx, hxj⟩ := Option.bind_eq_some_iff.1 hj
    rw [getElem?_settle hplace hx hxj] at hx
    exact List.mem_of_getElem? hx
  · intro hw
    have hlt' : k < (i.atJoin k h g).heads.length := by
      have := congrArg List.length hids
      rw [List.length_map, List.length_map] at this
      omega
    have hk' := List.getElem?_eq_getElem hlt'
    have hid : ((i.atJoin k h g).heads[k]).id = h.id := by
      have := congrArg (·[k]?) hids
      simp only [List.getElem?_map, hk', hk, Option.map_some] at this
      exact Option.some.inj this
    rw [hk', eq_of_id (by rwa [hids]) hw (List.getElem_mem hlt') hid]
    rfl

/-- **What becomes of an arrival**: the head is aborted at once, it waits, or it is the last one and
the heads of the fork are merged. -/
theorem arrive_cases (hd : (i.heads.map Head.id).Nodup) (hk : i.heads[k]? = some h)
    (hb : h.branches = b :: bs) :
    (waiter h b.group ∉ (i.atJoin k h b.group).heads ∧
      i.arrive k h = (i.atJoin k h b.group, none)) ∨
    (waiter h b.group ∈ (i.atJoin k h b.group).heads ∧
      ((i.atJoin k h b.group).arrived b.group).length < b.size ∧
      i.arrive k h = (i.atJoin k h b.group, none)) ∨
    ∃ first place others, waiter h b.group ∈ (i.atJoin k h b.group).heads ∧
      (i.atJoin k h b.group).arrived b.group = (first, place) :: others ∧
      b.size ≤ others.length + 1 ∧
      i.arrive k h = ((i.atJoin k h b.group).merge b.group first place others, some first.id) := by
  generalize hr : i.arrive k h = r
  rw [arrive] at hr
  split at hr
  · next hnil =>
    rw [hb] at hnil
    cases hnil
  · next c cs hc =>
    rw [hb] at hc
    cases hc
    simp only at hr
    split at hr
    · next hj =>
      have hw := (joining_atJoin_iff hd hk).1 hj
      obtain ⟨place, hplace⟩ := List.mem_iff_getElem?.1 hw
      have hmem : (waiter h b.group, place) ∈ (i.atJoin k h b.group).arrived b.group :=
        mem_arrived.2 ⟨hplace, rfl⟩
      split at hr
      · next hnil =>
        rw [show (i.atJoin k h b.group).arrived b.group = [] from hnil] at hmem
        cases hmem
      · next first place others ha =>
        have ha : (i.atJoin k h b.group).arrived b.group = (first, place) :: others := ha
        split at hr
        · next hlt => exact .inr (.inl ⟨hw, by rw [ha]; exact hlt, hr.symm⟩)
        · next hge => exact .inr (.inr ⟨first, place, others, hw, ha, by omega, hr.symm⟩)
    · next hj => exact .inl ⟨mt (joining_atJoin_iff hd hk).2 hj, hr.symm⟩

/-- A head that comes to a join is on a branch. -/
theorem Laid.exists_branch (hp : program.Pairs Safe J) (hl : i.Laid program Safe J)
    (hh : h ∈ i.heads) (hfetch : program.fetch h.position = .join) :
    ∃ b bs, h.branches = b :: bs := by
  obtain ⟨L, hL⟩ := hl.tracked
  obtain ⟨hsafe, htracks⟩ := hL h hh
  obtain ⟨-, hJ⟩ := hp.join _ hsafe hfetch
  cases hbs : h.branches with
  | nil =>
    rw [hbs, hJ] at htracks
    cases htracks
  | cons b bs => exact ⟨b, bs, rfl⟩

/-- At forks other than the one a head arrives at, everything stays as it was. -/
theorem Sound.pending_atJoin (hs : i.Sound program Safe J) (hk : i.heads[k]? = some h)
    (hne : g ≠ b.group) (hx : x ∈ (i.atJoin k h b.group).heads) (hj : x.state = .atJoin g)
    {c : Branch} {cs : List Branch} (hc : x.branches = c :: cs) (hg : c.group = g) :
    ∃ j < c.size, ¬(i.atJoin k h b.group).HasArrived g j := by
  have hold {y : Head} (hy : y ∈ (i.atJoin k h b.group).heads) (hyj : y.state = .atJoin g) :
      y ∈ i.heads := by
    refine (mem_of_atJoin hs.distinct hk hy hyj).resolve_left ?_
    rintro rfl
    exact hne (HeadState.atJoin.inj hyj).symm
  subst hg
  obtain ⟨j, hlt, hnot⟩ := hs.pending x (hold hx hj) c cs hc hj
  refine ⟨j, hlt, ?_⟩
  rintro ⟨y, hy, hyj, hd⟩
  exact hnot ⟨y, hold hy hyj, hyj, hd⟩

theorem Sound.arrive (hp : program.Pairs Safe J) (hs : i.Sound program Safe J)
    (hk : i.heads[k]? = some h) (hfetch : program.fetch h.position = .join) :
    (i.arrive k h).1.Sound program Safe J := by
  obtain ⟨b, bs, hb⟩ := hs.exists_branch hp (List.mem_of_getElem? hk) hfetch
  have hl := hs.toLaid.atJoin hp hk hfetch hb
  have hu : (i.atJoin k h b.group).Unbroken := settle_unbroken _
  rcases arrive_cases hs.distinct hk hb with
    ⟨hw, he⟩ | ⟨hw, hlt, he⟩ | ⟨first, place, others, hw, ha, hle, he⟩ <;> rw [he]
  · refine ⟨hl, hu, hs.pending.of_subset fun x hx g hj => ?_⟩
    refine (mem_of_atJoin hs.distinct hk hx hj).resolve_left ?_
    rintro rfl
    exact hw hx
  · refine ⟨hl, hu, fun x hx c cs hc hj => ?_⟩
    by_cases hg : c.group = b.group
    · have hsize := (hl.eq_of_group hw hx hb hc hg).1
      rw [hg]
      exact hl.exists_missing (by rwa [hsize])
    · exact hs.pending_atJoin hk hg hx hj hc rfl
  · have hfirst := first_of_arrived ha
    obtain ⟨-, c, cs, hc, hg⟩ := hl.waits hfirst.1 hfirst.2
    have hsize := (hl.eq_of_group hw hfirst.1 hb hc hg).1
    have hsub : ∀ x ∈ ((i.atJoin k h b.group).merge b.group first place others).heads,
        x.state ≠ .ready → x ∈ (i.atJoin k h b.group).heads ∧ x.state ≠ .atJoin b.group := by
      intro x hx hne
      rcases (mem_merge hl.distinct ha).1 hx with rfl | hx
      · exact absurd rfl hne
      · exact hx
    refine ⟨hl.merge hp ha hc (by omega), ?_, ?_⟩
    · rintro x hx g hj ⟨y, hy, hya, hyb⟩
      have hx := hsub x hx (by rw [hj]; nofun)
      refine hu x hx.1 g hj ⟨y, (hsub y hy ?_).1, hya, hyb⟩
      intro hready
      rw [hready] at hya
      cases hya
    · intro x hx d ds hd hj
      have hx := hsub x hx (by rw [hj]; nofun)
      have hne : d.group ≠ b.group := fun hg => hx.2 (by rw [hj, hg])
      obtain ⟨j, hlt, hnot⟩ := hs.pending_atJoin hk hne hx.1 hj hd rfl
      refine ⟨j, hlt, ?_⟩
      rintro ⟨y, hy, hyj, hyd⟩
      exact hnot ⟨y, (hsub y hy (by rw [hyj]; nofun)).1, hyj, hyd⟩

/-! ## No deadlock -/

/-- A head that finished is in no fork whose join is waited for. -/
theorem Laid.not_finished (hp : program.Pairs Safe J) (hl : i.Laid program Safe J)
    (hh : h ∈ i.heads) (hj : h.state = .atJoin g) (hx : x ∈ i.heads)
    (hb : ∃ b ∈ x.branches, b.group = g) : x.state ≠ .finished := by
  intro hfin
  obtain ⟨L, hL⟩ := hl.tracked
  obtain ⟨hjoin, c, cs, hc, rfl⟩ := hl.waits hh hj
  have hwait : L c.group ≠ [] := by
    obtain ⟨hsafe, htracks⟩ := hL h hh
    obtain ⟨-, hJ⟩ := hp.join _ hsafe hjoin
    rw [hc, hJ] at htracks
    rw [← htracks.1]
    nofun
  have hend : Tracks L [] x.branches := by
    obtain ⟨hsafe, htracks⟩ := hL x hx
    have hst := hl.stands x hx
    rw [Head.Stands, hfin] at hst
    rwa [hp.finish _ hsafe hst] at htracks
  obtain ⟨b, hb, hg⟩ := hb
  clear hfin
  generalize x.branches = xs at hb hend
  induction xs with
  | nil => cases hb
  | cons d ds ih =>
    rcases List.mem_cons.1 hb with rfl | hb
    · exact hwait (by rw [← hg]; exact hend.1.symm)
    · exact ih hb hend.2

/-- When a head waits at a join, some head of an instance without ready heads expects an event or
waits for a result. -/
theorem Sound.exists_moving_of_atJoin (hp : program.Pairs Safe J) (hs : i.Sound program Safe J)
    (hready : ∀ h ∈ i.heads, h.state ≠ .ready) (hh : h ∈ i.heads) (hj : h.state = .atJoin g) :
    ∃ x ∈ i.heads, (∃ xs, x.state = .expecting xs) ∨ ∃ n v r, x.state = .waiting n v r := by
  obtain ⟨origin, hf⟩ := hs.forest
  -- forks inside a fork have higher numbers, so the head that is missing cannot wait further inside
  -- for ever
  generalize hn : i.nextGroup - g = n
  induction n using Nat.strongRecOn generalizing h g with
  | _ n ih =>
    obtain ⟨-, b, bs, hb, rfl⟩ := hs.waits hh hj
    obtain ⟨j, hlt, hnot⟩ := hs.pending h hh b bs hb hj
    obtain ⟨-, -, ⟨x, hx, rfl, rfl⟩, c, hc, hg, hi⟩ :=
      hf.covered _ _ ⟨h, hh, rfl, rfl⟩ b (by rw [hb]; exact .head _) j hlt
    cases hst : x.state with
    | ready => exact absurd hst (hready x hx)
    | expecting xs => exact ⟨x, hx, .inl ⟨xs, hst⟩⟩
    | waiting n v r => exact ⟨x, hx, .inr ⟨n, v, r, hst⟩⟩
    | finished => exact absurd hst (hs.not_finished hp hh hj hx ⟨c, hc, hg⟩)
    | aborted reason =>
      refine absurd ⟨x, hx, ?_, c, hc, hg⟩ (hs.unbroken h hh _ hj)
      rw [hst]
      rfl
    | atJoin g' =>
      obtain ⟨-, d, ds, hd, rfl⟩ := hs.waits hx hst
      have hgrown := hf.grown _ _ ⟨x, hx, rfl, rfl⟩
      rw [hd] at hc hgrown
      have hlt' := hgrown.1
      rcases List.mem_cons.1 hc with rfl | hc
      · exact absurd ⟨x, hx, by rw [hst, hg], c, ds, hd, hi⟩ hnot
      · have := (hgrown.2.2.2.of_mem hc).1
        exact ih (i.nextGroup - d.group) (by omega) hx hst rfl

/-- **An instance whose heads have not all come to their ends is waiting for something outside.** -/
theorem Sound.exists_moving (hp : program.Pairs Safe J) (hs : i.Sound program Safe J)
    (hready : ∀ h ∈ i.heads, h.state ≠ .ready) (hlive : i.heads.all Head.isTerminal = false) :
    ∃ x ∈ i.heads, (∃ xs, x.state = .expecting xs) ∨ ∃ n v r, x.state = .waiting n v r := by
  obtain ⟨h, hh, ht⟩ : ∃ h ∈ i.heads, h.isTerminal = false := by simpa using hlive
  cases hst : h.state with
  | ready => exact absurd hst (hready h hh)
  | expecting xs => exact ⟨h, hh, .inl ⟨xs, hst⟩⟩
  | waiting n v r => exact ⟨h, hh, .inr ⟨n, v, r, hst⟩⟩
  | atJoin g => exact hs.exists_moving_of_atJoin hp hready hh hst
  | finished => rw [Head.isTerminal, hst] at ht; cases ht
  | aborted reason => rw [Head.isTerminal, hst] at ht; cases ht

end Sound

end Instance

end EventFlow

import EventFlow.Proofs.Instance.Running
import EventFlow.Query.Eval
import Mathlib

/-!
# Joins do not block

A fork is open as long as some head is on a branch of it.  This file shows that it is over exactly
when the last of its heads arrives at its join, and puts everything about joins together.

## What is here

* `Machine.LastArrives` describes the situation before a join completes: the head that runs next is
  at the join, and the heads of all other branches wait there.
* `lastArrives_of_closes` and `closes_of_lastArrives` are the two directions.

**`join_never_blocks`** is the main result, for every flow that may be loaded.
-/

set_option autoImplicit false

namespace EventFlow

section

variable {Compiled Found : Type} [Query.Library Compiled Found]

/-- Some head is on a branch of a fork. -/
def Instance.Open (i : Instance) (g : Nat) : Prop := ∃ h ∈ i.heads, ∃ b ∈ h.branches, b.group = g

instance (i : Instance) (g : Nat) : Decidable (i.Open g) :=
  inferInstanceAs (Decidable (∃ h ∈ i.heads, ∃ b ∈ h.branches, b.group = g))

namespace Machine

/-- The machine is about to let a head arrive at a join at which all other branches of the fork are
waited for no longer. -/
def LastArrives (program : Program) (m : Machine) (g : Nat) : Prop :=
  ∃ h k, m.Runs h k ∧ program.fetch h.position = .join ∧
    ∃ b bs, h.branches = b :: bs ∧ b.group = g ∧
      ∀ j < b.size, j ≠ b.index → m.inst.HasArrived g j

section Joins

variable {program : Program} {Safe : Nat → Prop} {J : Nat → List Nat} {m m' : Machine}
  {h : Head} {k g : Nat}

open Instance

theorem open_iff_of_on {i i' : Instance} (hon : ∀ id bs, i'.On id bs ↔ i.On id bs) :
    i'.Open g ↔ i.Open g := by
  constructor
  · rintro ⟨x, hx, hb⟩
    obtain ⟨y, hy, -, hbs⟩ := (hon _ _).1 ⟨x, hx, rfl, rfl⟩
    exact ⟨y, hy, by rwa [hbs]⟩
  · rintro ⟨x, hx, hb⟩
    obtain ⟨y, hy, -, hbs⟩ := (hon _ _).2 ⟨x, hx, rfl, rfl⟩
    exact ⟨y, hy, by rwa [hbs]⟩

theorem on_atJoin {i : Instance} (hd : (i.heads.map Head.id).Nodup) (hk : i.heads[k]? = some h)
    (id : HeadId) (bs : List Branch) : (i.atJoin k h g).On id bs ↔ i.On id bs := by
  rw [Instance.atJoin, (stops_settle _).on]
  exact on_setState hd hk (.atJoin g) id bs

/-- Forks around the one that is joined stay open. -/
theorem open_merge {i : Instance} (hl : i.Laid program Safe J) {place : Nat} {first : Head}
    {others : List (Head × Nat)} {g' : Nat} (ha : i.arrived g' = (first, place) :: others)
    (hne : g ≠ g') (ho : i.Open g) : (i.merge g' first place others).Open g := by
  obtain ⟨x, hx, c, hc, hg⟩ := ho
  by_cases hxj : x.state = .atJoin g'
  · obtain ⟨hfirst, hfj⟩ := first_of_arrived ha
    obtain ⟨-, d, ds, hd, hgd⟩ := hl.waits hfirst hfj
    obtain ⟨-, e, es, he, hge⟩ := hl.waits hx hxj
    obtain ⟨-, rfl⟩ := hl.eq_of_group hfirst hx hd he (hge.trans hgd.symm)
    rw [he] at hc
    refine ⟨_, (mem_merge hl.distinct ha).2 (.inl rfl), c, ?_, hg⟩
    show c ∈ first.branches.tail
    rw [hd, List.tail_cons]
    refine (List.mem_cons.1 hc).resolve_left ?_
    rintro rfl
    exact hne (hg.symm.trans hge)
  · exact ⟨x, (mem_merge hl.distinct ha).2 (.inr ⟨hx, hxj⟩), c, hc, hg⟩

/-- A fork that is over was joined when the last of its heads arrived. -/
theorem lastArrives_of_closes (hp : program.Pairs Safe J) (hm : m.Sound program Safe J)
    (hs : m.step? program = some m') (ho : m.inst.Open g) (hc : ¬m'.inst.Open g) :
    m.LastArrives program g := by
  have hd := hm.inst.distinct
  rcases step?_cases hs with ⟨id, rest, -, hinst, -, -⟩ | ⟨h, k, hr, ht⟩
  · exact absurd (hinst ▸ ho) hc
  · have hk := hr.getElem?
    cases ht with
    | go h' on id asks inst queue calls =>
      obtain ⟨L, hL⟩ := hm.inst.tracked
      have hgo := on fun hfetch => (hp.fork _ _ (hL h hr.mem).1 hfetch).1 rfl
      rw [inst, open_iff_of_on (on_setHead hd hk hgo.id hgo.branches)] at hc
      exact absurd ho hc
    | abort reason inst queue =>
      rw [inst, open_iff_of_on (stops_abortHead ..).on] at hc
      exact absurd ((open_iff_of_on (on_setState hd hk _)).2 ho) hc
    | fork first others hfetch inst queue =>
      obtain ⟨x, hx, b, hb, hg⟩ := ho
      rw [inst] at hc
      refine absurd ?_ hc
      by_cases he : x.id = h.id
      · obtain rfl := eq_of_id hd hr.mem hx he
        exact ⟨_, (mem_fork hd hk).2 (.inr ⟨0, first, rfl, rfl⟩), b, .tail _ hb, hg⟩
      · exact ⟨x, (mem_fork hd hk).2 (.inl ⟨hx, he⟩), b, hb, hg⟩
    | arrive hfetch inst queue =>
      obtain ⟨b, bs, hb⟩ := hm.inst.exists_branch hp hr.mem hfetch
      have hl := hm.inst.toLaid.atJoin hp hk hfetch hb
      have ho' : (m.inst.atJoin k h b.group).Open g := (open_iff_of_on (on_atJoin hd hk)).2 ho
      rw [inst] at hc
      rcases arrive_cases hd hk hb with
        ⟨-, he⟩ | ⟨-, -, he⟩ | ⟨first, place, others, hw, ha, hle, he⟩ <;> rw [he] at hc
      · exact absurd ho' hc
      · exact absurd ho' hc
      · by_cases hg : g = b.group
        · subst hg
          refine ⟨h, k, hr, hfetch, b, bs, hb, rfl, fun j hj hne => ?_⟩
          have hall := hl.all_arrived hw hb (by rw [ha]; exact hle)
          obtain ⟨y, hy, hyj, d, ds, hyd, hi⟩ := hall j hj
          refine ⟨y, (mem_of_atJoin hd hk hy hyj).resolve_left ?_, hyj, d, ds, hyd, hi⟩
          rintro rfl
          rw [show (waiter h b.group).branches = h.branches from rfl, hb] at hyd
          cases hyd
          exact hne hi.symm
        · exact absurd (open_merge hl ha hg ho') hc

/-- When all other branches have arrived, no head of the fork was aborted. -/
theorem unbroken_waiter (hm : m.Sound program Safe J) (hr : m.Runs h k) {b : Branch}
    {bs : List Branch} (hb : h.branches = b :: bs)
    (hothers : ∀ j < b.size, j ≠ b.index → m.inst.HasArrived b.group j) :
    (m.inst.setHead k (waiter h b.group)).Unbroken := by
  have hd := hm.inst.distinct
  have hk := hr.getElem?
  intro x hx g hj
  rw [broken_setHead hd hk (by rw [hr.ready]; rfl) rfl]
  rcases (mem_setHead hd hk).1 hx with rfl | ⟨hx, -⟩
  · cases hj
    rintro ⟨y, hy, hya, c, hc, hg⟩
    by_cases hi : c.index = b.index
    · obtain ⟨origin, hf⟩ := hm.inst.forest
      have hid := hf.eq_of_top ⟨h, hr.mem, rfl, hb⟩ ⟨y, hy, rfl, rfl⟩ hc hg hi
      rw [eq_of_id hd hr.mem hy hid, hr.ready] at hya
      cases hya
    · have ha := hothers c.index (hm.inst.toLaid.index_lt hr.mem hb hy hc hg) hi
      rw [← hg] at ha
      rw [hm.inst.toLaid.state_of_arrived hy hc ha] at hya
      cases hya
  · exact hm.inst.unbroken x hx g hj

/-- When all branches have arrived, the join leaves nobody in the fork. -/
theorem not_open_merge {i : Instance} (hl : i.Laid program Safe J) (hh : h ∈ i.heads) {b : Branch}
    {bs : List Branch} (hb : h.branches = b :: bs)
    (hall : ∀ j < b.size, i.HasArrived b.group j) {place : Nat} {first : Head}
    {others : List (Head × Nat)} (ha : i.arrived b.group = (first, place) :: others) :
    ¬(i.merge b.group first place others).Open b.group := by
  rintro ⟨x, hx, c, hc, hg⟩
  rcases (mem_merge hl.distinct ha).1 hx with rfl | ⟨hx, hne⟩
  · -- the head that goes on is in the forks around only, which are older
    obtain ⟨hfirst, hfj⟩ := first_of_arrived ha
    obtain ⟨-, d, ds, hfd, hgd⟩ := hl.waits hfirst hfj
    obtain ⟨origin, hf⟩ := hl.forest
    change c ∈ first.branches.tail at hc
    rw [hfd, List.tail_cons] at hc
    have := ((hf.grown _ _ ⟨first, hfirst, rfl, hfd⟩).2.2.2.of_mem hc).1
    omega
  · exact hne (hl.state_of_all_arrived hh hb hall hx hc hg)

/-- A fork is over when the last of its heads has arrived. -/
theorem closes_of_lastArrives (hp : program.Pairs Safe J) (hm : m.Sound program Safe J)
    (hs : m.step? program = some m') (ha : m.LastArrives program g) :
    m.inst.Open g ∧ ¬m'.inst.Open g := by
  obtain ⟨h, k, hr, hfetch, b, bs, hb, rfl, hothers⟩ := ha
  have hd := hm.inst.distinct
  have hk := hr.getElem?
  have hl := hm.inst.toLaid.atJoin hp hk hfetch hb
  refine ⟨⟨h, hr.mem, b, by rw [hb]; exact .head _, rfl⟩, ?_⟩
  have hold {x : Head} (hx : x ∈ m.inst.heads) (hne : x.state ≠ .ready) :
      x ∈ (m.inst.setHead k (waiter h b.group)).heads := by
    refine (mem_setHead hd hk).2 (.inr ⟨hx, fun he => hne ?_⟩)
    rw [eq_of_id hd hr.mem hx he]
    exact hr.ready
  have heads : (m.inst.atJoin k h b.group).heads =
      (m.inst.setHead k (waiter h b.group)).heads := heads_settle (unbroken_waiter hm hr hb hothers)
  have hw : waiter h b.group ∈ (m.inst.atJoin k h b.group).heads := by
    rw [heads]
    exact (mem_setHead hd hk).2 (.inl rfl)
  have hall : ∀ j < b.size, (m.inst.atJoin k h b.group).HasArrived b.group j := by
    intro j hj
    by_cases hi : j = b.index
    · exact ⟨_, hw, rfl, b, bs, hb, hi.symm⟩
    · obtain ⟨z, hz, hzj, hzd⟩ := hothers j hj hi
      exact ⟨z, by rw [heads]; exact hold hz (by rw [hzj]; nofun), hzj, hzd⟩
  have hm' : m'.inst = (m.inst.arrive k h).1 := by
    rw [hr.step?] at hs
    cases hs
    simp only [turn, hfetch, Instance.execute]
  rw [hm']
  rcases arrive_cases hd hk hb with
    ⟨hn, -⟩ | ⟨-, hlt, -⟩ | ⟨first, place, others, -, ha, -, he⟩
  · exact absurd hw hn
  · obtain ⟨j, hj, hn⟩ := hl.exists_missing hlt
    exact absurd (hall j hj) hn
  · rw [he]
    exact not_open_merge hl hw hb hall ha

end Joins

end Machine

/-- **Joins never block.**  Between the calls of a flow that may be loaded no head is ready; some
head expects an event or waits for a result unless the instance has come to its end; nobody waits at
the join of a fork in which a head was aborted, and whoever waits at a join waits for a branch that
has not arrived.  Within the calls a fork is over exactly when the last of its heads arrives. -/
theorem join_never_blocks {f : Flow} {l : LoadedFlow} (hl : f.load = .ok l) :
    (∀ i : Instance, i.Reached l.program →
      (∀ h ∈ i.heads, h.state.isReady = false) ∧
      (i.status.isTerminal = false →
        ∃ h ∈ i.heads, (∃ xs, h.state = .expecting xs) ∨ ∃ n v r, h.state = .waiting n v r) ∧
      (∀ h ∈ i.heads, ∀ g, h.state = .atJoin g →
        ∀ x ∈ i.heads, g ∈ x.branches.map Branch.group → x.state.isAborted = false) ∧
      ∀ h ∈ i.heads, ∀ g, h.state = .atJoin g →
        ∃ b bs, h.branches = b :: bs ∧ b.group = g ∧ ∃ j < b.size, ¬i.HasArrived g j) ∧
    ∀ (m m' : Machine) (g : Nat), m.Passed l.program → m.step? l.program = some m' →
      (m.inst.Open g ∧ ¬m'.inst.Open g ↔ m.LastArrives l.program g) := by
  obtain ⟨Safe, J, hp⟩ := exists_pairs hl
  refine ⟨fun i hi => ?_, fun m m' g hm hs => ?_⟩
  · have hr := hi.rests hp
    refine ⟨fun h hh => ?_, fun hlive => hr.sound.exists_moving hp hr.idle (hr.live hlive),
      fun h hh g hj x hx hg => ?_, fun h hh g hj => ?_⟩
    · by_contra hready
      exact hr.idle h hh (Machine.state_of_isReady (by simpa using hready))
    · by_contra ha
      obtain ⟨b, hb, rfl⟩ := List.mem_map.1 hg
      exact hr.sound.unbroken h hh _ hj ⟨x, hx, by simpa using ha, b, hb, rfl⟩
    · obtain ⟨-, b, bs, hb, rfl⟩ := hr.sound.waits hh hj
      exact ⟨b, bs, hb, rfl, hr.sound.pending h hh b bs hb hj⟩
  · have hsound := hm.sound hp
    exact ⟨fun h => Machine.lastArrives_of_closes hp hsound hs h.1 h.2,
      Machine.closes_of_lastArrives hp hsound hs⟩

end

/-- A flow with two branches that waits behind their join. -/
def twoBranches : Flow where
  id := ⟨"both"⟩
  description := none
  priority := none
  activation := none
  body :=
    [.fork
      [[.assign ⟨.head, "left"⟩ (.literal .null)],
       [.assign ⟨.head, "right"⟩ (.literal .null)]],
     .join, .expect ⟨"go", []⟩]

/-- The machine that starts it after some steps. -/
def twoBranchesAt : Nat → Option Machine
  | 0 => some (.starting (.spawn ⟨"i"⟩ twoBranches.id 0 0 none [] 0) ⟨[], .seeded 0⟩)
  | n + 1 => (twoBranchesAt n).bind fun m => m.step? (.ofBody twoBranches.body)

theorem passed_twoBranchesAt : ∀ {n : Nat} {m : Machine}, twoBranchesAt n = some m →
    m.Passed (.ofBody twoBranches.body)
  | 0, _, h => by
    cases h
    exact .start ..
  | n + 1, _, h => by
    obtain ⟨m, hm, hstep⟩ := Option.bind_eq_some_iff.1 h
    exact (passed_twoBranchesAt hm).step hstep

/-- Nobody is ready behind the call, and the fork is over when the second branch arrives. -/
theorem join_never_blocks_twoBranches :
    ∃ l, twoBranches.load = .ok l ∧
      (∀ h ∈ ((Instance.spawn ⟨"i"⟩ l.id 0 0 none [] 0).start l.program
        ⟨[], .seeded 0⟩).1.heads, h.state.isReady = false) ∧
      ∃ m m' : Machine, m.Passed l.program ∧ m.step? l.program = some m' ∧
        m.inst.Open 0 ∧ ¬m'.inst.Open 0 ∧ m.LastArrives l.program 0 := by
  have hl : twoBranches.load = .ok ⟨twoBranches, .ofBody twoBranches.body⟩ := rfl
  obtain ⟨hrests, hcloses⟩ := join_never_blocks hl
  have hbefore : (twoBranchesAt 7).map (fun m => decide (m.inst.Open 0)) = some true := by cbv
  have hafter : (twoBranchesAt 8).map (fun m => decide (m.inst.Open 0)) = some false := by cbv
  obtain ⟨m, hm, hopen⟩ := Option.map_eq_some_iff.1 hbefore
  obtain ⟨m', hm', hover⟩ := Option.map_eq_some_iff.1 hafter
  rw [twoBranchesAt, hm, Option.bind_some] at hm'
  have hpassed := passed_twoBranchesAt hm
  have hcloses := hcloses m m' 0 hpassed hm'
  exact ⟨_, hl, (hrests _ (.start ..)).1, m, m', hpassed, hm', of_decide_eq_true hopen,
    of_decide_eq_false hover, hcloses.1 ⟨of_decide_eq_true hopen, of_decide_eq_false hover⟩⟩

end EventFlow

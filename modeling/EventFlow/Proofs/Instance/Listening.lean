import EventFlow.Proofs.Instance.Remains

/-!
# Heads that listen

An event may move several heads of an instance, one after the other, and each of them sets a machine
going that forks heads, merges them and aborts them.  None of this touches a head that waits for
events itself: it executes nothing, it waits at no join, and what aborts it from within would have
to be its own instruction.

## What is here

* `Head.Listens` says that a head waits for events or for the result of a call.
* `mem_step` and `mem_runHeads`: a head that listens stays as it is while a machine runs.
  `mem_of_step` says how it has come to listen.
* `Instance.taking?` tells how a head that an event moves stood before and how it goes on.

**`taking?_of_match?`** says that a head which an event matches is moved by it, and
**`mem_advance?`** that all others which listen are left as they are.
-/

set_option autoImplicit false

namespace EventFlow

variable {Compiled Found : Type} [Query.Library Compiled Found]

/-- A head waits for events, or for the result of a call. -/
def Head.Listens (h : Head) : Prop := h.expectations ≠ []

theorem Head.listens_of_match? {h : Head} {e : Event} (hm : (h.match? e).isSome = true) :
    h.Listens := by
  intro hnil
  rw [match?, hnil] at hm
  cases hm

section Listening

open Instance

variable {program : Program} {i i' : Instance} {h x : Head} {k : Nat} {w w' : World} {e : Event}
  {id : HeadId} {f : Effects}

theorem Head.Listens.state (hl : h.Listens) :
    h.state ≠ .ready ∧ (∀ g, h.state ≠ .atJoin g) ∧ h.isTerminal = false := by
  rw [Listens, expectations] at hl
  rw [isTerminal]
  generalize h.state = state at hl ⊢
  cases state with
  | expecting | waiting => exact ⟨by simp, by simp, rfl⟩
  | ready | atJoin | finished | aborted => exact absurd rfl hl

/-! ## Running machines -/

/-- A head that is about to execute an instruction is not one that listens. -/
theorem mem_setHead_of_listens (hd : (i.heads.map Head.id).Nodup) (hk : i.heads[k]? = some x)
    (hr : x.state = .ready) (hl : h.Listens) (hh : h ∈ i.heads) (x' : Head) :
    h ∈ (i.setHead k x').heads := by
  refine (mem_setHead hd hk).2 (.inr ⟨hh, fun hid => hl.state.1 ?_⟩)
  rw [eq_of_id hd (List.mem_of_getElem? hk) hh hid]
  exact hr

theorem mem_settle_of_listens (hl : h.Listens) (hh : h ∈ i.heads) : h ∈ i.settle.heads := by
  obtain ⟨f, hf, hs⟩ := i.settle_heads
  rw [hf]
  refine List.mem_map.2 ⟨h, hh, (hs h).resolve_right ?_⟩
  rintro ⟨⟨g, hg⟩, -⟩
  exact hl.state.2.1 g hg

theorem mem_arrive_of_listens (hd : (i.heads.map Head.id).Nodup) (hk : i.heads[k]? = some x)
    (hr : x.state = .ready) (hl : h.Listens) (hh : h ∈ i.heads) :
    h ∈ (i.arrive k x).1.heads := by
  cases hb : x.branches with
  | nil =>
    rw [arrive]
    rw [hb]
    exact mem_setHead_of_listens hd hk hr hl hh _
  | cons b bs =>
    have hat : h ∈ (i.atJoin k x b.group).heads :=
      mem_settle_of_listens hl (mem_setHead_of_listens hd hk hr hl hh _)
    rcases arrive_cases hd hk hb with
      ⟨-, he⟩ | ⟨-, -, he⟩ | ⟨first, place, others, -, ha, -, he⟩ <;> rw [he]
    · exact hat
    · exact hat
    · exact (mem_merge (thins_atJoin hd hk b.group).distinct ha).2 (.inr ⟨hat, hl.state.2.1 _⟩)

/-- A step of a machine leaves a head that listens as it is. -/
theorem mem_step {m m' : Machine} (hs : m.step? program = some m')
    (hd : (m.inst.heads.map Head.id).Nodup) (hl : h.Listens) (hh : h ∈ m.inst.heads) :
    h ∈ m'.inst.heads := by
  rcases Machine.step?_cases hs with ⟨-, rest, -, hinst, -, -⟩ | ⟨x, k, hr, ht⟩
  · rwa [hinst]
  · have hk := hr.getElem?
    cases ht with
    | go x' on hid asks inst queue calls =>
      rw [inst]
      exact mem_setHead_of_listens hd hk hr.ready hl hh x'
    | abort reason inst queue =>
      rw [inst]
      exact mem_settle_of_listens hl (mem_setHead_of_listens hd hk hr.ready hl hh _)
    | fork first others hfetch inst queue =>
      rw [inst]
      refine (mem_fork hd hk).2 (.inl ⟨hh, fun hid => hl.state.1 ?_⟩)
      rw [eq_of_id hd hr.mem hh hid]
      exact hr.ready
    | arrive hfetch inst queue =>
      rw [inst]
      exact mem_arrive_of_listens hd hk hr.ready hl hh

/-! ## Coming to listen -/

/-- A head that listens is not the one put in place of another, if that does not listen. -/
theorem mem_of_setHead (hh : h ∈ (i.setHead k x).heads) (hl : h.Listens) (hx : ¬x.Listens) :
    h ∈ i.heads := by
  rcases List.mem_or_eq_of_mem_set hh with hh | rfl
  · exact hh
  · exact absurd hl hx

/-- Aborting heads makes none of them listen. -/
theorem Instance.Stops.mem_of_listens (hs : i.Stops i') (hh : h ∈ i'.heads) (hl : h.Listens) :
    h ∈ i.heads := by
  rcases hs.mem hh with hh | ⟨y, -, reason, rfl⟩
  · exact hh
  · exact absurd rfl hl

/-- Arriving at a join makes no head listen. -/
theorem mem_of_arrive (hr : x.state = .ready) (hh : h ∈ (i.arrive k x).1.heads)
    (hl : h.Listens) : h ∈ i.heads := by
  have hready {y : Head} (hy : y.state = .ready) : ¬y.Listens := fun hl => hl.state.1 hy
  rw [arrive] at hh
  split at hh
  · exact mem_of_setHead hh hl (hready hr)
  · next b _ _ =>
    have hat {y : Head}
        (hy : y ∈ (i.setHead k { x with state := .atJoin b.group }).settle.heads)
        (hl : y.Listens) : y ∈ i.heads :=
      mem_of_setHead ((stops_settle _).mem_of_listens hy hl) hl (absurd rfl)
    simp only at hh
    split at hh
    · split at hh
      · exact hat hh hl
      · split at hh
        · exact hat hh hl
        · rcases List.mem_or_eq_of_mem_set (List.mem_filter.1 hh).1 with hh | rfl
          · exact hat hh hl
          · exact absurd hl (hready rfl)
    · exact hat hh hl

/-- **A head comes to listen by the instruction it executes**, and in no other way. -/
theorem mem_of_step {m m' : Machine} (hs : m.step? program = some m') (hh : h ∈ m'.inst.heads)
    (hl : h.Listens) : h ∈ m.inst.heads ∨ ∃ x k, m.Runs x k ∧
      (m.inst.execute m.world x (program.fetch x.position)).1 = .become h := by
  rcases Machine.step?_eq hs with ⟨id, rest, -, rfl, -⟩ | ⟨x, k, hr, rfl⟩
  · exact .inl hh
  · rw [Machine.turn] at hh
    generalize he : m.inst.execute m.world x (program.fetch x.position) = turned at hh
    obtain ⟨turn, world, effects⟩ := turned
    cases turn with
    | become x' =>
      rcases List.mem_or_eq_of_mem_set hh with hh | rfl
      · exact .inl hh
      · exact .inr ⟨x, k, hr, congrArg Prod.fst he⟩
    | abort reason =>
      exact .inl (mem_of_setHead ((stops_abortHead ..).mem_of_listens hh hl) hl (absurd rfl))
    | split first others =>
      have hdown (id : HeadId) (b : Branch) (start : Nat) : ¬(x.goDown id b start).Listens :=
        fun hl => hl.state.1 hr.ready
      rcases List.mem_append.1 hh with hh | hh
      · exact .inl (mem_of_setHead hh hl (hdown _ _ _))
      · obtain ⟨s, -, rfl⟩ := List.mem_map.1 hh
        exact absurd hl (hdown _ _ _)
    | arrive => exact .inl (mem_of_arrive hr.ready hh hl)

/-! ## Runs -/

/-- **A head that listens stays as it is while other heads run**, and so its instance goes on. -/
theorem mem_runHeads (hd : (i.heads.map Head.id).Nodup)
    (hf : ∀ h ∈ i.heads, h.id.number < i.nextHead) (hlive : i.status.isTerminal = false)
    (hl : h.Listens) (hh : h ∈ i.heads) (queue : List HeadId) :
    h ∈ (i.runHeads program w queue).1.heads ∧
      (i.runHeads program w queue).1.status.isTerminal = false := by
  have hstart : Machine.Follows i ⟨i, w, .none, queue⟩ :=
    ⟨rfl, rfl, hd, hf, fun _ _ hw => .inl hw, stamped_none _⟩
  have hrun := @Machine.run_of_step _ _ _ program _ (fun m => Machine.Follows i m ∧ h ∈ m.inst.heads)
    (fun _ _ hm hs => ⟨hm.1.step hs, mem_step hs hm.1.distinct hl hm.2⟩) ⟨hstart, hh⟩
  rw [runHeads]
  generalize Machine.run program ⟨i, w, .none, queue⟩ = m at hrun ⊢
  have hmem : h ∈ m.inst.refresh.heads := by
    rw [heads_refresh]
    exact hrun.2
  refine ⟨hmem, ?_⟩
  cases hend : m.inst.refresh.status.isTerminal with
  | false => rfl
  | true =>
    have hterminal := ended_refresh (by rw [hrun.1.status, hlive]) hend h hmem
    rw [hl.state.2.2] at hterminal
    cases hterminal

/-! ## Taking an event -/

/-- How a head that an event moves stood before, and how it goes on. -/
def Instance.taking? (i : Instance) (w : World) (id : HeadId) (e : Event) :
    Option (Head × Head) := do
  let m ← Machine.advancing? i w id e
  let (before, k) ← i.slot? id
  let after ← m.inst.heads[k]?
  return (before, after)

/-- What an event needs so that it sets a head going. -/
theorem advancing?_eq_some {m : Machine} :
    Machine.advancing? i w id e = some m ↔ i.isDeafTo e = false ∧ ∃ h k x,
      i.slot? id = some (h, k) ∧ h.match? e = some x ∧
        m = ⟨i.setHead k (resume h x e w).1, (resume h x e w).2, .none, [id]⟩ := by
  rw [Machine.advancing?]
  cases i.isDeafTo e with
  | true => simp
  | false =>
    simp only [Bool.false_eq_true, if_false, Option.bind_eq_bind, Option.bind_eq_some_iff,
      Option.pure_def, Option.some.injEq, Prod.exists, true_and, exists_and_left]
    simp only [eq_comm]

/-- A head is moved exactly if it takes the event. -/
theorem advance?_isSome (program : Program) (i : Instance) (w : World) (id : HeadId) (e : Event) :
    (i.advance? program w id e).isSome = (i.taking? w id e).isSome := by
  rw [advance?_eq, taking?, Option.isSome_map]
  cases ha : Machine.advancing? i w id e with
  | none => rfl
  | some m =>
    obtain ⟨-, h, k, x, hslot, -, rfl⟩ := advancing?_eq_some.1 ha
    have hlt := (List.getElem?_eq_some_iff.1 (Machine.getElem?_of_slot? hslot)).1
    simp [hslot, setHead, hlt]

/-- **A head that an event matches takes it**, unless its instance is deaf to it. -/
theorem taking?_of_match? (hd : (i.heads.map Head.id).Nodup) (hdeaf : i.isDeafTo e = false)
    (hh : h ∈ i.heads) {m : HeadMatch} (hm : h.match? e = some m) (w : World) :
    i.taking? w h.id e = some (h, (resume h m e w).1) := by
  obtain ⟨k, hslot⟩ := exists_slot hd hh
  have hlt := (List.getElem?_eq_some_iff.1 (Machine.getElem?_of_slot? hslot)).1
  simp [taking?, Machine.advancing?, hdeaf, hslot, hm, setHead, hlt]

/-- **A head that listens is left as it is when another one is moved**, and so its instance goes
on. -/
theorem mem_advance? (hi : i.Regular) (ha : i.advance? program w id e = some (i', w', f))
    (hl : h.Listens) (hh : h ∈ i.heads) (hne : h.id ≠ id) :
    h ∈ i'.heads ∧ i'.status.isTerminal = false := by
  rw [advance?_eq] at ha
  obtain ⟨m, hm, hout⟩ := Option.map_eq_some_iff.1 ha
  obtain ⟨hdeaf, x, k, y, hslot, -, rfl⟩ := advancing?_eq_some.1 hm
  have hk := Machine.getElem?_of_slot? hslot
  have hid : x.id = id := by simpa using List.find?_some hslot
  obtain ⟨hid', hready⟩ := resume_head x y e w
  have hset := thins_setHead hi.distinct hk hid' (fun n v r hw => by rw [hready] at hw; cases hw)
  have hfresh : ∀ z ∈ (i.setHead k (resume x y e w).1).heads, z.id.number < i.nextHead := by
    intro z hz
    obtain ⟨z', hz', hzid⟩ := hset.ids z hz
    rw [← hzid]
    exact hi.fresh z' hz'
  have hlive : i.status.isTerminal = false := by
    rw [isDeafTo, Bool.or_eq_false_iff] at hdeaf
    exact hdeaf.1
  have hrun := @mem_runHeads _ _ _ program (i.setHead k (resume x y e w).1) h (resume x y e w).2
    hset.distinct hfresh hlive hl
    ((mem_setHead hi.distinct hk).2 (.inr ⟨hh, fun heq => hne (heq.trans hid)⟩)) [id]
  rw [show runHeads program (i.setHead k (resume x y e w).1) (resume x y e w).2 [id] =
    (i', w', f) from hout] at hrun
  exact hrun

end Listening

end EventFlow

import EventFlow.Proofs.Instance.Progress
import EventFlow.Proofs.Instance.Reports
import EventFlow.Query.Eval

/-!
# The status of an instance sums up its heads

What is known about an instance as a whole is kept apart from its heads: its status, the reason it
was aborted for, and the observations about it.  Heads are aborted one by one from within, by
settling, and all at once from outside, and joins merge heads away; the status is brought up to date
once, at the end of a call.  This file shows that all of it agrees again after every call.

## What is here

* `Instance.OnRecord` says that a list has the heads of an instance that were aborted, in the order
  in which they were, and that the instance is aborted for the first reason in it.
  `OnRecord.settle`, `OnRecord.abortHead`, `OnRecord.fork` and `OnRecord.arrive` keep it, and so
  does every step of a machine (`onRecord_step`).
* `Instance.Course` relates an instance that calls have led to and the heads that it has lost on its
  way.
* `Instance.Agrees` is the agreement, and **`status_sums_up_heads`** proves it after every call, for
  every flow that may be loaded.
-/

set_option autoImplicit false

namespace EventFlow

section

variable {Compiled Found : Type} [Query.Library Compiled Found]

namespace Instance

/-- A head was aborted for a reason. -/
def Lost (i : Instance) (id : HeadId) (reason : String) : Prop :=
  ∃ h ∈ i.heads, h.id = id ∧ h.state = .aborted reason

/-- The heads that an instance has reported to be aborted, in order. -/
def losses (i : Instance) : List (HeadId × String) := i.observations.filterMap Observation.loss?

/-- The heads of an instance that were aborted, in the order in which they were. -/
structure OnRecord (i : Instance) (log : List (HeadId × String)) : Prop where
  manned : i.heads ≠ []
  mem : ∀ id reason, (id, reason) ∈ log ↔ i.Lost id reason
  once : (log.map Prod.fst).Nodup
  first : i.abortReason = log.head?.map Prod.snd

section Record

variable {program : Program} {Safe : Nat → Prop} {J : Nat → List Nat} {i i' : Instance}
  {h h' : Head} {k g : Nat} {id : HeadId} {reason : String} {log : List (HeadId × String)}

theorem Loses.losses {lost : List (HeadId × String)} (hl : i.Loses i' lost) :
    i'.losses = i.losses ++ lost := by
  rw [Instance.losses, hl.observations, List.filterMap_append, loss?_lossOf]
  rfl

theorem isAborted_iff {s : HeadState} : s.isAborted = true ↔ ∃ reason, s = .aborted reason := by
  cases s <;> simp [HeadState.isAborted]

/-! ## Heads that were aborted -/

theorem lost_setHead (hd : (i.heads.map Head.id).Nodup) (hk : i.heads[k]? = some h)
    (hu : h.state.isAborted = false) (hu' : h'.state.isAborted = false) :
    (i.setHead k h').Lost id reason ↔ i.Lost id reason := by
  constructor
  · rintro ⟨x, hx, hid, ha⟩
    rcases (mem_setHead hd hk).1 hx with rfl | ⟨hx, -⟩
    · rw [ha] at hu'
      cases hu'
    · exact ⟨x, hx, hid, ha⟩
  · rintro ⟨x, hx, hid, ha⟩
    refine ⟨x, (mem_setHead hd hk).2 (.inr ⟨hx, fun he => ?_⟩), hid, ha⟩
    rw [← eq_of_id hd (List.mem_of_getElem? hk) hx he, ha] at hu
    cases hu

theorem lost_lose (hd : (i.heads.map Head.id).Nodup) (hk : i.heads[k]? = some h)
    (hu : h.state.isAborted = false) {reason' : String} :
    (i.lose k h reason').Lost id reason ↔
      i.Lost id reason ∨ id = h.id ∧ reason = reason' := by
  have hmem {x : Head} : x ∈ (i.lose k h reason').heads ↔
      x = { h with state := .aborted reason' } ∨ x ∈ i.heads ∧ x.id ≠ h.id := mem_setHead hd hk
  constructor
  · rintro ⟨x, hx, rfl, ha⟩
    rcases hmem.1 hx with rfl | ⟨hx, -⟩
    · exact .inr ⟨rfl, (HeadState.aborted.inj ha).symm⟩
    · exact .inl ⟨x, hx, rfl, ha⟩
  · rintro (⟨x, hx, rfl, ha⟩ | ⟨rfl, rfl⟩)
    · refine ⟨x, hmem.2 (.inr ⟨hx, fun he => ?_⟩), rfl, ha⟩
      rw [← eq_of_id hd (List.mem_of_getElem? hk) hx he, ha] at hu
      cases hu
    · exact ⟨_, hmem.2 (.inl rfl), rfl, rfl⟩

theorem mem_vainLosses : (id, reason) ∈ i.vainLosses ↔
    ∃ h ∈ i.heads, ∃ g, vain? i.brokenForks h = some g ∧ h.id = id ∧ siblingReason g = reason := by
  simp only [vainLosses, List.mem_filterMap, Option.map_eq_some_iff, Prod.mk.injEq]

/-- A round of settling aborts the heads that wait in vain. -/
theorem lost_settleOnce :
    i.settleOnce.Lost id reason ↔ i.Lost id reason ∨ (id, reason) ∈ i.vainLosses := by
  rw [mem_vainLosses]
  constructor
  · rintro ⟨x, hx, rfl, ha⟩
    obtain ⟨h, hh, rfl⟩ := List.mem_map.1 hx
    rw [giveUp] at ha ⊢
    split at ha
    · next g hg => exact .inr ⟨h, hh, g, hg, rfl, HeadState.aborted.inj ha⟩
    · exact .inl ⟨h, hh, rfl, ha⟩
  · rintro (⟨h, hh, rfl, ha⟩ | ⟨h, hh, g, hg, rfl, rfl⟩) <;>
      refine ⟨_, List.mem_map_of_mem hh, ?_⟩
    · have hnone : vain? i.brokenForks h = none := by
        rw [vain?, ha]
        rfl
      rw [giveUp, hnone]
      exact ⟨rfl, ha⟩
    · rw [giveUp, hg]
      exact ⟨rfl, rfl⟩

theorem lost_fork (hd : (i.heads.map Head.id).Nodup) (hk : i.heads[k]? = some h)
    (hr : h.state = .ready) (first : Nat) (others : List Nat) :
    (i.fork k h first others).1.Lost id reason ↔ i.Lost id reason := by
  constructor
  · rintro ⟨x, hx, hid, ha⟩
    rcases (mem_fork hd hk).1 hx with ⟨hx, -⟩ | ⟨j, start, -, rfl⟩
    · exact ⟨x, hx, hid, ha⟩
    · rw [show (h.goDown _ _ start).state = h.state from rfl, hr] at ha
      cases ha
  · rintro ⟨x, hx, hid, ha⟩
    refine ⟨x, (mem_fork hd hk).2 (.inl ⟨hx, fun he => ?_⟩), hid, ha⟩
    rw [eq_of_id hd (List.mem_of_getElem? hk) hx he, hr] at ha
    cases ha

theorem lost_merge (hd : (i.heads.map Head.id).Nodup) {place : Nat} {first : Head}
    {others : List (Head × Nat)} (ha : i.arrived g = (first, place) :: others) :
    (i.merge g first place others).Lost id reason ↔ i.Lost id reason := by
  constructor
  · rintro ⟨x, hx, hid, hstate⟩
    rcases (mem_merge hd ha).1 hx with rfl | ⟨hx, -⟩
    · cases hstate
    · exact ⟨x, hx, hid, hstate⟩
  · rintro ⟨x, hx, hid, hstate⟩
    exact ⟨x, (mem_merge hd ha).2 (.inr ⟨hx, by rw [hstate]; nofun⟩), hid, hstate⟩

/-! ## The record -/

/-- Where no head is aborted, the record stays as it is. -/
theorem OnRecord.same (ho : i.OnRecord log) (hmanned : i'.heads ≠ [])
    (hlost : ∀ id reason, i'.Lost id reason ↔ i.Lost id reason)
    (hreason : i'.abortReason = i.abortReason) : i'.OnRecord log :=
  ⟨hmanned, fun id reason => (ho.mem id reason).trans (hlost id reason).symm, ho.once,
    hreason.trans ho.first⟩

theorem heads_ne_nil_of_mem (hh : h ∈ i.heads) : i.heads ≠ [] := List.ne_nil_of_mem hh

theorem heads_setHead_ne_nil (hd : (i.heads.map Head.id).Nodup) (hk : i.heads[k]? = some h) :
    (i.setHead k h').heads ≠ [] := heads_ne_nil_of_mem ((mem_setHead hd hk).2 (.inl rfl))

theorem OnRecord.setHead (ho : i.OnRecord log) (hd : (i.heads.map Head.id).Nodup)
    (hk : i.heads[k]? = some h) (hu : h.state.isAborted = false)
    (hu' : h'.state.isAborted = false) : (i.setHead k h').OnRecord log :=
  ho.same (heads_setHead_ne_nil hd hk) (fun _ _ => lost_setHead hd hk hu hu') rfl

/-- Heads that are put on record are new there if they were not aborted. -/
theorem OnRecord.nodup_append (ho : i.OnRecord log) (hd : (i.heads.map Head.id).Nodup)
    {more : List (HeadId × String)} (hmore : (more.map Prod.fst).Nodup)
    (hnew : ∀ l ∈ more, ∃ h ∈ i.heads, h.id = l.1 ∧ h.state.isAborted = false) :
    ((log ++ more).map Prod.fst).Nodup := by
  rw [List.map_append]
  refine ho.once.append hmore fun id hid hid' => ?_
  obtain ⟨⟨_, reason⟩, hmem, rfl⟩ := List.mem_map.1 hid
  obtain ⟨l, hl, heq⟩ := List.mem_map.1 hid'
  obtain ⟨x, hx, hxid, ha⟩ := (ho.mem _ _).1 hmem
  obtain ⟨y, hy, hyid, hu⟩ := hnew l hl
  rw [eq_of_id hd hx hy (hyid.trans (heq.trans hxid.symm)), ha] at hu
  cases hu

/-- A head that is aborted from within is put on record. -/
theorem OnRecord.lose (ho : i.OnRecord log) (hd : (i.heads.map Head.id).Nodup)
    (hk : i.heads[k]? = some h) (hu : h.state.isAborted = false) (reason : String) :
    (i.lose k h reason).OnRecord (log ++ [(h.id, reason)]) where
  manned := @heads_setHead_ne_nil i h { h with state := .aborted reason } k hd hk
  mem id reason' := by
    rw [lost_lose hd hk hu, ← ho.mem, List.mem_append, List.mem_singleton, Prod.mk.injEq]
  once := ho.nodup_append hd (List.nodup_singleton _)
    (List.forall_mem_singleton.2 ⟨h, List.mem_of_getElem? hk, rfl, hu⟩)
  first := by
    show some (i.abortReason.getD reason) = _
    rw [ho.first]
    cases log <;> rfl

/-- Nobody waits in vain unless a head was aborted before. -/
theorem vainLosses_of_nil (ho : i.OnRecord []) : i.vainLosses = [] := by
  refine List.filterMap_eq_nil_iff.2 fun x hx => Option.map_eq_none_iff.2 ?_
  refine Option.filter_eq_none_iff.2 fun g hg hbroken => ?_
  obtain ⟨y, hy, ha, -⟩ := mem_brokenForks.1 (List.contains_iff_mem.1 hbroken)
  obtain ⟨reason, ha⟩ := isAborted_iff.1 ha
  exact List.not_mem_nil ((ho.mem y.id reason).2 ⟨y, hy, rfl, ha⟩)

/-- A round of settling puts the heads on record that have waited in vain. -/
theorem OnRecord.settleOnce (ho : i.OnRecord log) (hd : (i.heads.map Head.id).Nodup) :
    i.settleOnce.OnRecord (log ++ i.vainLosses) where
  manned := by
    rw [show i.settleOnce.heads = i.heads.map (giveUp i.brokenForks) from rfl, ne_eq,
      List.map_eq_nil_iff]
    exact ho.manned
  mem id reason := by rw [lost_settleOnce, ← ho.mem, List.mem_append]
  once := by
    have hids : (i.vainLosses.map Prod.fst).Sublist (i.heads.map Head.id) := by
      have hfilter : i.vainLosses.map Prod.fst =
          (i.heads.filter fun h => (vain? i.brokenForks h).isSome).map Head.id := by
        rw [vainLosses, List.map_filterMap, ← List.filterMap_eq_filter, List.map_filterMap]
        refine List.filterMap_congr fun x _ => ?_
        cases hv : vain? i.brokenForks x <;> simp [Option.guard, hv]
      rw [hfilter]
      exact List.filter_sublist.map Head.id
    refine ho.nodup_append hd (hd.sublist hids) fun l hl => ?_
    obtain ⟨y, hy, g, hg, hyid, -⟩ := mem_vainLosses.1 hl
    refine ⟨y, hy, hyid, ?_⟩
    rw [state_of_joining (Option.filter_eq_some_iff.1 hg).1]
    rfl
  first := by
    show i.abortReason = _
    rw [ho.first]
    cases log with
    | nil => rw [vainLosses_of_nil ho, List.append_nil]
    | cons l log => rfl

theorem ids_settleOnce (i : Instance) :
    i.settleOnce.heads.map Head.id = i.heads.map Head.id := by
  rw [show i.settleOnce.heads = i.heads.map (giveUp i.brokenForks) from rfl, List.map_map]
  refine List.map_congr_left fun x _ => ?_
  rw [Function.comp, giveUp]
  split <;> rfl

/-- Settling keeps the record. -/
theorem OnRecord.settle (ho : i.OnRecord i.losses) (hd : (i.heads.map Head.id).Nodup) :
    i.settle.OnRecord i.settle.losses := by
  fun_induction Instance.settle i with
  | case1 i _ ih =>
    refine ih ?_ (by rwa [ids_settleOnce])
    rw [(loses_settleOnce i).losses]
    exact ho.settleOnce hd
  | case2 i _ =>
    rw [(loses_settleOnce i).losses]
    exact ho.settleOnce hd

theorem OnRecord.abortHead (ho : i.OnRecord i.losses) (hd : (i.heads.map Head.id).Nodup)
    (hk : i.heads[k]? = some h) (hu : h.state.isAborted = false) (reason : String) :
    (i.abortHead k h reason).OnRecord (i.abortHead k h reason).losses := by
  rw [abortHead_eq]
  refine OnRecord.settle ?_ ?_
  · rw [(loses_lose i k h reason).losses]
    exact ho.lose hd hk hu reason
  · rwa [show (i.lose k h reason).heads.map Head.id = i.heads.map Head.id from
      @ids_setHead i h { h with state := .aborted reason } k hk rfl]

theorem OnRecord.atJoin (ho : i.OnRecord i.losses) (hd : (i.heads.map Head.id).Nodup)
    (hk : i.heads[k]? = some h) (hu : h.state.isAborted = false) (g : Nat) :
    (i.atJoin k h g).OnRecord (i.atJoin k h g).losses :=
  OnRecord.settle (ho.setHead hd hk hu rfl) (by rwa [@ids_setHead i h (waiter h g) k hk rfl])

/-- **A step keeps the record.** -/
theorem onRecord_step {m m' : Machine} (hp : program.Pairs Safe J)
    (hm : m.Sound program Safe J) (ho : m.inst.OnRecord m.inst.losses)
    (hs : m.step? program = some m') : m'.inst.OnRecord m'.inst.losses := by
  have hd := hm.inst.distinct
  rcases Machine.step?_cases hs with ⟨-, rest, -, hinst, -, -⟩ | ⟨h, k, hr, ht⟩
  · rwa [hinst]
  · have hk := hr.getElem?
    have hu : h.state.isAborted = false := by rw [hr.ready]; rfl
    cases ht with
    | go h' on hid asks inst queue calls =>
      obtain ⟨L, hL⟩ := hm.inst.tracked
      have hgo := on fun hfetch => (hp.fork _ _ (hL h hr.mem).1 hfetch).1 rfl
      rw [inst]
      exact ho.setHead hd hk hu hgo.unaborted
    | abort reason inst queue =>
      rw [inst]
      exact ho.abortHead hd hk hu reason
    | fork first others hfetch inst queue =>
      rw [inst]
      refine ho.same ?_ (fun _ _ => lost_fork hd hk hr.ready first others) rfl
      exact heads_ne_nil_of_mem ((mem_fork hd hk).2 (.inr ⟨0, first, rfl, rfl⟩))
    | arrive hfetch inst queue =>
      obtain ⟨b, bs, hb⟩ := hm.inst.exists_branch hp hr.mem hfetch
      have hjoin := ho.atJoin hd hk hu b.group
      have hl := hm.inst.toLaid.atJoin hp hk hfetch hb
      rw [inst]
      rcases arrive_cases hd hk hb with
        ⟨-, he⟩ | ⟨-, -, he⟩ | ⟨first, place, others, -, ha, -, he⟩ <;> rw [he]
      · exact hjoin
      · exact hjoin
      · refine hjoin.same ?_ (fun _ _ => lost_merge hl.distinct ha) rfl
        exact heads_ne_nil_of_mem ((mem_merge hl.distinct ha).2 (.inl rfl))

end Record

end Instance

/-! ## Summing up -/

/-- What the heads of an instance are like that has a status. -/
def Status.Fits (heads : List Head) : Status → Prop
  | starting => False
  | active => ∃ h ∈ heads, h.isTerminal = false ∧ h.state.isWaiting = false
  | waiting => (∃ h ∈ heads, h.isTerminal = false) ∧
    ∀ h ∈ heads, h.isTerminal = false → h.state.isWaiting = true
  | finished => ∀ h ∈ heads, h.state = .finished
  | aborted => (∀ h ∈ heads, h.isTerminal = true) ∧ ∃ h ∈ heads, h.state.isAborted = true

/-- Heads fit one status only. -/
theorem Status.Fits.unique {heads : List Head} {s s' : Status} (hs : s.Fits heads)
    (hs' : s'.Fits heads) : s = s' := by
  have hfinished {h : Head} (he : h.state = .finished) :
      h.isTerminal = true ∧ h.state.isAborted = false := by
    rw [Head.isTerminal, he]
    exact ⟨rfl, rfl⟩
  cases s <;> cases s' <;> grind [Status.Fits]

namespace Instance

/-- The heads an instance has lost since it was another one. -/
def lossesSince (i' i : Instance) : List (HeadId × String) :=
  (i'.observations.drop i.observations.length).filterMap Observation.loss?

/-- The heads that an abort from outside stops, all of them for the reason that is given. -/
def stopped (i : Instance) (reason : String) : List (HeadId × String) :=
  if i.status.isTerminal then [] else i.liveHeads.map fun h => (h.id, reason)

/-- The instances that calls can lead to, each with the heads that were aborted on the way, in the
order in which they were. -/
inductive Course (program : Program) : Instance → List (HeadId × String) → Prop
  | start (id : InstanceId) (flow : FlowId) (priority : Int) (createdAt : Nat)
      (parent : Option InstanceId) (bindings : Bindings) (specificity : Nat) (w : World) :
      Course program
        ((spawn id flow priority createdAt parent bindings specificity).start program w).1
        (lossesSince
          ((spawn id flow priority createdAt parent bindings specificity).start program w).1
          (spawn id flow priority createdAt parent bindings specificity))
  | advance {i : Instance} {log : List (HeadId × String)} (w : World) (id : HeadId) (e : Event)
      {r : Instance × World × Effects} (before : Course program i log)
      (moved : i.advance? program w id e = some r) : Course program r.1 (log ++ r.1.lossesSince i)
  | abort {i : Instance} {log : List (HeadId × String)} (reason : String)
      (before : Course program i log) :
      Course program (i.abort reason) (log ++ i.stopped reason)

/-- What is known about an instance agrees with its heads, of which some were aborted. -/
structure Agrees (i : Instance) (log : List (HeadId × String)) : Prop where
  manned : i.heads ≠ []
  /-- The status is the one that the heads fit. -/
  status : ∀ s, i.status = s ↔ s.Fits i.heads
  /-- There is a reason exactly if some head was aborted. -/
  reason : i.abortReason.isSome = true ↔ ∃ h ∈ i.heads, h.state.isAborted = true
  /-- It is the reason of the head that was aborted first. -/
  first : i.abortReason = log.head?.map Prod.snd
  /-- The log has the heads that were aborted, each with its reason. -/
  mem : ∀ id reason, (id, reason) ∈ log ↔ ∃ h ∈ i.heads, h.id = id ∧ h.state = .aborted reason
  once : (log.map Prod.fst).Nodup
  /-- The end of the instance was observed exactly if it has ended, as what it is. -/
  closing : i.observations.filter Observation.isClosing = i.closing
  /-- And no more than once. -/
  closed : i.observations.countP Observation.isClosing = if i.status.isTerminal then 1 else 0
  /-- What a call says has become of the instance is its status. -/
  progressed : i.reaction = .progressed ↔ i.status.isTerminal = false
  finished : i.reaction = .finished ↔ i.status = .finished
  aborted : ∀ reason, i.reaction = .aborted reason ↔
    i.status = .aborted ∧ i.abortReason = some reason

section Calls

variable {program : Program} {Safe : Nat → Prop} {J : Nat → List Nat} {i i' : Instance}
  {log : List (HeadId × String)} {id : HeadId} {reason : String}

theorem OnRecord.isSome_iff (ho : i.OnRecord log) :
    i.abortReason.isSome = true ↔ ∃ h ∈ i.heads, h.state.isAborted = true := by
  have hlog : i.abortReason.isSome = true ↔ ∃ l, l ∈ log := by
    rw [ho.first, Option.isSome_map]
    cases log with
    | nil => simp
    | cons l log => exact ⟨fun _ => ⟨l, List.mem_cons_self⟩, fun _ => rfl⟩
  rw [hlog]
  constructor
  · rintro ⟨⟨id, reason⟩, hmem⟩
    obtain ⟨h, hh, -, ha⟩ := (ho.mem id reason).1 hmem
    exact ⟨h, hh, isAborted_iff.2 ⟨reason, ha⟩⟩
  · rintro ⟨h, hh, ha⟩
    obtain ⟨reason, ha⟩ := isAborted_iff.1 ha
    exact ⟨(h.id, reason), (ho.mem h.id reason).2 ⟨h, hh, rfl, ha⟩⟩

/-- What the heads amount to is the status that they fit. -/
theorem OnRecord.fits_summary (ho : i.OnRecord log) : i.summary.Fits i.heads := by
  have hlive {h : Head} : h ∈ i.liveHeads ↔ h ∈ i.heads ∧ h.isTerminal = false := by
    rw [liveHeads, List.mem_filter, Bool.not_eq_true']
  rw [summary]
  split
  · next hall =>
    have hall := List.all_eq_true.1 hall
    split
    · next hsome => exact ⟨hall, ho.isSome_iff.1 hsome⟩
    · next hnone =>
      intro h hh
      have hterminal := hall h hh
      cases hs : h.state with
      | finished => rfl
      | aborted reason =>
        exact absurd (ho.isSome_iff.2 ⟨h, hh, by rw [hs]; rfl⟩) hnone
      | _ => rw [Head.isTerminal, hs] at hterminal; cases hterminal
  · next hall =>
    obtain ⟨x, hx, hxlive⟩ : ∃ h ∈ i.heads, h.isTerminal = false := by simpa using hall
    split
    · next hw =>
      exact ⟨⟨x, hx, hxlive⟩, fun h hh hl => List.all_eq_true.1 hw h (hlive.2 ⟨hh, hl⟩)⟩
    · next hw =>
      obtain ⟨h, hh, hwait⟩ : ∃ h ∈ i.liveHeads, h.state.isWaiting = false := by simpa using hw
      exact ⟨h, (hlive.1 hh).1, (hlive.1 hh).2, hwait⟩

theorem status_refresh (hlive : i.status.isTerminal = false) : i.refresh.status = i.summary := by
  rw [refresh, if_neg (Bool.eq_false_iff.1 hlive)]
  simp only
  split <;> rfl

theorem abortReason_refresh (i : Instance) : i.refresh.abortReason = i.abortReason := by
  rw [refresh]
  split
  · rfl
  · simp only
    split <;> rfl

/-- **Bringing the status up to date makes everything agree.** -/
theorem OnRecord.agrees_refresh (ho : i.OnRecord log) (hlive : i.status.isTerminal = false)
    (hopen : i.observations.filter Observation.isClosing = []) : i.refresh.Agrees log := by
  have hreports := Loses.refresh (loses_nil rfl rfl rfl : i.Loses i []) hlive
  have hclosing : i.refresh.observations.filter Observation.isClosing = i.refresh.closing := by
    rw [hreports.observations, List.filter_append, isClosing_closing, List.map_nil,
      List.append_nil, hopen, List.nil_append]
  have hreason : i.refresh.abortReason.isSome = true ↔
      ∃ h ∈ i.refresh.heads, h.state.isAborted = true := by
    rw [heads_refresh, abortReason_refresh]
    exact ho.isSome_iff
  have hstatus (s : Status) : i.refresh.status = s ↔ s.Fits i.refresh.heads := by
    rw [heads_refresh, status_refresh hlive]
    exact ⟨fun hs => hs ▸ ho.fits_summary, fun hs => ho.fits_summary.unique hs⟩
  refine ⟨by rw [heads_refresh]; exact ho.manned, hstatus, hreason,
    (abortReason_refresh i).trans ho.first, by rw [heads_refresh]; exact ho.mem, ho.once,
    hclosing, ?_, ?_, ?_, ?_⟩
  · rw [List.countP_eq_length_filter, hclosing, length_closing]
  · rw [reaction]
    cases i.refresh.status <;> simp [Status.isTerminal]
  · rw [reaction]
    cases i.refresh.status <;> simp
  · intro reason
    rw [reaction]
    cases hs : i.refresh.status with
    | aborted =>
      obtain ⟨reason', hsome⟩ := Option.isSome_iff_exists.1 (hreason.2 ((hstatus _).1 hs).2)
      simp [hsome]
    | _ => simp

theorem losses_of_prefix (hobs : i.observations <+: i'.observations) :
    i'.losses = i.losses ++ i'.lossesSince i := by
  rw [Instance.losses, losses, lossesSince, ← List.filterMap_append,
    List.prefix_iff_eq_append.1 hobs]

theorem Reports.prefix {lost : List (HeadId × String)} (hr : i.Reports i' lost) :
    i.observations <+: i'.observations := by
  rw [hr.observations, List.append_assoc]
  exact List.prefix_append ..

/-- A call that runs heads makes everything agree. -/
theorem agrees_outcome (hp : program.Pairs Safe J) {m : Machine} (hm : m.Sound program Safe J)
    (ho : m.inst.OnRecord m.inst.losses) (hlive : m.inst.status.isTerminal = false)
    (hopen : m.inst.observations.filter Observation.isClosing = []) :
    (m.run program).outcome.1.Agrees (m.run program).outcome.1.losses := by
  obtain ⟨lost, hlost⟩ := exists_loses_run program m
  have hrun := (Machine.run_of_step
    (P := fun m => m.Sound program Safe J ∧ m.inst.OnRecord m.inst.losses)
    (fun m m' hm hs => ⟨hm.1.step hp hs, onRecord_step hp hm.1 hm.2 hs⟩) ⟨hm, ho⟩).2
  have hlive' : (m.run program).inst.status.isTerminal = false := by rwa [hlost.status]
  have hreports := Loses.refresh (loses_nil rfl rfl rfl : (m.run program).inst.Loses _ []) hlive'
  have hlosses : (m.run program).outcome.1.losses = (m.run program).inst.losses := by
    rw [Machine.outcome, losses, hreports.observations, List.filterMap_append, loss?_closing,
      List.map_nil, List.append_nil, List.append_nil, losses]
  rw [hlosses]
  refine hrun.agrees_refresh hlive' ?_
  rw [hlost.observations, List.filter_append, hopen, isClosing_lossOf]
  rfl

theorem onRecord_spawn (id : InstanceId) (flow : FlowId) (priority : Int) (createdAt : Nat)
    (parent : Option InstanceId) (bindings : Bindings) (specificity : Nat) :
    (spawn id flow priority createdAt parent bindings specificity).OnRecord [] := by
  refine ⟨List.cons_ne_nil _ _, fun id reason => ⟨nofun, ?_⟩, List.nodup_nil, rfl⟩
  rintro ⟨x, hx, -, ha⟩
  rw [List.mem_singleton.1 hx] at ha
  cases ha

/-- A head that an event moves was not aborted, and is not. -/
theorem Agrees.advancing (ha : i.Agrees i.losses) (hi : i.Sound program Safe J) {w : World}
    {e : Event} {m : Machine} (hm : Machine.advancing? i w id e = some m) :
    m.inst.OnRecord m.inst.losses ∧ m.inst.status = i.status ∧
      m.inst.observations = i.observations := by
  rw [Machine.advancing?] at hm
  split at hm
  · cases hm
  · simp only [Option.bind_eq_bind, Option.bind_eq_some_iff, Prod.exists, Option.pure_def,
      Option.some.injEq] at hm
    obtain ⟨h, k, hslot, x, hx, rfl⟩ := hm
    have hk := Machine.getElem?_of_slot? hslot
    have hst := hi.stands h (List.mem_of_getElem? hk)
    have ho : i.OnRecord i.losses := ⟨ha.manned, ha.mem, ha.once, ha.first⟩
    exact ⟨ho.setHead hi.distinct hk (Machine.resume_mem_exits hst hx).2
      (Machine.goesOn_resume hst hx w).unaborted, rfl, rfl⟩

/-! ## Aborts from outside -/

theorem mem_stopped (hlive : i.status.isTerminal = false) {r : String} :
    (id, r) ∈ i.stopped reason ↔
      (∃ h ∈ i.heads, h.isTerminal = false ∧ h.id = id) ∧ r = reason := by
  rw [stopped, if_neg (Bool.eq_false_iff.1 hlive), List.mem_map]
  constructor
  · rintro ⟨h, hh, he⟩
    cases he
    obtain ⟨hh, hl⟩ := List.mem_filter.1 hh
    exact ⟨⟨h, hh, Bool.not_eq_true' _ ▸ hl, rfl⟩, rfl⟩
  · rintro ⟨⟨h, hh, hl, rfl⟩, rfl⟩
    exact ⟨h, List.mem_filter.2 ⟨hh, by rw [hl]; rfl⟩, rfl⟩

/-- An abort from outside puts all live heads on record. -/
theorem OnRecord.stopAll (ho : i.OnRecord log) (hd : (i.heads.map Head.id).Nodup)
    (hlive : i.status.isTerminal = false) (hsome : ∃ h ∈ i.heads, h.isTerminal = false)
    (reason : String) : (i.stopAll reason).OnRecord (log ++ i.stopped reason) where
  manned := by
    rw [Instance.stopAll, ne_eq, List.map_eq_nil_iff]
    exact ho.manned
  mem id r := by
    rw [List.mem_append, ho.mem, mem_stopped hlive]
    constructor
    · rintro (⟨h, hh, rfl, ha⟩ | ⟨⟨h, hh, hl, rfl⟩, rfl⟩) <;>
        refine ⟨_, List.mem_map_of_mem hh, ?_⟩
      · rw [if_pos (by rw [Head.isTerminal, ha]; rfl)]
        exact ⟨rfl, ha⟩
      · rw [if_neg (Bool.eq_false_iff.1 hl)]
        exact ⟨rfl, rfl⟩
    · rintro ⟨x, hx, rfl, ha⟩
      obtain ⟨h, hh, rfl⟩ := List.mem_map.1 hx
      split at ha
      · next ht => exact .inl ⟨h, hh, by rw [if_pos ht], ha⟩
      · next hl =>
        refine .inr ⟨⟨h, hh, by simpa using hl, by rw [if_neg hl]⟩, ?_⟩
        exact (HeadState.aborted.inj ha).symm
  once := by
    have hids : ((i.stopped reason).map Prod.fst).Sublist (i.heads.map Head.id) := by
      rw [stopped, if_neg (Bool.eq_false_iff.1 hlive), List.map_map]
      exact List.filter_sublist.map Head.id
    refine ho.nodup_append hd (hd.sublist hids) fun l hmem => ?_
    obtain ⟨⟨y, hy, hl, hyid⟩, -⟩ := (mem_stopped hlive).1 hmem
    refine ⟨y, hy, hyid, Bool.eq_false_iff.2 fun ha => ?_⟩
    obtain ⟨r, ha⟩ := isAborted_iff.1 ha
    rw [Head.isTerminal, ha] at hl
    cases hl
  first := by
    show some (i.abortReason.getD reason) = _
    rw [ho.first]
    cases log with
    | cons l log => rfl
    | nil =>
      obtain ⟨h, hh, hl⟩ := hsome
      cases hs : i.stopped reason with
      | nil =>
        have hmem : (h.id, reason) ∈ i.stopped reason :=
          (mem_stopped hlive).2 ⟨⟨h, hh, hl, rfl⟩, rfl⟩
        rw [hs] at hmem
        cases hmem
      | cons l rest =>
        have hmem : l ∈ i.stopped reason := by rw [hs]; exact .head _
        rw [List.nil_append, List.head?_cons, Option.map_some, ((mem_stopped hlive).1 hmem).2]
        rfl

/-! ## Any calls -/

/-- An instance that has not ended has a live head. -/
theorem Agrees.exists_live (ha : i.Agrees log) (hlive : i.status.isTerminal = false) :
    ∃ h ∈ i.heads, h.isTerminal = false := by
  have hfits := (ha.status _).1 rfl
  cases hs : i.status with
  | starting => rw [hs] at hfits; cases hfits
  | active =>
    rw [hs] at hfits
    obtain ⟨h, hh, hl, -⟩ := hfits
    exact ⟨h, hh, hl⟩
  | waiting => rw [hs] at hfits; exact hfits.1
  | finished => rw [hs] at hlive; cases hlive
  | aborted => rw [hs] at hlive; cases hlive

theorem Course.reached (hc : i.Course program log) : i.Reached program := by
  induction hc with
  | start => exact .start ..
  | advance w id e before moved ih => exact .advance w id e ih moved
  | abort reason before ih => exact .abort reason ih

/-- The instances that calls can lead to have a course. -/
theorem reached_iff_exists_course : i.Reached program ↔ ∃ log, i.Course program log := by
  refine ⟨fun hi => ?_, fun ⟨_, hc⟩ => hc.reached⟩
  induction hi with
  | start => exact ⟨_, .start ..⟩
  | advance w id e before moved ih =>
    obtain ⟨log, hc⟩ := ih
    exact ⟨_, .advance w id e hc moved⟩
  | abort reason before ih =>
    obtain ⟨log, hc⟩ := ih
    exact ⟨_, .abort reason hc⟩

/-- Every call makes everything agree again.  While an instance has not ended, all heads that it has
lost were reported. -/
theorem Course.agrees (hp : program.Pairs Safe J) (hc : i.Course program log) :
    i.Agrees log ∧ (i.status.isTerminal = false → log = i.losses) := by
  induction hc with
  | start id flow priority createdAt parent bindings specificity w =>
    obtain ⟨lost, hlost⟩ := exists_reports_start program
      (i := spawn id flow priority createdAt parent bindings specificity) rfl w
    have hlosses := losses_of_prefix hlost.prefix
    rw [show (spawn id flow priority createdAt parent bindings specificity).losses = [] from rfl,
      List.nil_append] at hlosses
    rw [← hlosses]
    exact ⟨agrees_outcome hp (Machine.sound_starting hp ..) (onRecord_spawn ..) rfl rfl,
      fun _ => rfl⟩
  | @advance i log w id e r before moved ih =>
    obtain ⟨hagrees, hlog⟩ := ih
    have hlive := not_ended_of_advance? moved
    have hrests := before.reached.rests hp
    obtain ⟨lost, hlost⟩ := exists_reports_advance? moved
    rw [hlog hlive] at hagrees ⊢
    rw [← losses_of_prefix hlost.prefix]
    rw [advance?_eq] at moved
    obtain ⟨m, hm, rfl⟩ := Option.map_eq_some_iff.1 moved
    obtain ⟨ho, hstatus, hobs⟩ := hagrees.advancing hrests.sound hm
    refine ⟨agrees_outcome hp (Machine.sound_advancing hp hrests.sound hrests.idle hm) ho ?_ ?_,
      fun _ => rfl⟩
    · rwa [hstatus]
    · rw [hobs, hagrees.closing, closing_of_live hlive]
  | @abort i log reason before ih =>
    obtain ⟨hagrees, hlog⟩ := ih
    cases hlive : i.status.isTerminal with
    | true =>
      rw [abort_eq, if_pos hlive, stopped, if_pos hlive, List.append_nil]
      exact ⟨hagrees, hlog⟩
    | false =>
      have ho : i.OnRecord log := ⟨hagrees.manned, hagrees.mem, hagrees.once, hagrees.first⟩
      rw [abort_eq, if_neg (Bool.eq_false_iff.1 hlive)]
      refine ⟨(ho.stopAll (before.reached.rests hp).sound.distinct hlive
        (hagrees.exists_live hlive) reason).agrees_refresh hlive ?_, fun hlive' => ?_⟩
      · exact hagrees.closing.trans (closing_of_live hlive)
      · -- Nobody is left who could go on.
        have hsome := live_refresh hlive'
        rw [heads_refresh, List.all_eq_true.2 fun x hx => isTerminal_of_mem_stopAll hx] at hsome
        cases hsome

end Calls

end Instance

/-- **The status of an instance sums up its heads.**  Whatever calls have led to an instance of a
flow that may be loaded, it has heads, and its status is the one that they fit; it has a reason for
its abort exactly if some head was aborted, and it is the reason of the head that was first; that it
has ended was observed exactly if it has, and once; and what a call says has become of it is its
status. -/
theorem status_sums_up_heads {f : Flow} {l : LoadedFlow} (hl : f.load = .ok l) (i : Instance) :
    (i.Reached l.program ↔ ∃ log, i.Course l.program log) ∧
      ∀ log, i.Course l.program log → i.Agrees log := by
  obtain ⟨Safe, J, hp⟩ := exists_pairs hl
  exact ⟨Instance.reached_iff_exists_course, fun log hc => (hc.agrees hp).1⟩

end

/-- A flow of which one branch waits for an event and the other one gives up. -/
def halfHearted : Flow where
  id := ⟨"half"⟩
  description := none
  priority := none
  activation := none
  body := [.fork [[.expect ⟨"left", []⟩], [.abort "no"]], .join]

/-- An instance of it that was started. -/
def begun : Instance :=
  ((Instance.spawn ⟨"i"⟩ halfHearted.id 0 0 none [] 0).start (.ofBody halfHearted.body)
    ⟨[], .seeded 0⟩).1

/-- One head is aborted from within and the other one from outside; the first reason stays. -/
theorem status_sums_up_heads_halfHearted :
    halfHearted.load = .ok ⟨halfHearted, .ofBody halfHearted.body⟩ ∧
      begun.status = .active ∧ begun.Agrees [(⟨1⟩, "no")] ∧
      (begun.abort "stop").status = .aborted ∧ (begun.abort "stop").abortReason = some "no" ∧
      (begun.abort "stop").Agrees [(⟨1⟩, "no"), (⟨0⟩, "stop")] := by
  have hl : halfHearted.load = .ok ⟨halfHearted, .ofBody halfHearted.body⟩ := rfl
  have hlog : begun.lossesSince (Instance.spawn ⟨"i"⟩ halfHearted.id 0 0 none [] 0) =
      [(⟨1⟩, "no")] := by decide +kernel
  have hbegun : begun.Course (.ofBody halfHearted.body) [(⟨1⟩, "no")] := by
    rw [← hlog]
    exact .start ..
  have hstopped : begun.stopped "stop" = [(⟨0⟩, "stop")] := by decide +kernel
  have hended : (begun.abort "stop").Course (.ofBody halfHearted.body)
      [(⟨1⟩, "no"), (⟨0⟩, "stop")] := by
    rw [show [((⟨1⟩ : HeadId), "no"), (⟨0⟩, "stop")] = [(⟨1⟩, "no")] ++ begun.stopped "stop" by
      rw [hstopped]
      rfl]
    exact hbegun.abort "stop"
  exact ⟨hl, by decide +kernel, (status_sums_up_heads hl _).2 _ hbegun, by decide +kernel,
    by decide +kernel, (status_sums_up_heads hl _).2 _ hended⟩

end EventFlow

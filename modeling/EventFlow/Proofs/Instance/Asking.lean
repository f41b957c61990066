import EventFlow.Proofs.Id.Text
import EventFlow.Proofs.Instance.Sound

/-!
# Who waits for the result of a call

A head comes to wait for a result in one way only, by asking for the call, and it goes on in one way
only, by an event that answers.  This file follows the heads that wait through everything that can
happen to an instance, whatever its program.

## What is here

* `Instance.WaitsOn` says that a head waits for the result of a call, and `Event.Answers` that an
  event is this result.
* `Instance.Regular` is what the engine may rely on: no two heads have the same identity, and an
  instance that has ended has no live head.
* **`start_spec`**, **`advance?_spec`** and `abort_spec`: what calls make of a regular instance.
  Who waits afterwards did so before, and was not moved, or has asked for the call.
-/

set_option autoImplicit false

namespace EventFlow

variable {Compiled Found : Type} [Query.Library Compiled Found]

/-! ## Waiting and answering -/

/-- An event is the result of a call. -/
def Event.Answers (e : Event) (n : InvocationId) : Prop :=
  e.name = Event.actionResultName ∧ e.text? "invocation_id" = some n.text

theorem Event.answers_of_invocation? {e : Event} {n : InvocationId} (h : e.invocation? = some n) :
    e.Answers n := by
  rw [Event.invocation?] at h
  split at h
  · next hname =>
    obtain ⟨text, ht, rfl⟩ := Option.map_eq_some_iff.1 h
    exact ⟨hname, ht⟩
  · cases h

theorem Event.answers_actionResult (n : InvocationId) (action : String) (o : Outcome) :
    (Event.actionResult n action o).Answers n := by
  refine ⟨rfl, ?_⟩
  have hpath : Path.segments "invocation_id" = ["invocation_id"] := by decide
  cases o <;>
    simp [Event.actionResult, Event.text?, Event.field?, Path.get?, Path.getAt?, hpath,
      Path.descend, Dict.ofList, Dict.putAll, Dict.get?_put, Dict.empty, Json.str?]

namespace Instance

/-- The head with an identity waits for the result of a call. -/
def WaitsOn (i : Instance) (h : HeadId) (n : InvocationId) : Prop :=
  ∃ x ∈ i.heads, x.id = h ∧ ∃ v r, x.state = .waiting n v r

/-- The heads are numbered, and an instance that has ended has no live head. -/
structure Regular (i : Instance) : Prop where
  distinct : (i.heads.map Head.id).Nodup
  fresh : ∀ h ∈ i.heads, h.id.number < i.nextHead
  ended : i.status.isTerminal = true → ∀ h ∈ i.heads, h.isTerminal = true

end Instance

/-- All emissions come from an instance, and what they bring about has an identity of its own. -/
def Effects.Stamped (f : Effects) (i : InstanceId) : Prop :=
  ∀ m ∈ f.emissions, m.instanceId = i ∧ m.id.length = idLength

/-- Some effects go beyond others only by what an instance has asked for. -/
structure Effects.Grows (f f' : Effects) (i : InstanceId) : Prop where
  asks : ∀ h n, f.Asks i h n → f'.Asks i h n
  stamped : f.Stamped i → f'.Stamped i

theorem grows_of_append {f f' new : Effects} {i : InstanceId}
    (hf : f'.emissions = f.emissions ++ new.emissions) (hnew : new.Stamped i) : f.Grows f' i := by
  refine ⟨fun h n ha => ?_, fun hst m hm => ?_⟩
  · obtain ⟨m, hm, hasks⟩ := ha
    refine ⟨m, ?_, hasks⟩
    rw [hf]
    exact List.mem_append_left _ hm
  · rw [hf, List.mem_append] at hm
    rcases hm with hm | hm
    · exact hst m hm
    · exact hnew m hm

section Steps

open Instance

variable {program : Program} {i i' : Instance} {h x : Head} {k : Nat} {w : World}
  {n : InvocationId} {v : Option Variable} {r : Nat}

/-! ## Steps -/

theorem frame_settle (i : Instance) : i.settle.id = i.id ∧ i.settle.status = i.status := by
  fun_induction settle i with
  | case1 i _ ih => exact ih
  | case2 i _ => exact ⟨rfl, rfl⟩

theorem stamped_none (i : InstanceId) : Effects.none.Stamped i := List.forall_mem_nil _

/-- An instruction asks on behalf of its instance, and under new identities. -/
theorem stamped_execute (i : Instance) (w : World) (h : Head) (instr : Instruction) :
    (i.execute w h instr).2.2.Stamped i.id := by
  have hnone := stamped_none i.id
  cases instr with
  | send event =>
    simp only [execute, executeSend]
    split
    · exact hnone
    · intro m hm
      obtain rfl := List.mem_singleton.1 hm
      exact ⟨rfl, w.ids.length_next⟩
  | call spec =>
    simp only [execute, executeCall]
    split
    · exact hnone
    · split <;>
      · intro m hm
        obtain rfl := List.mem_singleton.1 hm
        exact ⟨rfl, w.ids.length_next⟩
  | branch condition otherwise =>
    simp only [execute]
    split <;> exact hnone
  | fork starts => cases starts <;> exact hnone
  | assign target value =>
    simp only [execute]
    split <;> exact hnone
  | startTimer duration timer => exact List.forall_mem_nil _
  | startFlow flow child => exact List.forall_mem_nil _
  | _ => exact hnone

/-- `i'` is `i` with heads moved, aborted or merged; none is added, and none begins to wait for a
result. -/
structure Instance.Thins (i i' : Instance) : Prop where
  id : i'.id = i.id
  status : i'.status = i.status
  nextHead : i'.nextHead = i.nextHead
  distinct : (i'.heads.map Head.id).Nodup
  ids : ∀ x ∈ i'.heads, ∃ y ∈ i.heads, y.id = x.id
  waits : ∀ x ∈ i'.heads, ∀ n v r, x.state = .waiting n v r → x ∈ i.heads

theorem thins_refl (hd : (i.heads.map Head.id).Nodup) : i.Thins i :=
  ⟨rfl, rfl, rfl, hd, fun x hx => ⟨x, hx, rfl⟩, fun _ hx _ _ _ _ => hx⟩

theorem Instance.Thins.trans {i'' : Instance} (h : i.Thins i') (h' : i'.Thins i'') :
    i.Thins i'' := by
  refine ⟨h'.id.trans h.id, h'.status.trans h.status, h'.nextHead.trans h.nextHead, h'.distinct,
    fun x hx => ?_, fun x hx n v r hw => h.waits x (h'.waits x hx n v r hw) n v r hw⟩
  obtain ⟨y, hy, hid⟩ := h'.ids x hx
  obtain ⟨z, hz, hid'⟩ := h.ids y hy
  exact ⟨z, hz, hid'.trans hid⟩

theorem thins_setHead {h' : Head} (hd : (i.heads.map Head.id).Nodup) (hk : i.heads[k]? = some h)
    (hid : h'.id = h.id) (hw : ∀ n v r, h'.state ≠ .waiting n v r) :
    i.Thins (i.setHead k h') := by
  refine ⟨rfl, rfl, rfl, by rwa [ids_setHead hk hid], fun x hx => ?_, fun x hx n v r hx' => ?_⟩
  · rcases (mem_setHead hd hk).1 hx with rfl | ⟨hx, -⟩
    · exact ⟨h, List.mem_of_getElem? hk, hid.symm⟩
    · exact ⟨x, hx, rfl⟩
  · rcases (mem_setHead hd hk).1 hx with rfl | ⟨hx, -⟩
    · exact absurd hx' (hw n v r)
    · exact hx

/-- Aborts only thin out an instance. -/
theorem Instance.Stops.thins (hs : i.Stops i') (hd : (i.heads.map Head.id).Nodup)
    (hid : i'.id = i.id) (hstatus : i'.status = i.status) : i.Thins i' := by
  refine ⟨hid, hstatus, hs.nextHead, by rwa [hs.ids], fun x hx => ?_, fun x hx n v r hw => ?_⟩
  · rcases hs.mem hx with hx | ⟨y, hy, reason, rfl⟩
    · exact ⟨x, hx, rfl⟩
    · exact ⟨y, hy, rfl⟩
  · rcases hs.mem hx with hx | ⟨y, hy, reason, rfl⟩
    · exact hx
    · cases hw

theorem thins_abortHead (hd : (i.heads.map Head.id).Nodup) (hk : i.heads[k]? = some h)
    (reason : String) : i.Thins (i.abortHead k h reason) := by
  have hset : i.Thins (i.setHead k { h with state := .aborted reason }) :=
    thins_setHead hd hk rfl (fun _ _ _ => nofun)
  have hframe := frame_settle
    { (i.setHead k { h with state := .aborted reason }).observe (.headAborted i.id h.id reason) with
      abortReason := some (i.abortReason.getD reason) }
  exact hset.trans ((stops_abortHead ..).thins hset.distinct hframe.1 hframe.2)

theorem thins_atJoin (hd : (i.heads.map Head.id).Nodup) (hk : i.heads[k]? = some h) (g : Nat) :
    i.Thins (i.atJoin k h g) := by
  have hset : i.Thins (i.setHead k (waiter h g)) := thins_setHead hd hk rfl (fun _ _ _ => nofun)
  have hframe := frame_settle (i.setHead k (waiter h g))
  exact hset.trans ((stops_settle _).thins hset.distinct hframe.1 hframe.2)

theorem thins_merge {g place : Nat} {first : Head} {others : List (Head × Nat)}
    (hd : (i.heads.map Head.id).Nodup) (ha : i.arrived g = (first, place) :: others) :
    i.Thins (i.merge g first place others) := by
  refine ⟨rfl, rfl, rfl, nodup_merge hd ha, fun x hx => ?_, fun x hx n v r hw => ?_⟩
  · rcases (mem_merge hd ha).1 hx with rfl | ⟨hx, -⟩
    · exact ⟨first, (first_of_arrived ha).1, rfl⟩
    · exact ⟨x, hx, rfl⟩
  · rcases (mem_merge hd ha).1 hx with rfl | ⟨hx, -⟩
    · cases hw
    · exact hx

theorem thins_arrive (hd : (i.heads.map Head.id).Nodup) (hk : i.heads[k]? = some h)
    (hr : h.state = .ready) : i.Thins (i.arrive k h).1 := by
  cases hb : h.branches with
  | nil =>
    rw [arrive]
    rw [hb]
    refine thins_setHead hd hk rfl fun n v r hw => ?_
    rw [Head.advance, Head.goTo, hr] at hw
    cases hw
  | cons b bs =>
    have hat := thins_atJoin hd hk b.group
    rcases arrive_cases hd hk hb with
      ⟨-, he⟩ | ⟨-, -, he⟩ | ⟨first, place, others, -, ha, -, he⟩ <;> rw [he]
    · exact hat
    · exact hat
    · exact hat.trans (thins_merge hat.distinct ha)

namespace Machine

variable {m m' : Machine}

/-- A step only adds to what was asked for. -/
theorem grows_of_step? (hs : m.step? program = some m') :
    m.effects.Grows m'.effects m.inst.id := by
  rw [step?] at hs
  split at hs
  · cases hs
  · split at hs
    · split at hs
      · next h k _ _ =>
        cases hs
        have hst := stamped_execute m.inst m.world h (program.fetch h.position)
        rw [turn]
        generalize m.inst.execute m.world h (program.fetch h.position) = r at hst ⊢
        obtain ⟨turn, world, effects⟩ := r
        refine grows_of_append ?_ hst
        cases turn <;> simp [Effects.append, Effects.ofHeads]
      · cases hs
        exact ⟨fun _ _ ha => ha, fun hst => hst⟩
    · cases hs
      exact ⟨fun _ _ ha => ha, fun hst => hst⟩

/-! ## What follows from an instance -/

/-- A machine on its way from an instance. -/
structure Follows (i : Instance) (m : Machine) : Prop where
  id : m.inst.id = i.id
  status : m.inst.status = i.status
  distinct : (m.inst.heads.map Head.id).Nodup
  fresh : ∀ h ∈ m.inst.heads, h.id.number < m.inst.nextHead
  /-- Who waits did so before, or has asked. -/
  waits : ∀ h n, m.inst.WaitsOn h n → i.WaitsOn h n ∨ m.effects.Asks i.id h n
  stamped : m.effects.Stamped i.id

theorem Follows.of_thins (hm : Follows i m) (ht : m.inst.Thins m'.inst)
    (hg : m.effects.Grows m'.effects i.id) : Follows i m' := by
  refine ⟨ht.id.trans hm.id, ht.status.trans hm.status, ht.distinct, ?_, ?_, hg.stamped hm.stamped⟩
  · intro x hx
    obtain ⟨y, hy, hid⟩ := ht.ids x hx
    rw [ht.nextHead, ← hid]
    exact hm.fresh y hy
  · rintro h n ⟨x, hx, rfl, v, r, hw⟩
    exact (hm.waits _ _ ⟨x, ht.waits x hx n v r hw, rfl, v, r, hw⟩).imp_right (hg.asks _ _)

/-- A head that has executed an instruction of its own waits only for what it has asked for. -/
theorem Follows.goOn (hm : Follows i m) {h' : Head} (hk : m.inst.heads[k]? = some h)
    (hid : h'.id = h.id) (hinst : m'.inst = m.inst.setHead k h')
    (hasks : ∀ n v r, h'.state = .waiting n v r → m'.effects.Asks m.inst.id h.id n)
    (hg : m.effects.Grows m'.effects i.id) : Follows i m' := by
  have hd := hm.distinct
  refine ⟨by rw [hinst]; exact hm.id, by rw [hinst]; exact hm.status, ?_, ?_, ?_,
    hg.stamped hm.stamped⟩
  · rw [hinst, ids_setHead hk hid]
    exact hd
  · intro x hx
    rw [hinst] at hx ⊢
    rcases (mem_setHead hd hk).1 hx with rfl | ⟨hx, -⟩
    · rw [hid]
      exact hm.fresh h (List.mem_of_getElem? hk)
    · exact hm.fresh x hx
  · rintro _ n ⟨x, hx, rfl, v, r, hw⟩
    rw [hinst] at hx
    rcases (mem_setHead hd hk).1 hx with rfl | ⟨hx, -⟩
    · rw [hid, ← hm.id]
      exact .inr (hasks n v r hw)
    · exact (hm.waits _ _ ⟨x, hx, rfl, v, r, hw⟩).imp_right (hg.asks _ _)

/-- The heads that a fork makes wait for nothing yet. -/
theorem Follows.forks (hm : Follows i m) (hk : m.inst.heads[k]? = some h) (hr : h.state = .ready)
    {first : Nat} {others : List Nat} (hinst : m'.inst = (m.inst.fork k h first others).1)
    (hg : m.effects.Grows m'.effects i.id) : Follows i m' := by
  have hd := hm.distinct
  refine ⟨by rw [hinst]; exact hm.id, by rw [hinst]; exact hm.status, ?_, ?_, ?_,
    hg.stamped hm.stamped⟩
  · rw [hinst]
    exact nodup_fork hd hk hm.fresh first others
  · intro x hx
    rw [hinst] at hx ⊢
    simp only [fork]
    rcases (mem_fork hd hk).1 hx with ⟨hx, -⟩ | ⟨j, start, hj, rfl⟩
    · have := hm.fresh x hx
      omega
    · have hlt := (List.getElem?_eq_some_iff.1 hj).1
      have := hm.fresh h (List.mem_of_getElem? hk)
      cases j <;> simp only [Head.goDown, Forest.forkHead, List.length_cons] at hlt ⊢ <;> omega
  · rintro _ n ⟨x, hx, rfl, v, r, hw⟩
    rw [hinst] at hx
    rcases (mem_fork hd hk).1 hx with ⟨hx, -⟩ | ⟨j, start, hj, rfl⟩
    · exact (hm.waits _ _ ⟨x, hx, rfl, v, r, hw⟩).imp_right (hg.asks _ _)
    · rw [Head.goDown, hr] at hw
      cases hw

theorem Follows.step (hm : Follows i m) (hs : m.step? program = some m') : Follows i m' := by
  have hg := grows_of_step? hs
  rw [hm.id] at hg
  have hd := hm.distinct
  rcases step?_cases hs with ⟨id, rest, -, hinst, -, -⟩ | ⟨h, k, hr, ht⟩
  · refine hm.of_thins ?_ hg
    rw [hinst]
    exact thins_refl hd
  · have hk := hr.getElem?
    cases ht with
    | go h' on hid asks inst queue calls => exact hm.goOn hk hid inst asks hg
    | abort reason inst queue =>
      refine hm.of_thins ?_ hg
      rw [inst]
      exact thins_abortHead hd hk reason
    | fork first others hfetch inst queue => exact hm.forks hk hr.ready inst hg
    | arrive hfetch inst queue =>
      refine hm.of_thins ?_ hg
      rw [inst]
      exact thins_arrive hd hk hr.ready

end Machine

/-! ## Calls -/

/-- An instance that has ended after a call has no live head. -/
theorem ended_refresh (hlive : i.status.isTerminal = false)
    (he : i.refresh.status.isTerminal = true) : ∀ h ∈ i.refresh.heads, h.isTerminal = true := by
  have hstatus : i.refresh.status = i.summary := by
    rw [refresh]
    rw [hlive, if_neg (by simp)]
    simp only
    split <;> rfl
  rw [hstatus, summary] at he
  split at he
  · next hall =>
    rw [heads_refresh]
    exact List.all_eq_true.1 hall
  · split at he <;> cases he

theorem id_refresh (i : Instance) : i.refresh.id = i.id := by
  rw [refresh]
  split
  · rfl
  · simp only
    split <;> rfl

/-- What running some heads of a regular instance leads to. -/
theorem runHeads_spec (hd : (i.heads.map Head.id).Nodup)
    (hf : ∀ h ∈ i.heads, h.id.number < i.nextHead) (hlive : i.status.isTerminal = false)
    (queue : List HeadId) :
    (i.runHeads program w queue).1.Regular ∧ (i.runHeads program w queue).1.id = i.id ∧
      (∀ h n, (i.runHeads program w queue).1.WaitsOn h n →
        i.WaitsOn h n ∨ (i.runHeads program w queue).2.2.Asks i.id h n) ∧
      (i.runHeads program w queue).2.2.Stamped i.id := by
  have hstart : Machine.Follows i ⟨i, w, .none, queue⟩ :=
    ⟨rfl, rfl, hd, hf, fun _ _ hw => .inl hw, stamped_none _⟩
  have hrun : Machine.Follows i (Machine.run program ⟨i, w, .none, queue⟩) :=
    Machine.run_of_step (fun _ _ hm hs => hm.step hs) hstart
  rw [runHeads]
  generalize Machine.run program ⟨i, w, .none, queue⟩ = m at hrun
  have hstops := stops_refresh m.inst
  refine ⟨⟨?_, ?_, ?_⟩, (id_refresh _).trans hrun.id, ?_, hrun.stamped⟩
  · rw [hstops.ids]
    exact hrun.distinct
  · intro x hx
    rw [heads_refresh] at hx
    rw [hstops.nextHead]
    exact hrun.fresh x hx
  · exact ended_refresh (by rw [hrun.status, hlive])
  · intro h n hw
    rw [WaitsOn] at hw
    rw [heads_refresh] at hw
    exact hrun.waits h n hw

/-- **What a new instance waits for it has asked for.** -/
theorem start_spec (hd : (i.heads.map Head.id).Nodup)
    (hf : ∀ h ∈ i.heads, h.id.number < i.nextHead) (hlive : i.status.isTerminal = false)
    (hnone : ∀ h n, ¬i.WaitsOn h n) :
    (i.start program w).1.Regular ∧ (i.start program w).1.id = i.id ∧
      (∀ h n, (i.start program w).1.WaitsOn h n → (i.start program w).2.2.Asks i.id h n) ∧
      (i.start program w).2.2.Stamped i.id := by
  obtain ⟨hreg, hid, hw, hst⟩ :=
    @runHeads_spec _ _ _ program i w hd hf hlive ((i.heads.filter (·.state.isReady)).map Head.id)
  exact ⟨hreg, hid, fun h n hn => (hw h n hn).resolve_left (hnone h n), hst⟩

theorem resume_head (h : Head) (x : HeadMatch) (e : Event) (w : World) :
    (resume h x e w).1.id = h.id ∧ (resume h x e w).1.state = .ready := by
  obtain ⟨bindings, hb⟩ := bindOption_head x.result (.obj e.payload)
    { h with
      bindings := x.bindings
      position := x.resume
      specificity := x.specificity
      state := .ready } w
  rw [resume, hb]
  exact ⟨rfl, rfl⟩

/-- **A head that an event has moved waits no longer, unless it has asked again.** -/
theorem advance?_spec (hi : i.Regular) {id : HeadId} {e : Event} {f : Effects} {w' : World}
    (ha : i.advance? program w id e = some (i', w', f)) :
    i'.Regular ∧ i'.id = i.id ∧
      (∀ h n, i'.WaitsOn h n → i.WaitsOn h n ∧ h ≠ id ∨ f.Asks i.id h n) ∧ f.Stamped i.id := by
  rw [advance?] at ha
  split at ha
  · cases ha
  · next hdeaf =>
    have hlive : i.status.isTerminal = false := by
      simp only [isDeafTo, Bool.or_eq_true, not_or, Bool.not_eq_true] at hdeaf
      exact hdeaf.1
    simp only [Option.bind_eq_bind, Option.bind_eq_some_iff, Prod.exists,
      Option.pure_def, Option.some.injEq] at ha
    obtain ⟨h, k, hslot, x, hx, hrun⟩ := ha
    have hk := Machine.getElem?_of_slot? hslot
    have hid : h.id = id := by
      have := List.find?_some hslot
      simpa using this
    obtain ⟨hid', hready⟩ := resume_head h x e w
    have hset := thins_setHead hi.distinct hk hid' (fun n v r hw => by rw [hready] at hw; cases hw)
    have hfresh : ∀ y ∈ (i.setHead k (resume h x e w).1).heads, y.id.number < i.nextHead := by
      intro y hy
      obtain ⟨z, hz, hzid⟩ := hset.ids y hy
      rw [← hzid]
      exact hi.fresh z hz
    obtain ⟨hreg, hid'', hw, hst⟩ :=
      @runHeads_spec _ _ _ program (i.setHead k (resume h x e w).1) (resume h x e w).2 hset.distinct
        hfresh hlive [id]
    rw [hrun] at hreg hid'' hw hst
    refine ⟨hreg, hid'', fun h' n hn => (hw h' n hn).imp_left ?_, hst⟩
    rintro ⟨y, hy, rfl, v, r, hyw⟩
    rcases (mem_setHead hi.distinct hk).1 hy with rfl | ⟨hy, hne⟩
    · rw [hready] at hyw
      cases hyw
    · exact ⟨⟨y, hy, rfl, v, r, hyw⟩, by rwa [hid] at hne⟩

/-- A head that has come to its end waits for nothing. -/
theorem not_waitsOn (ht : ∀ x ∈ i.heads, x.isTerminal = true) (h : HeadId) (n : InvocationId) :
    ¬i.WaitsOn h n := by
  rintro ⟨x, hx, -, v, r, hw⟩
  have := ht x hx
  rw [Head.isTerminal, hw] at this
  cases this

/-- An instance in which a head waits has not ended. -/
theorem Instance.Regular.live {id : HeadId} (hi : i.Regular) (hw : i.WaitsOn id n) :
    i.status.isTerminal = false := by
  by_contra ht
  exact not_waitsOn (hi.ended (by simpa using ht)) id n hw

/-- An abort from outside leaves nobody waiting. -/
theorem abort_spec (hi : i.Regular) (reason : String) :
    (i.abort reason).Regular ∧ (i.abort reason).id = i.id ∧
      ∀ h n, ¬(i.abort reason).WaitsOn h n := by
  rw [abort_eq]
  split
  · next hend => exact ⟨hi, rfl, not_waitsOn (hi.ended hend)⟩
  · next hlive =>
    have hthins := (i.stops_stopAll reason).thins hi.distinct rfl rfl
    have hlive : i.status.isTerminal = false := by simpa using hlive
    refine ⟨⟨?_, ?_, @ended_refresh (i.stopAll reason) hlive⟩, (id_refresh _).trans hthins.id,
      not_waitsOn fun x hx => ?_⟩
    · rw [heads_refresh]
      exact hthins.distinct
    · intro x hx
      rw [heads_refresh] at hx
      obtain ⟨y, hy, hid⟩ := hthins.ids x hx
      rw [(stops_refresh _).nextHead, hthins.nextHead, ← hid]
      exact hi.fresh y hy
    · rw [heads_refresh] at hx
      exact isTerminal_of_mem_stopAll hx

/-- Whoever is listed as waiting does wait. -/
theorem exists_waitsOn (hn : n ∈ i.pendingCalls) : ∃ h, i.WaitsOn h n := by
  obtain ⟨x, hx, hw⟩ := List.mem_filterMap.1 hn
  split at hw
  · next m v r hstate =>
    cases hw
    exact ⟨x.id, x, hx, rfl, v, r, hstate⟩
  · cases hw

/-! ## Answers -/

/-- The answer is what a head that waits for the result of a call expects. -/
theorem match?_of_answers {e : Event} (hs : h.state = .waiting n v r) (ha : e.Answers n) :
    (h.match? e).isSome = true := by
  obtain ⟨hname, htext⟩ := ha
  obtain ⟨j, hj, hstr⟩ := Option.bind_eq_some_iff.1 htext
  have hj' : j = .str n.text := by cases j <;> simp_all [Json.str?]
  subst hj'
  simp [Head.match?, Head.expectations, hs, resultPattern, Pattern.match?, hname,
    Pattern.matchFields?, hj, Constraint.match?, Json.same_refl]

/-- An instance with a head that waits takes notice of the answer. -/
theorem not_deaf_of_answers {e : Event} {id : HeadId} (hi : i.Regular) (hw : i.WaitsOn id n)
    (ha : e.Answers n) : i.isDeafTo e = false := by
  rw [isDeafTo, hi.live hw, addressedElsewhere, ha.1]
  rfl

theorem mem_matchingHeads {e : Event} {id : HeadId} (hi : i.Regular) (hw : i.WaitsOn id n)
    (ha : e.Answers n) : id ∈ i.matchingHeads e := by
  have hdeaf := not_deaf_of_answers hi hw ha
  obtain ⟨x, hx, rfl, v, r, hs⟩ := hw
  rw [matchingHeads, hdeaf, if_neg (by simp)]
  exact List.mem_map_of_mem (List.mem_filter.2 ⟨hx, match?_of_answers hs ha⟩)

/-- The answer does move a head that waits for it. -/
theorem advance?_of_answers {e : Event} {id : HeadId} (hi : i.Regular) (hw : i.WaitsOn id n)
    (ha : e.Answers n) (program : Program) (w : World) :
    (i.advance? program w id e).isSome = true := by
  have hdeaf := not_deaf_of_answers hi hw ha
  obtain ⟨x, hx, rfl, v, r, hs⟩ := hw
  obtain ⟨k, hslot⟩ := exists_slot hi.distinct hx
  obtain ⟨y, hy⟩ := Option.isSome_iff_exists.1 (match?_of_answers hs ha)
  rw [advance?]
  rw [hdeaf, hslot]
  simp [hy]

end Steps

end EventFlow

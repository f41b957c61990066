import EventFlow.Proofs.Engine.Apply

/-!
# Nobody waits in vain while events are left

While a queue is worked off, every head that waits for a result has its call in flight, or the
answer to its call, which has lost, is in the queue; unless this answer was thrown away earlier.
This file proves that rounds keep it so, as long as identities are handed out only once.

## What is here

* `Step.Tended` is the invariant, with `Step.Queued` for the identities of events.
* **`Engine.tended_round`** says that rounds keep it.
* `State.Tended` is what is left of it when there is no queue any more, and
  **`Engine.tended_runQueue`** says that this holds when a queue was worked off or its budget has
  run out.
-/

set_option autoImplicit false

namespace EventFlow

variable {Compiled Found : Type} [Query.Library Compiled Found]

/-- The answer to the call of a head that has lost is among some events. -/
def Engine.Lost (events : List Event) (i : InstanceId) (h : HeadId) (n : InvocationId) : Prop :=
  ∃ ev ∈ events, ev.Forgoes i h n

namespace Step

/-- The answer to the call of a head is in the queue and will be processed. -/
def Expects (s : Step) (i : InstanceId) (h : HeadId) (n : InvocationId) : Prop :=
  n.resultId ∉ s.seen ∧ Engine.Lost s.queue i h n

/-- Events have identities of their own, are results of calls that were made, or have come in. -/
structure Queued (issued : List String) (incoming : List EventId) (s : Step) : Prop where
  queue : ∀ ev ∈ s.queue, ev.id.text.length = idLength ∨
    ∃ n, n.text ∈ issued ∧ ev.id = n.resultId ∧ ev.Answers n
  seen : ∀ id ∈ s.seen, id.text.length = idLength ∨ id ∈ incoming ∨
    ∃ n : InvocationId, n.text ∈ issued ∧ id = n.resultId

/-- Who waits has a call in flight or an answer in the queue, or the answer was thrown away. -/
structure Tended (issued : List String) (incoming : List EventId) (discarded : List Event)
    (s : Step) : Prop where
  fit : s.state.Fit issued
  queued : s.Queued issued incoming
  tended : ∀ i h n, s.state.Waits i h n →
    s.state.Holds i h n ∨ Engine.Lost discarded i h n ∨ s.Expects i h n

end Step

/-- The events that come in are not called like the results of calls that are only made then. -/
def Engine.Foreign (incoming : List EventId) (issued : List String) : Prop :=
  ∀ n : InvocationId, n.text ∈ issued → n.text.length = idLength → n.resultId ∉ incoming

/-- When there is no queue any more, who waits has a call in flight, or the answer was thrown
away. -/
structure State.Tended (issued : List String) (discarded : List Event) (s : State) : Prop where
  fit : s.Fit issued
  tended : ∀ i h n, s.Waits i h n → s.Holds i h n ∨ Engine.Lost discarded i h n

theorem Engine.Foreign.left {incoming : List EventId} {issued issued' : List String}
    (hf : Foreign incoming (issued ++ issued')) : Foreign incoming issued :=
  fun n hn => hf n (List.mem_append_left _ hn)

theorem Engine.Foreign.right {incoming : List EventId} {issued issued' : List String}
    (hf : Foreign incoming (issued ++ issued')) : Foreign incoming issued' :=
  fun n hn => hf n (List.mem_append_right _ hn)

section Identities

variable {m m' : Emission} {i i' : InstanceId} {h h' : HeadId} {n n' : InvocationId}

theorem InvocationId.text_inj (hn : n.text = n'.text) : n = n' := by
  obtain ⟨text⟩ := n
  rw [show text = n'.text from hn]

theorem InvocationId.resultId_inj (hn : n.resultId = n'.resultId) : n = n' :=
  text_inj ((String.append_left_inj ":result").1 (congrArg EventId.text hn))

theorem InvocationId.length_resultId (n : InvocationId) :
    n.resultId.text.length = n.text.length + 7 := String.length_append ..

theorem Emission.Asks.id (ha : m.Asks i h n) : m.id = n.text := by
  obtain ⟨-, r, hr, rfl, -⟩ := ha
  rw [Emission.id, hr]

theorem Emission.Asks.unique (ha : m.Asks i h n) (ha' : m.Asks i' h' n') : i' = i ∧ h' = h := by
  obtain ⟨rfl, r, hr, -, rfl⟩ := ha
  obtain ⟨rfl, r', hr', -, rfl⟩ := ha'
  rw [hr] at hr'
  cases hr'
  exact ⟨rfl, rfl⟩

/-- Every emission wins or loses. -/
theorem Conflict.mem_resolve {t : TieBreak} {es : List Emission} (hm : m ∈ es) :
    m ∈ (resolve t es).winners ∨ ∃ l ∈ (resolve t es).overridden, l.emission = m := by
  cases hlost : lostTo? t es m with
  | none => exact .inl (List.mem_filter.2 ⟨hm, by rw [hlost]; rfl⟩)
  | some w =>
    refine .inr ⟨⟨m, w⟩, List.mem_filterMap.2 ⟨m, hm, ?_⟩, rfl⟩
    rw [hlost]
    rfl

theorem Conflict.mem_of_overridden {t : TieBreak} {es : List Emission} {l : Overridden}
    (hl : l ∈ (resolve t es).overridden) : l.emission ∈ es := by
  obtain ⟨m, hm, hlost⟩ := List.mem_filterMap.1 hl
  obtain ⟨w, -, rfl⟩ := Option.map_eq_some_iff.1 hlost
  exact hm

end Identities

namespace Engine

section Rounds

variable {e : Engine} {event : Event} {issued : List String} {incoming : List EventId}
  {discarded : List Event} {s s' : Step} {requests : Requests} {i : InstanceId} {h : HeadId}
  {n : InvocationId}

/-! ## Rounds -/

/-- A round hands out the identities of new instances and of emissions. -/
theorem issuedInRound_eq (hg : Gathered event s (e.gather event s).1 (e.gather event s).2) :
    s.state.instanceIds.map InstanceId.text ++ e.issuedInRound event s =
      (e.gather event s).1.state.instanceIds.map InstanceId.text ++
        (emissionsOf (e.gather event s).2).map Emission.id := by
  have hnew : (e.gather event s).1.state.instanceIds =
      s.state.instanceIds ++
        ((e.gather event s).1.state.instances.drop s.state.instances.length).map Instance.id := by
    have hsplit := List.prefix_iff_eq_append.1 hg.ids
    rw [State.instanceIds, List.length_map] at hsplit
    rw [List.map_drop]
    exact hsplit.symm
  rw [hnew, List.map_append, List.append_assoc, List.map_map]
  rfl

theorem nodup_issuedInRound (hf : s.state.Fit issued)
    (hd : (issued ++ e.issuedInRound event s).Nodup) :
    (s.state.instanceIds.map InstanceId.text ++ e.issuedInRound event s).Nodup := by
  refine List.Nodup.append ?_ hd.of_append_right fun text hold hnew => ?_
  · refine (List.nodup_map_iff_inj_on hf.distinct).2 fun i _ j _ hij => ?_
    obtain ⟨text⟩ := i
    rw [show text = j.text from hij]
  · obtain ⟨i, hi, rfl⟩ := List.mem_map.1 hold
    exact List.disjoint_of_nodup_append hd (hf.known i hi) hnew

theorem mem_issuedInRound_of_asks {m : Emission} (hm : m ∈ emissionsOf (e.gather event s).2)
    (ha : m.Asks i h n) : n.text ∈ e.issuedInRound event s := by
  rw [← ha.id]
  exact List.mem_append_right _ (List.mem_map_of_mem hm)

/-- No two heads ask for the same call. -/
theorem asks_unique (hd : (issued ++ e.issuedInRound event s).Nodup) {m m' : Emission}
    {i' : InstanceId} {h' : HeadId} (hm : m ∈ emissionsOf (e.gather event s).2)
    (hm' : m' ∈ emissionsOf (e.gather event s).2) (ha : m.Asks i h n) (ha' : m'.Asks i' h' n) :
    i' = i ∧ h' = h := by
  have hemissions : ((emissionsOf (e.gather event s).2).map Emission.id).Nodup :=
    hd.of_append_right.of_append_right
  obtain rfl := List.inj_on_of_nodup_map hemissions hm hm' (ha.id.trans ha'.id.symm)
  exact ha.unique ha'

/-- The table of calls is still in order after heads have moved and instances were started. -/
theorem fit_gather (hf : s.state.Fit issued) (hd : (issued ++ e.issuedInRound event s).Nodup) :
    (e.gather event s).1.state.Fit (issued ++ e.issuedInRound event s) := by
  have hg : Gathered event s (e.gather event s).1 (e.gather event s).2 := gather_spec hf.regular
  have heq := issuedInRound_eq hg
  have hall := nodup_issuedInRound hf hd
  refine ⟨hg.regular, ?_, fun i hi => ?_, fun i h n hw => ?_, fun c hc => ?_⟩
  · rw [heq] at hall
    exact hall.of_append_left.of_map _
  · have hmem : i.text ∈ s.state.instanceIds.map InstanceId.text ++ e.issuedInRound event s := by
      rw [heq]
      exact List.mem_append_left _ (List.mem_map_of_mem hi)
    rcases List.mem_append.1 hmem with hold | hnew
    · obtain ⟨j, hj, hji⟩ := List.mem_map.1 hold
      exact List.mem_append_left _ (hji ▸ hf.known j hj)
    · exact List.mem_append_right _ hnew
  · rcases hg.waits i h n hw with ⟨hw, -⟩ | ⟨m, hm, hasks⟩
    · obtain ⟨hissued, hlen⟩ := hf.asked i h n hw
      exact ⟨List.mem_append_left _ hissued, hlen⟩
    · refine ⟨List.mem_append_right _ (mem_issuedInRound_of_asks hm hasks), ?_⟩
      rw [← hasks.id]
      exact hg.stamped m hm
  · rw [hg.agrees.calls] at hc
    obtain ⟨hissued, hinv, hown⟩ := hf.calls c hc
    refine ⟨List.mem_append_left _ hissued, hinv, fun i h hw => ?_⟩
    rcases hg.waits i h c.1 hw with ⟨hw, -⟩ | ⟨m, hm, hasks⟩
    · exact hown i h hw
    · exact absurd (mem_issuedInRound_of_asks hm hasks) (List.disjoint_of_nodup_append hd hissued)

/-- The table of calls is still in order after emissions have competed. -/
theorem fit_compete (hf : s.state.Fit issued) (hd : (issued ++ e.issuedInRound event s).Nodup) :
    (e.compete event s).state.Fit (issued ++ e.issuedInRound event s) := by
  have hg : Gathered event s (e.gather event s).1 (e.gather event s).2 := gather_spec hf.regular
  have hfit := fit_gather hf hd
  have happ := applied_compete e event s
  have hids := instanceIds_of_cores happ.cores
  refine ⟨regular_of_cores happ.cores hfit.regular, hids ▸ hfit.distinct, hids ▸ hfit.known,
    fun i h n hw => hfit.asked i h n (waits_of_cores happ.cores hw), fun c hc => ?_⟩
  rcases happ.entries c hc with hc | ⟨hinv, m, hm, hasks⟩
  · obtain ⟨hissued, hinv, hown⟩ := hfit.calls c hc
    exact ⟨hissued, hinv, fun i h hw => hown i h (waits_of_cores happ.cores hw)⟩
  · have hm : m ∈ emissionsOf (e.gather event s).2 := (List.mem_filter.1 hm).1
    have hnew := mem_issuedInRound_of_asks hm hasks
    refine ⟨List.mem_append_right _ hnew, hinv, fun i h hw => ?_⟩
    rcases hg.waits i h c.1 (waits_of_cores happ.cores hw) with ⟨hw, -⟩ | ⟨m', hm', hasks'⟩
    · exact absurd hnew (List.disjoint_of_nodup_append hd (hf.asked i h c.1 hw).1)
    · exact (asks_unique hd hm' hm hasks' hasks).1

/-- The queue holds what it held and what was sent or is told to losers. -/
theorem queued_compete (hf : s.state.Fit issued) (hq : s.Queued issued incoming) :
    (e.compete event s).Queued (issued ++ e.issuedInRound event s) incoming := by
  have hg : Gathered event s (e.gather event s).1 (e.gather event s).2 := gather_spec hf.regular
  have happ := applied_compete e event s
  refine ⟨fun ev hev => ?_, fun id hid => ?_⟩
  · rcases happ.queued ev hev with hev | hlen | ⟨m, hm, hid⟩ | ⟨l, hl, r, hr, rfl⟩
    · rw [hg.agrees.queue] at hev
      refine (hq.queue ev hev).imp_right ?_
      exact fun ⟨n, hn, hid, hans⟩ => ⟨n, List.mem_append_left _ hn, hid, hans⟩
    · exact .inl hlen
    · rw [← hid]
      exact .inl (hg.stamped m (List.mem_filter.1 hm).1)
    · have hasks : l.emission.Asks l.emission.instanceId r.head r.invocation :=
        ⟨rfl, r, hr, rfl, rfl⟩
      have hnew := mem_issuedInRound_of_asks (Conflict.mem_of_overridden hl) hasks
      exact .inr ⟨r.invocation, List.mem_append_right _ hnew, rfl,
        Event.answers_actionResult _ _ _⟩
  · rw [happ.seen, hg.agrees.seen] at hid
    refine (hq.seen id hid).imp_right (Or.imp_right ?_)
    exact fun ⟨n, hn, hid⟩ => ⟨n, List.mem_append_left _ hn, hid⟩

/-- A head that has asked for a call has it in flight or expects the answer. -/
theorem tended_of_asked (hf : s.state.Fit issued) (hq : s.Queued issued incoming)
    (hd : (issued ++ e.issuedInRound event s).Nodup)
    (hin : Foreign incoming (e.issuedInRound event s))
    (ha : Asked (e.gather event s).2 i h n) :
    (e.compete event s).state.Holds i h n ∨ (e.compete event s).Expects i h n := by
  have hg : Gathered event s (e.gather event s).1 (e.gather event s).2 := gather_spec hf.regular
  have happ := applied_compete e event s
  obtain ⟨m, hm, hasks⟩ := ha
  have hnew := mem_issuedInRound_of_asks hm hasks
  rcases Conflict.mem_resolve hm with hwon | ⟨l, hl, rfl⟩
  · refine .inl (happ.held i h n (fun m' hm' i' h' ha' => ?_) (.inr ⟨m, hwon, hasks⟩))
    exact asks_unique hd hm (List.mem_filter.1 hm').1 hasks ha'
  · have hforgoes := hasks
    obtain ⟨-, r, hr, rfl, -⟩ := hasks
    refine .inr ⟨fun hseen => ?_, lostResult l r, happ.told l hl r hr, l, r, hforgoes, hr, rfl⟩
    rw [happ.seen, hg.agrees.seen] at hseen
    have hlen' := hg.stamped l.emission hm
    rw [hforgoes.id] at hlen'
    rcases hq.seen _ hseen with hlen | hmem | ⟨n', hn', hid⟩
    · rw [r.invocation.length_resultId] at hlen
      omega
    · exact hin r.invocation hnew hlen' hmem
    · rw [InvocationId.resultId_inj hid] at hnew
      exact List.disjoint_of_nodup_append hd hn' hnew

/-- Nothing is lost for a head that waits on: its call stays in flight, and its answer in the
queue. -/
theorem tended_of_waits (hf : s.state.Fit issued)
    (hd : (issued ++ e.issuedInRound event s).Nodup) (hw : s.state.Waits i h n)
    (ht : s.state.Holds i h n ∨ Lost discarded i h n ∨ s.Expects i h n) :
    (e.compete event s).state.Holds i h n ∨ Lost discarded i h n ∨
      (e.compete event s).Expects i h n := by
  have hg : Gathered event s (e.gather event s).1 (e.gather event s).2 := gather_spec hf.regular
  have happ := applied_compete e event s
  rcases ht with hold | hlost | ⟨hseen, ev, hev, hforgoes⟩
  · refine .inl (happ.held i h n (fun m hm i' h' ha => ?_) (.inl ?_))
    · have hnew := mem_issuedInRound_of_asks (List.mem_filter.1 hm).1 ha
      exact absurd hnew (List.disjoint_of_nodup_append hd (hf.asked i h n hw).1)
    · rwa [State.Holds, hg.agrees.calls]
  · exact .inr (.inl hlost)
  · refine .inr (.inr ⟨?_, ev, happ.queue ?_, hforgoes⟩)
    · rwa [happ.seen, hg.agrees.seen]
    · rwa [hg.agrees.queue]

/-- Winding up gives up no call that a head waits for. -/
theorem tended_wound (hs : s.Tended issued incoming discarded) (hw : s.Wound s') :
    s'.Tended issued incoming discarded := by
  refine ⟨hs.fit.of_cores hw.cores hw.calls, ⟨fun ev hev => ?_, ?_⟩, fun i h n hwaits => ?_⟩
  · rcases hw.queued ev hev with hev | hlen
    · exact hs.queued.queue ev hev
    · exact .inl hlen
  · rw [hw.seen]
    exact hs.queued.seen
  · have hwaits := waits_of_cores hw.cores hwaits
    rcases hs.tended i h n hwaits with hold | hlost | ⟨hseen, ev, hev, hforgoes⟩
    · exact .inl (hw.held i h n hwaits hold)
    · exact .inr (.inl hlost)
    · exact .inr (.inr ⟨hw.seen ▸ hseen, ev, hw.queue hev, hforgoes⟩)

/-- **A round leaves nobody waiting in vain.** -/
theorem tended_round (hf : s.state.Fit issued) (hq : s.Queued issued incoming)
    (ht : ∀ i h n, s.state.Waits i h n → ¬event.Answers n →
      s.state.Holds i h n ∨ Lost discarded i h n ∨ s.Expects i h n)
    (hd : (issued ++ e.issuedInRound event s).Nodup)
    (hin : Foreign incoming (e.issuedInRound event s)) :
    (e.round s event).Tended (issued ++ e.issuedInRound event s) incoming discarded := by
  have hg : Gathered event s (e.gather event s).1 (e.gather event s).2 := gather_spec hf.regular
  have happ := applied_compete e event s
  have hfit := fit_compete hf hd
  rw [round_eq]
  refine tended_wound ⟨hfit, queued_compete hf hq, fun i h n hw => ?_⟩ (wound_windUpEnded hfit)
  rcases hg.waits i h n (waits_of_cores happ.cores hw) with ⟨hw, hans⟩ | hasked
  · exact tended_of_waits hf hd hw (ht i h n hw hans)
  · exact (tended_of_asked hf hq hd hin hasked).imp_right .inr

/-- Who waits after a round has not been answered, or has just asked for the call. -/
theorem waits_round (hf : s.state.Fit issued) (hd : (issued ++ e.issuedInRound event s).Nodup)
    (hw : (e.round s event).state.Waits i h n) :
    s.state.Waits i h n ∧ ¬event.Answers n ∨ n.text ∈ e.issuedInRound event s := by
  have hg : Gathered event s (e.gather event s).1 (e.gather event s).2 := gather_spec hf.regular
  have happ := applied_compete e event s
  rw [round_eq] at hw
  have hw := waits_of_cores (wound_windUpEnded (fit_compete hf hd)).cores hw
  refine (hg.waits i h n (waits_of_cores happ.cores hw)).imp_right ?_
  rintro ⟨m, hm, hasks⟩
  exact mem_issuedInRound_of_asks hm hasks

end Rounds

/-! ## Queues -/

section Queues

variable {e : Engine} {event : Event} {issued : List String} {incoming : List EventId}
  {discarded : List Event} {s s' : Step} {queue : List Event} {budget : Nat}

/-- What is taken from a queue is the first event that was not processed yet. -/
theorem nextFresh_some (hn : nextFresh s queue = (s', some event)) :
    s'.state = s.state ∧ s'.seen = event.id :: s.seen ∧
      ∃ late, queue = late ++ event :: s'.queue ∧ ∀ ev ∈ late, ev.id ∈ s.seen := by
  fun_induction nextFresh s queue with
  | case1 s => cases hn
  | case2 s ev rest hseen ih =>
    obtain ⟨hstate, hseen', late, hqueue, hlate⟩ := ih hn
    refine ⟨hstate, hseen', ev :: late, by rw [hqueue]; rfl, fun x hx => ?_⟩
    rcases List.mem_cons.1 hx with rfl | hx
    · exact List.contains_iff_mem.1 hseen
    · exact hlate x hx
  | case3 s ev rest =>
    cases hn
    exact ⟨rfl, rfl, [], rfl, List.forall_mem_nil _⟩

theorem nextFresh_none (hn : nextFresh s queue = (s', none)) :
    s'.state = s.state ∧ ∀ ev ∈ queue, ev.id ∈ s.seen := by
  fun_induction nextFresh s queue with
  | case1 s =>
    cases hn
    exact ⟨rfl, List.forall_mem_nil _⟩
  | case2 s ev rest hseen ih =>
    obtain ⟨hstate, hrest⟩ := ih hn
    refine ⟨hstate, fun x hx => ?_⟩
    rcases List.mem_cons.1 hx with rfl | hx
    · exact List.contains_iff_mem.1 hseen
    · exact hrest x hx
  | case3 s ev rest => cases hn

theorem wound_drain (s : Step) : s.Wound s.drain := by
  refine Step.wound_of_agrees ⟨rfl, rfl, rfl⟩ ?_
  simp only [Step.drain, State.cores, List.map_map]
  rfl

/-- A head whose answer was in the queue still expects it when another event is taken from there. -/
theorem expects_take {i : InstanceId} {h : HeadId} {n : InvocationId}
    (hx : s.Expects i h n) (hn : nextFresh s s.queue = (s', some event))
    (hne : event.id ≠ n.resultId) : s'.Expects i h n := by
  obtain ⟨-, hseen, late, hqueue, hlate⟩ := nextFresh_some hn
  obtain ⟨hnew, ev, hev, hforgoes⟩ := hx
  have hid := hforgoes.id
  refine ⟨?_, ev, ?_, hforgoes⟩
  · rw [hseen, List.mem_cons, not_or]
    exact ⟨Ne.symm hne, hnew⟩
  · rw [hqueue, List.mem_append, List.mem_cons] at hev
    rcases hev with hev | rfl | hev
    · exact absurd (hid ▸ hlate ev hev) hnew
    · exact absurd hid hne
    · exact hev

/-- Taking an event from the queue leaves only those untended that it answers. -/
theorem tended_take (hs : s.Tended issued incoming discarded)
    (hn : nextFresh s s.queue = (s', some event)) :
    s'.state.Fit issued ∧ s'.Queued issued incoming ∧
      ∀ i h n, s'.state.Waits i h n → ¬event.Answers n →
        s'.state.Holds i h n ∨ Lost discarded i h n ∨ s'.Expects i h n := by
  obtain ⟨hstate, hseen, late, hqueue, hlate⟩ := nextFresh_some hn
  have hevent := hs.queued.queue event (by simp [hqueue])
  rw [hstate]
  refine ⟨hs.fit, ⟨fun ev hev => ?_, fun id hid => ?_⟩, fun i h n hw hans => ?_⟩
  · exact hs.queued.queue ev (by simp [hqueue, hev])
  · rw [hseen, List.mem_cons] at hid
    rcases hid with rfl | hid
    · exact hevent.imp_right fun ⟨n, hn, hid, _⟩ => .inr ⟨n, hn, hid⟩
    · exact hs.queued.seen id hid
  · refine (hs.tended i h n hw).imp_right (Or.imp_right fun hx => expects_take hx hn fun hid => ?_)
    rcases hevent with hlen | ⟨n', -, hid', hans'⟩
    · have hlen' := (hs.fit.asked i h n hw).2
      rw [hid, n.length_resultId] at hlen
      omega
    · rw [InvocationId.resultId_inj (hid.symm.trans hid')] at hans
      exact hans hans'

/-- **When a queue was worked off, or its budget has run out, who waits has a call in flight, or the
answer was thrown away.**  Who waits for the result of an older call did so before. -/
theorem tended_runQueue (hs : s.Tended issued incoming discarded)
    (hd : (issued ++ e.issuedInQueue budget s).Nodup)
    (hin : Foreign incoming (e.issuedInQueue budget s)) :
    (e.runQueue budget s).state.Tended (issued ++ e.issuedInQueue budget s)
        (discarded ++ e.discardedFrom budget s) ∧
      ∀ i h n, (e.runQueue budget s).state.Waits i h n →
        s.state.Waits i h n ∨ n.text ∈ e.issuedInQueue budget s := by
  induction budget generalizing s issued with
  | zero =>
    have hstate : (e.runQueue 0 s).state = s.state := by
      rw [runQueue]
      split <;> rfl
    rw [hstate, issuedInQueue, List.append_nil, discardedFrom]
    refine ⟨⟨hs.fit, fun i h n hw => (hs.tended i h n hw).imp_right ?_⟩, fun i h n hw => .inl hw⟩
    rintro (⟨ev, hev, hforgoes⟩ | ⟨-, ev, hev, hforgoes⟩)
    · exact ⟨ev, List.mem_append_left _ hev, hforgoes⟩
    · exact ⟨ev, List.mem_append_right _ hev, hforgoes⟩
  | succ budget ih =>
    rw [issuedInQueue] at hd hin ⊢
    rw [discardedFrom, runQueue]
    generalize hn : nextFresh s s.queue = r at hd hin ⊢
    obtain ⟨s', _ | event⟩ := r
    · obtain ⟨hstate, hseen⟩ := nextFresh_none hn
      simp only [List.append_nil, hstate]
      refine ⟨⟨hs.fit, fun i h n hw => (hs.tended i h n hw).imp_right ?_⟩, fun i h n hw => .inl hw⟩
      rintro (hlost | ⟨hnew, ev, hev, hforgoes⟩)
      · exact hlost
      · exact absurd (hforgoes.id ▸ hseen ev hev) hnew
    · obtain ⟨hfit, hqueued, htended⟩ := tended_take hs hn
      simp only [← List.append_assoc] at hd ⊢
      have hd' := hd.of_append_left
      have hround := tended_round hfit hqueued htended hd' hin.left
      obtain ⟨hleft, hwaits⟩ := ih (tended_wound hround (wound_drain _)) hd hin.right
      refine ⟨hleft, fun i h n hw => ?_⟩
      rcases hwaits i h n hw with hw | hnew
      · have hw := waits_of_cores (wound_drain (e.round s' event)).cores hw
        rcases waits_round hfit hd' hw with ⟨hw, -⟩ | hnew
        · rw [(nextFresh_some hn).1] at hw
          exact .inl hw
        · exact .inr (List.mem_append_left _ hnew)
      · exact .inr (List.mem_append_right _ hnew)

/-- The same when the queue begins with an event that has come in, which may itself be what heads
wait for. -/
theorem tended_runQueue_incoming (hqueue : s.queue = [event]) (hseen : s.seen = [])
    (hf : s.state.Fit issued)
    (ht : ∀ i h n, s.state.Waits i h n → ¬event.Answers n →
      s.state.Holds i h n ∨ Lost discarded i h n)
    (hd : (issued ++ e.issuedInQueue (budget + 1) s).Nodup)
    (hin : Foreign [event.id] (e.issuedInQueue (budget + 1) s)) :
    (e.runQueue (budget + 1) s).state.Tended (issued ++ e.issuedInQueue (budget + 1) s)
        (discarded ++ e.discardedFrom (budget + 1) s) ∧
      ∀ i h n, (e.runQueue (budget + 1) s).state.Waits i h n →
        s.state.Waits i h n ∧ ¬event.Answers n ∨ n.text ∈ e.issuedInQueue (budget + 1) s := by
  obtain ⟨s', hn, hstate, hempty, honly⟩ : ∃ s', nextFresh s s.queue = (s', some event) ∧
      s'.state = s.state ∧ s'.queue = [] ∧ s'.seen = [event.id] := by
    refine ⟨{ s with queue := [], seen := [event.id] }, ?_, rfl, rfl, rfl⟩
    rw [hqueue, nextFresh, hseen]
    rfl
  rw [issuedInQueue, hn] at hd hin ⊢
  rw [discardedFrom, runQueue, hn]
  rw [← hstate] at hf ht ⊢
  simp only [← List.append_assoc] at hd ⊢
  have hd' := hd.of_append_left
  have hqueued : s'.Queued issued [event.id] := by
    refine ⟨?_, fun id hid => .inr (.inl ?_)⟩
    · rw [hempty]
      exact List.forall_mem_nil _
    · rwa [honly] at hid
  have hround := tended_round hf hqueued
    (fun i h n hw hans => (ht i h n hw hans).imp_right .inl) hd' hin.left
  obtain ⟨hleft, hwaits⟩ := tended_runQueue (tended_wound hround (wound_drain _)) hd hin.right
  refine ⟨hleft, fun i h n hw => ?_⟩
  rcases hwaits i h n hw with hw | hnew
  · exact (waits_round hf hd' (waits_of_cores (wound_drain _).cores hw)).imp_right
      (List.mem_append_left _)
  · exact .inr (List.mem_append_right _ hnew)

end Queues

end Engine

end EventFlow

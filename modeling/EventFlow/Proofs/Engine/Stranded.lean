import EventFlow.Proofs.Engine.Tended
import EventFlow.Query.Eval

/-!
# Nobody waits for a call that nobody makes

What holds of rounds and queues is carried here from request to request.  Between requests every
head that waits has its call in flight, with one exception: a call that has lost is answered by an
event of the step, and a step that has used up its budget throws its events away.

## What is here

* `tended_beginStep`, `tended_handle` and `tended_abort`: the parts of a request.
* `Engine.Sincere` says of requests that none of their events pretends to be the result of a call
  that is only made then.

**`waits_in_flight_or_discarded`** is the main result.
-/

set_option autoImplicit false

namespace EventFlow

section

variable {Compiled Found : Type} [Query.Library Compiled Found]

section Parts

variable {e : Engine} {event : Event} {issued : List String} {discarded : List Event} {s t : State}
  {step step' : Step} {i : InstanceId} {h : HeadId} {n : InvocationId}

/-! ## Steps between queues -/

theorem State.Tended.wound (hs : step.state.Tended issued discarded) (hw : step.Wound step') :
    step'.state.Tended issued discarded := by
  refine ⟨hs.fit.of_cores hw.cores hw.calls, fun i h n hwaits => ?_⟩
  have hwaits := waits_of_cores hw.cores hwaits
  exact (hs.tended i h n hwaits).imp_left (hw.held i h n hwaits)

/-- Instances may be let go or aborted, as long as nobody else comes to wait. -/
theorem State.Tended.fewer (hs : s.Tended issued discarded) (hcalls : t.calls = s.calls)
    (hreg : ∀ x ∈ t.instances, x.Regular) (hids : t.instanceIds.Sublist s.instanceIds)
    (hwaits : ∀ i h n, t.Waits i h n → s.Waits i h n) : t.Tended issued discarded := by
  refine ⟨⟨hreg, hs.fit.distinct.sublist hids, fun i hi => hs.fit.known i (hids.subset hi),
    fun i h n hw => hs.fit.asked i h n (hwaits i h n hw), fun c hc => ?_⟩, fun i h n hw => ?_⟩
  · rw [hcalls] at hc
    obtain ⟨hissued, hinv, hown⟩ := hs.fit.calls c hc
    exact ⟨hissued, hinv, fun i h hw => hown i h (hwaits i h _ hw)⟩
  · rw [State.Holds, hcalls]
    exact hs.tended i h n (hwaits i h n hw)

namespace Engine

theorem queue_cancelCallsOf (step : Step) (id : InstanceId) :
    (step.cancelCallsOf id).queue = step.queue ∧ (step.cancelCallsOf id).seen = step.seen := by
  refine List.foldlRecOn (step.state.calls.inFlightFor id) Step.cancelCall
    (motive := fun s => s.queue = step.queue ∧ s.seen = step.seen) ⟨rfl, rfl⟩ fun s hs n _ => ?_
  rw [Step.cancelCall]
  split
  · exact hs
  · simp only
    split <;> exact hs

/-- A step begins with nothing to do and nobody forgotten. -/
theorem tended_beginStep (hs : s.Tended issued discarded) :
    (e.beginStep s).state.Tended issued discarded ∧
      (e.beginStep s).queue = [] ∧ (e.beginStep s).seen = [] := by
  rw [beginStep]
  simp only [List.partition_eq_filter_filter]
  generalize hbegin : Step.begin { s with
    step := s.step + 1
    instances := s.instances.filter (not ∘ e.isStale (s.step + 1)) } = first
  have hfirst : first.state.Tended issued discarded := by
    rw [← hbegin]
    refine hs.fewer rfl (fun x hx => hs.fit.regular x (List.mem_filter.1 hx).1)
      (List.filter_sublist.map _) fun i h n hw => ?_
    obtain ⟨x, hx, hrest⟩ := hw
    exact ⟨x, (List.mem_filter.1 hx).1, hrest⟩
  have hempty : first.queue = [] ∧ first.seen = [] := by
    rw [← hbegin]
    exact ⟨rfl, rfl⟩
  have hgone : ∀ x ∈ s.instances.filter (e.isStale (s.step + 1)), ∀ h n,
      ¬first.state.Waits x.id h n := by
    rintro x hx h n ⟨y, hy, hid, -⟩
    obtain ⟨hx, hstale⟩ := List.mem_filter.1 hx
    rw [← hbegin] at hy
    obtain ⟨hy, hkept⟩ := List.mem_filter.1 hy
    obtain rfl := List.inj_on_of_nodup_map hs.fit.distinct hy hx hid
    rw [Function.comp, hstale] at hkept
    cases hkept
  have hwound : first.Wound
      ((s.instances.filter (e.isStale (s.step + 1))).foldl evict first) := by
    refine Step.wound_foldl fun x hx s' hs' => ?_
    have hcancel := Step.wound_cancelCallsOf (hfirst.fit.of_cores hs'.cores hs'.calls) fun h n hw =>
      hgone x hx h n (waits_of_cores hs'.cores hw)
    exact hcancel.trans (Step.wound_of_agrees ⟨rfl, rfl, rfl⟩ rfl)
  refine ⟨hfirst.wound hwound, ?_⟩
  rw [← hempty.1, ← hempty.2]
  refine List.foldlRecOn _ evict (motive := fun s' => s'.queue = first.queue ∧ s'.seen = first.seen)
    ⟨rfl, rfl⟩ fun s' hs' x _ => ?_
  have hcancel := queue_cancelCallsOf s' x.id
  exact ⟨hcancel.1.trans hs'.1, hcancel.2.trans hs'.2⟩

/-- Processing an event from outside, which may be what heads wait for. -/
theorem tended_runEvent (hbudget : e.config.maxEventsPerStep ≠ 0) (hempty : step.queue = [])
    (hnew : step.seen = []) (hf : step.state.Fit issued)
    (ht : ∀ i h n, step.state.Waits i h n → ¬event.Answers n →
      step.state.Holds i h n ∨ Lost discarded i h n)
    (hd : (issued ++ e.issuedInQueue e.config.maxEventsPerStep (step.enqueue event)).Nodup)
    (hin : Foreign [event.id] (e.issuedInQueue e.config.maxEventsPerStep (step.enqueue event))) :
    (e.runEvent step event).state.Tended
        (issued ++ e.issuedInQueue e.config.maxEventsPerStep (step.enqueue event))
        (discarded ++ e.discardedFrom e.config.maxEventsPerStep (step.enqueue event)) ∧
      ∀ i h n, (e.runEvent step event).state.Waits i h n →
        step.state.Waits i h n ∧ ¬event.Answers n ∨
          n.text ∈ e.issuedInQueue e.config.maxEventsPerStep (step.enqueue event) := by
  rw [runEvent]
  obtain ⟨budget, hb⟩ := Nat.exists_eq_succ_of_ne_zero hbudget
  rw [hb] at hd hin ⊢
  refine tended_runQueue_incoming ?_ hnew hf ht hd hin
  rw [Step.enqueue, hempty]
  rfl

/-! ## Requests -/

theorem tended_ofStep (hs : step.state.Tended issued discarded) :
    (Reply.ofStep step).state.Tended issued discarded := hs.wound (wound_drain step)

/-- The result of a call is accepted on behalf of whoever waits for it. -/
theorem fit_accept {calls : Calls} (hf : s.Fit issued) (ha : s.calls.accept? event = some calls)
    (hn : event.invocation? = some n) :
    ({ s with calls } : State).Fit issued ∧ n.text ∈ issued ∧
      ∀ i h m, m ≠ n → s.Holds i h m → ({ s with calls } : State).Holds i h m := by
  rw [Calls.accept?] at ha
  simp only [hn, Option.bind_eq_bind, Option.bind_some, Option.bind_eq_some_iff] at ha
  obtain ⟨c, hc, ha⟩ := ha
  split at ha
  · cases ha
    obtain ⟨hissued, hinv, hown⟩ := hf.calls _ (Dict.mem_of_get? hc)
    refine ⟨⟨hf.regular, hf.distinct, hf.known, hf.asked, fun c' hc' => ?_⟩, hissued, ?_⟩
    · rcases Dict.mem_put hc' with rfl | hc'
      · exact ⟨hissued, hinv, hown⟩
      · exact hf.calls c' hc'
    · rintro i h m hne ⟨c', hget, hrest⟩
      refine ⟨c', ?_, hrest⟩
      rw [← hget]
      exact Dict.get?_put_of_ne hne _ _
  · cases ha

/-- Whoever waits for a result that is accepted goes on, so the call can be forgotten. -/
theorem tended_accepted {calls : Calls} (hbudget : e.config.maxEventsPerStep ≠ 0)
    (hempty : step.queue = []) (hnew : step.seen = []) (hs : step.state.Tended issued discarded)
    (ha : step.state.calls.accept? event = some calls) (hn : event.invocation? = some n)
    (hd : (issued ++ e.issuedInQueue e.config.maxEventsPerStep
      ((step.update fun s => { s with calls }).enqueue event)).Nodup)
    (hin : Foreign [event.id] (e.issuedInQueue e.config.maxEventsPerStep
      ((step.update fun s => { s with calls }).enqueue event))) :
    ((e.runEvent (step.update fun s => { s with calls }) event).update fun s =>
        { s with calls := Dict.remove s.calls n }).state.Tended
      (issued ++ e.issuedInQueue e.config.maxEventsPerStep
        ((step.update fun s => { s with calls }).enqueue event))
      (discarded ++ e.discardedFrom e.config.maxEventsPerStep
        ((step.update fun s => { s with calls }).enqueue event)) := by
  have hans := Event.answers_of_invocation? hn
  obtain ⟨hfit, hissued, hkeep⟩ := fit_accept hs.fit ha hn
  obtain ⟨hrun, hwaits⟩ := @tended_runEvent _ _ _ e event _ discarded
    (step.update fun s => { s with calls }) hbudget hempty hnew hfit
    (fun i h m hw hm => (hs.tended i h m hw).imp_left
      (hkeep i h m fun heq => hm (heq ▸ hans))) hd hin
  refine hrun.wound (Step.wound_remove fun i h hw => ?_)
  rcases hwaits i h n hw with ⟨-, hm⟩ | hmem
  · exact hm hans
  · exact List.disjoint_of_nodup_append hd hissued hmem

/-- An event from outside leaves nobody stranded. -/
theorem tended_handle (hbudget : e.config.maxEventsPerStep ≠ 0) (hs : s.Tended issued discarded)
    (hd : (issued ++ e.issuedBy s (.event event)).Nodup)
    (hin : Foreign [event.id] (e.issuedBy s (.event event))) :
    (e.handle s event).state.Tended (issued ++ e.issuedBy s (.event event))
      (discarded ++ e.discardedBy s (.event event)) := by
  obtain ⟨hbegin, hempty, hnew⟩ := @tended_beginStep e _ _ _ hs
  have hh := e.handles s event
  simp only [issuedBy, discardedBy, opening?] at hd hin ⊢
  generalize e.openingOf? s event = o, e.handle s event = reply at hh hd hin ⊢
  cases hh with
  | refused err =>
    rw [Option.elim_none, Option.elim_none, List.append_nil, List.append_nil]
    exact hs
  | idle step agrees same =>
    rw [Option.elim_none, Option.elim_none, List.append_nil, List.append_nil]
    exact tended_ofStep (hbegin.wound (Step.wound_of_agrees agrees (cores_of_instances same)))
  | accepted n calls names accept =>
    exact tended_ofStep (tended_accepted hbudget hempty hnew hbegin accept names hd hin)
  | processed step agrees same =>
    have hstep := hbegin.wound (Step.wound_of_agrees agrees (cores_of_instances same))
    exact tended_ofStep (tended_runEvent hbudget (agrees.queue.trans hempty)
      (agrees.seen.trans hnew) hstep.fit (fun i h n hw _ => hstep.tended i h n hw) hd hin).1

/-- An instance that is aborted waits for nothing any more. -/
theorem tended_abortInstance (hs : step.state.Tended issued discarded) (id : InstanceId)
    (reason : String) :
    (step.updateInstance id (·.abort reason)).state.Tended issued discarded := by
  rw [Step.updateInstance]
  split
  · exact hs
  · next k _ =>
    have hget (j : Nat) : (step.state.instances.modify k (·.abort reason))[j]? =
        (step.state.instances[j]?).map fun x => if k = j then x.abort reason else x := by
      rw [List.getElem?_modify]
      rfl
    have hold {x : Instance} (hx : x ∈ step.state.instances.modify k (·.abort reason)) :
        ∃ y ∈ step.state.instances, x = y ∨ x = y.abort reason := by
      obtain ⟨j, hj⟩ := List.mem_iff_getElem?.1 hx
      rw [hget] at hj
      obtain ⟨y, hy, rfl⟩ := Option.map_eq_some_iff.1 hj
      refine ⟨y, List.mem_of_getElem? hy, ?_⟩
      split
      · exact .inr rfl
      · exact .inl rfl
    refine hs.fewer rfl (fun x hx => ?_) ?_ ?_
    · obtain ⟨y, hy, rfl | rfl⟩ := hold hx
      · exact hs.fit.regular x hy
      · exact (abort_spec (hs.fit.regular y hy) reason).1
    · have hids : (step.state.instances.modify k (·.abort reason)).map Instance.id =
          step.state.instanceIds := by
        refine List.ext_getElem? fun j => ?_
        rw [State.instanceIds, List.getElem?_map, List.getElem?_map, hget, Option.map_map]
        cases hj : step.state.instances[j]? with
        | none => rfl
        | some y =>
          have habort := (abort_spec (hs.fit.regular y (List.mem_of_getElem? hj)) reason).2.1
          simp only [Option.map_some, Function.comp]
          split
          · rw [habort]
          · rfl
      show ((step.state.instances.modify k (·.abort reason)).map Instance.id).Sublist _
      rw [hids]
    · rintro i h n ⟨x, hx, hid, hw⟩
      obtain ⟨y, hy, rfl | rfl⟩ := hold hx
      · exact ⟨x, hy, hid, hw⟩
      · exact absurd hw ((abort_spec (hs.fit.regular y hy) reason).2.2 h n)

/-- Neither does an abort from outside. -/
theorem tended_abort {id : InstanceId} {reason : String} (hs : s.Tended issued discarded)
    (hd : (issued ++ e.issuedBy s (.abort id reason)).Nodup) :
    (e.abort s id reason).state.Tended (issued ++ e.issuedBy s (.abort id reason))
      (discarded ++ e.discardedBy s (.abort id reason)) := by
  simp only [issuedBy, discardedBy, opening?] at hd ⊢
  rw [Engine.abort]
  cases hi : s.instance? id with
  | none =>
    simp only [Option.bind_none, Option.elim_none, List.append_nil]
    exact hs
  | some x =>
    simp only [hi, Option.bind_some] at hd ⊢
    by_cases hend : x.status.isTerminal = true
    · simp only [if_pos hend, Option.elim_none, List.append_nil]
      exact hs
    · simp only [if_neg hend, Option.elim_some] at hd ⊢
      obtain ⟨hbegin, hempty, hnew⟩ := @tended_beginStep e _ _ _ hs
      have habort := tended_abortInstance hbegin id reason
      have hsame : ((e.beginStep s).updateInstance id (·.abort reason)).queue = [] ∧
          ((e.beginStep s).updateInstance id (·.abort reason)).seen = [] := by
        rw [Step.updateInstance]
        split <;> exact ⟨hempty, hnew⟩
      generalize (e.beginStep s).updateInstance id (·.abort reason) = step at habort hsame hd ⊢
      have htended : step.Tended issued [] discarded := by
        refine ⟨habort.fit, ⟨?_, ?_⟩, fun i h n hw => (habort.tended i h n hw).imp_right .inl⟩
        · rw [hsame.1]
          exact List.forall_mem_nil _
        · rw [hsame.2]
          exact List.forall_mem_nil _
      have hwound := tended_wound htended (wound_windUpEnded habort.fit)
      exact tended_ofStep (tended_runQueue hwound hd fun n _ _ => List.not_mem_nil).1

end Engine

end Parts

namespace Engine

variable (e : Engine)

/-! ## Requests -/

/-- No event comes in under the identity of the result of a call that is only made then. -/
def Sincere (s : State) : List Request → Prop
  | [] => True
  | r :: rs =>
    (∀ event (n : InvocationId),
        r = .event event → n.text ∈ e.issuedBy s r → event.id ≠ n.resultId) ∧
      Sincere (e.respond s r).state rs

variable {e} {issued : List String} {discarded : List Event} {s : State}

theorem tended_respond (hbudget : e.config.maxEventsPerStep ≠ 0) {r : Request}
    (hs : s.Tended issued discarded) (hd : (issued ++ e.issuedBy s r).Nodup)
    (hin : ∀ event (n : InvocationId),
      r = .event event → n.text ∈ e.issuedBy s r → event.id ≠ n.resultId) :
    (e.respond s r).state.Tended (issued ++ e.issuedBy s r) (discarded ++ e.discardedBy s r) := by
  cases r with
  | event event =>
    refine tended_handle hbudget hs hd fun n hn _ hid => hin event n rfl hn ?_
    exact (List.mem_singleton.1 hid).symm
  | abort id reason => exact tended_abort hs hd
  | named name payload =>
    have hs' : ({ s with ids := s.ids.nextEvent.2 } : State).Tended issued discarded :=
      hs.fewer rfl hs.fit.regular (List.Sublist.refl _) fun _ _ _ hw => hw
    refine @tended_handle _ _ _ e ⟨s.ids.nextEvent.1, name, payload, .external⟩ _ _ _ hbudget hs' hd
      fun n _ hlen hid => ?_
    have hshort := s.ids.length_next
    rw [← show n.resultId.text = s.ids.next.1 from congrArg EventId.text (List.mem_singleton.1 hid),
      n.length_resultId] at hshort
    omega

theorem tended_after (hbudget : e.config.maxEventsPerStep ≠ 0) {requests : List Request}
    (hs : s.Tended issued discarded) (hd : (issued ++ e.issued s requests).Nodup)
    (hin : e.Sincere s requests) :
    (e.after s requests).Tended (issued ++ e.issued s requests)
      (discarded ++ e.discarded s requests) := by
  induction requests generalizing s issued discarded with
  | nil =>
    rw [Engine.issued, Engine.discarded, along, along, List.append_nil, List.append_nil]
    exact hs
  | cons r rs ih =>
    obtain ⟨hfirst, hrest⟩ := hin
    rw [Engine.issued, along, ← List.append_assoc] at hd ⊢
    rw [Engine.discarded, along, ← List.append_assoc]
    exact ih (tended_respond hbudget hs hd.of_append_left hfirst) hd hrest

theorem tended_initial (ids : IdSource) : (State.initial ids).Tended [] [] := by
  have hnone {i : InstanceId} {h : HeadId} {n : InvocationId} :
      ¬(State.initial ids).Waits i h n := fun ⟨_, hx, _⟩ => nomatch hx
  exact ⟨⟨nofun, List.nodup_nil, nofun, fun i h n hw => absurd hw hnone, nofun⟩,
    fun i h n hw => absurd hw hnone⟩

/-- A configuration that passes its check lets a step process some event. -/
theorem budget_of_check {config : Config} (hc : config.check = .ok ()) :
    config.maxEventsPerStep ≠ 0 := by
  intro hzero
  rw [Config.check, hzero, if_pos rfl] at hc
  by_cases hpattern : config.maxInstancesPerPattern = 0
  · rw [if_pos hpattern] at hc
    cases hc
  · rw [if_neg hpattern] at hc
    cases hc

theorem budget_of_create {flows : List Flow} {config : Config} (hc : create flows config = .ok e) :
    e.config.maxEventsPerStep ≠ 0 := by
  rw [create] at hc
  cases hload : Catalog.ofFlows flows with
  | error err =>
    rw [hload] at hc
    cases hc
  | ok catalog =>
    cases hcheck : config.check with
    | error err =>
      rw [hload, hcheck] at hc
      cases hc
    | ok _ =>
      rw [hload, hcheck] at hc
      cases hc
      exact budget_of_check hcheck

/-- **No head is stranded on a call that nobody makes**, unless the answer that it has lost was
among the events a step threw away because its budget was used up. -/
theorem waits_in_flight_or_discarded {flows : List Flow} {config : Config} {ids : IdSource}
    {requests : List Request} {i : InstanceId} {h : HeadId} {n : InvocationId}
    (hc : create flows config = .ok e) (hd : (e.issued (.initial ids) requests).Nodup)
    (hin : e.Sincere (.initial ids) requests)
    (hw : (e.after (.initial ids) requests).Waits i h n) :
    (e.after (.initial ids) requests).Holds i h n ∨
      Lost (e.discarded (.initial ids) requests) i h n := by
  have hbudget := budget_of_create hc
  have hall := tended_after hbudget (tended_initial ids) (by rwa [List.nil_append]) hin
  rw [List.nil_append] at hall
  exact hall.tended i h n hw

end Engine

end

namespace Engine

/-! ## Losing twice -/

/-- A flow that calls an action and waits for the result. -/
def rival (name : String) : Flow where
  id := ⟨name⟩
  description := none
  priority := none
  activation := some ⟨"go", []⟩
  body := [.call (.named "act")]

/-- Two flows that compete for a call, in an engine that processes a single event in a step. -/
def rivals : Engine where
  catalog := ⟨["a", "b"].map fun name => ⟨rival name, .ofBody (rival name).body⟩⟩
  config := { Config.default with maxEventsPerStep := 1 }

/-- The event both flows start on. -/
def go : Event := ⟨⟨"in"⟩, "go", [], .external⟩

theorem create_rivals : create (["a", "b"].map rival) rivals.config = .ok rivals := rfl

theorem nodup_issued_rivals : (rivals.issued (.initial (.seeded 0)) [.event go]).Nodup := by
  decide +kernel

theorem sincere_rivals : rivals.Sincere (.initial (.seeded 0)) [.event go] := by
  refine ⟨fun event n hgo hn hid => ?_, trivial⟩
  cases hgo
  have hall : ∀ text ∈ rivals.issuedBy (.initial (.seeded 0)) (.event go),
      text ++ ":result" ≠ "in" := by decide +kernel
  exact hall n.text hn (congrArg EventId.text hid).symm

/-- The call of the flow that loses is pending nowhere. -/
theorem exists_stranded_rival :
    ∃ i h n, (rivals.after (.initial (.seeded 0)) [.event go]).Waits i h n ∧
      ¬(rivals.after (.initial (.seeded 0)) [.event go]).Holds i h n := by
  have hleft : ∃ x ∈ (rivals.after (.initial (.seeded 0)) [.event go]).instances,
      ∃ n ∈ x.pendingCalls,
        (Dict.get? (rivals.after (.initial (.seeded 0)) [.event go]).calls n).isNone = true := by
    decide +kernel
  obtain ⟨x, hx, n, hn, hnone⟩ := hleft
  obtain ⟨h, hw⟩ := exists_waitsOn hn
  refine ⟨x.id, h, n, ⟨x, hx, rfl, hw⟩, ?_⟩
  rintro ⟨c, hc, -⟩
  rw [hc] at hnone
  cases hnone

theorem waits_in_flight_or_discarded_rivals :
    ∃ i h n, (rivals.after (.initial (.seeded 0)) [.event go]).Waits i h n ∧
      ((rivals.after (.initial (.seeded 0)) [.event go]).Holds i h n ∨
        Lost (rivals.discarded (.initial (.seeded 0)) [.event go]) i h n) := by
  obtain ⟨i, h, n, hw, -⟩ := exists_stranded_rival
  exact ⟨i, h, n, hw,
    waits_in_flight_or_discarded create_rivals nodup_issued_rivals sincere_rivals hw⟩

/-- Without the exception it would not hold: the budget may leave room for the event that makes both
flows call, and none for the answer to the one that loses. -/
theorem stranded_when_discarded :
    ¬∀ (flows : List Flow) (config : Config) (e : Engine) (ids : IdSource)
        (requests : List Request), create flows config = .ok e →
      (e.issued (.initial ids) requests).Nodup → e.Sincere (.initial ids) requests →
      (∀ event, .event event ∈ requests → event.id.text ∉ e.issued (.initial ids) requests) →
      ∀ i h n, (e.after (.initial ids) requests).Waits i h n →
        (e.after (.initial ids) requests).Holds i h n := by
  intro hall
  obtain ⟨i, h, n, hw, hstranded⟩ := exists_stranded_rival
  refine hstranded (hall _ _ _ _ _ create_rivals nodup_issued_rivals sincere_rivals ?_ i h n hw)
  intro event hgo
  obtain rfl : event = go := by simpa using hgo
  decide +kernel

end Engine

end EventFlow

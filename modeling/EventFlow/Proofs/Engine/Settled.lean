import EventFlow.Proofs.Conflict.Fair
import EventFlow.Proofs.Engine.Books
import EventFlow.Query.Eval

/-!
# Every call is settled once

The books of a step tell what is dispatched and cancelled while events are processed.  This file
adds what is accepted, and keeps the books of a whole run.

## What is here

* `Engine.requested`, `overridden`, `dispatched`, `accepted` and `cancelled` are the invocations of
  a run: those that heads have asked for, those that lost, those that were handed to whoever runs
  actions, those whose results were accepted, and those that were cancelled there.
* `Booked` says how a request changes the books (`booked_respond`), and `dispatched_count` that they
  balance.
* `Engine.Overlooks` says that nothing comes of an event.

**`calls_settled_once`** is the result.
-/

set_option autoImplicit false

namespace EventFlow

section

variable {Compiled Found : Type} [Query.Library Compiled Found]

open Engine

section Runs

variable {won : List InvocationId}

/-! ## Requests -/

theorem tallied_beginStep (e : Engine) (s : State) :
    Tallied [] (.begin s) (e.beginStep s) := by
  have hbegin : Tallied [] (.begin s) (.begin { s with
      step := s.step + 1
      instances := (s.instances.partition (e.isStale (s.step + 1))).2 }) :=
    tallied_of_quiet (Step.quiet_of_eq rfl rfl)
  have hevict (s : Step) (i : Instance) : Tallied [] s (evict s i) :=
    (tallied_cancelCallsOf s i.id).trans (tallied_of_quiet (Step.quiet_observe _ _))
  exact hbegin.trans (tallied_foldl_nil hevict _ _)

namespace Engine

variable (e : Engine)

/-- The invocation whose result an event is, if the result is accepted. -/
def acceptedOf (s : State) (event : Event) : List InvocationId :=
  if event.name = Event.actionResultName ∧ (e.openingOf? s event).isSome then
    event.invocation?.toList
  else []

/-- The invocations whose results a request is. -/
def acceptedBy (s : State) : Request → List InvocationId
  | .named name payload =>
    let (id, ids) := s.ids.nextEvent
    e.acceptedOf { s with ids } ⟨id, name, payload, .external⟩
  | .event event => e.acceptedOf s event
  | .abort _ _ => []

/-- The calls that heads ask for. -/
def requested (s : State) (requests : List Request) : List InvocationId :=
  e.along (fun s r => (e.roundsBy s r).flatMap e.requestedIn) s requests

/-- The calls that lose against those of other instances. -/
def overridden (s : State) (requests : List Request) : List InvocationId :=
  e.along (fun s r => (e.roundsBy s r).flatMap e.overriddenIn) s requests

/-- The calls that are handed to whoever runs actions. -/
def dispatched (s : State) (requests : List Request) : List InvocationId :=
  e.along (fun s r => Signal.dispatchesIn (e.respond s r).signals) s requests

/-- The calls that are cancelled there. -/
def cancelled (s : State) (requests : List Request) : List InvocationId :=
  e.along (fun s r => Signal.cancellationsIn (e.respond s r).signals) s requests

/-- The calls whose results are accepted. -/
def accepted (s : State) (requests : List Request) : List InvocationId :=
  e.along e.acceptedBy s requests

end Engine

/-- How a request changes the books. -/
structure Booked (won accepted : List InvocationId) (s : State) (reply : Reply) : Prop where
  dispatched : Signal.dispatchesIn reply.signals = won
  known : ∀ n, Dict.has reply.state.calls n = true → Dict.has s.calls n = true ∨ n ∈ won
  filed : s.calls.Filed → reply.state.calls.Filed
  balance : ∀ n, won.count n + (Dict.has s.calls n).toNat ≤ 1 →
    won.count n + (s.calls.carries n).toNat = (reply.state.calls.carries n).toNat +
      accepted.count n + (Signal.cancellationsIn reply.signals).count n

theorem booked_of_tallied {s : State} {step : Step} (h : Tallied won (.begin s) step) :
    Booked won [] s (.ofStep step) := by
  have h := h.trans (tallied_of_quiet (quiet_drain step))
  rw [List.append_nil] at h
  refine ⟨h.dispatched, h.known, h.filed, fun n hle => ?_⟩
  have hb := h.balance n hle
  simp only [Signal.cancellationsIn, Step.begin, List.filterMap_nil, List.count_nil] at hb ⊢
  exact hb

theorem booked_refuse (s : State) (err : Error) : Booked [] [] s (.refuse s err) :=
  ⟨rfl, fun _ hn => .inl hn, id, fun _ _ => Nat.zero_add _⟩

/-- A result is accepted if its invocation is in flight, which it is no longer then. -/
theorem put_of_accept? {calls calls' : Calls} {event : Event} {n : InvocationId}
    (hn : event.invocation? = some n) (ha : calls.accept? event = some calls') :
    calls.carries n = true ∧ ∃ c, calls' = Dict.put calls n c ∧ c.isInFlight = false ∧
      (calls.Filed → c.invocation = n) := by
  rw [Calls.accept?] at ha
  simp only [hn, Option.bind_eq_bind, Option.bind_some, Option.bind_eq_some_iff] at ha
  obtain ⟨c, hc, ha⟩ := ha
  split at ha
  · next hflight =>
    cases ha
    refine ⟨by rw [Calls.carries, hc]; exact hflight, _, rfl, ?_, fun hf => ?_⟩
    · simp only [PendingCall.isInFlight, CallStatus.ofOutcome]
      split <;> rfl
    · exact hf.own _ (Dict.mem_of_get? hc)
  · cases ha

/-- The result of a call is accepted, and after the step the call is forgotten. -/
theorem booked_accept {s : State} {step start last : Step} {calls : Calls} {event : Event}
    {n : InvocationId} (hstep : Tallied [] (.begin s) step) (hn : event.invocation? = some n)
    (ha : step.state.calls.accept? event = some calls) (hcalls : start.state.calls = calls)
    (hsignals : start.signals = step.signals) (hlast : Tallied won start last) :
    Booked won [n] s
      (.ofStep (last.update fun t => { t with calls := Dict.remove t.calls n })) := by
  obtain ⟨hcarries, c, rfl, hflight, hown⟩ := put_of_accept? hn ha
  have hknown (m : InvocationId) (hm : Dict.has start.state.calls m = true) :
      Dict.has s.calls m = true := by
    have hstep (m : InvocationId) (hm : Dict.has step.state.calls m = true) :
        Dict.has s.calls m = true := (hstep.known m hm).resolve_right nofun
    rw [hcalls, Dict.has, Dict.get?_put] at hm
    split at hm
    · next heq => exact heq ▸ hstep n (Calls.has_of_carries hcarries)
    · exact hstep m hm
  have hdrain := quiet_drain (last.update fun t => { t with calls := Dict.remove t.calls n })
  have hcancelled : Signal.cancellationsIn (Reply.ofStep (last.update fun t =>
      { t with calls := Dict.remove t.calls n })).signals = Signal.cancellationsIn last.signals :=
    hdrain.cancellations
  refine ⟨?_, fun m hm => ?_, fun hf => ?_, fun m hle => ?_⟩
  · have hd := hdrain.dispatches.trans hlast.dispatched
    rwa [hsignals, hstep.dispatched] at hd
  · exact (hlast.known m (has_of_has_remove hm)).imp_left (hknown m)
  · have hfiled := hstep.filed hf
    exact filed_remove (hlast.filed (hcalls ▸ filed_put hfiled (hown hfiled))) n
  · have hfirst := hstep.balance m (by
      rw [List.count_nil, Nat.zero_add]
      exact Bool.toNat_le _)
    have hle' : won.count m + (Dict.has start.state.calls m).toNat ≤ 1 := by
      refine Nat.le_trans (Nat.add_le_add_left ?_ _) hle
      cases hm : Dict.has start.state.calls m with
      | false => exact Nat.zero_le _
      | true => exact Nat.le_of_eq (by rw [hknown m hm])
    have hsecond := hlast.balance m hle'
    have hbegin : (Signal.cancellationsIn (Step.begin s).signals).count m = 0 := rfl
    rw [List.count_nil, hbegin, Nat.zero_add, Nat.add_zero] at hfirst
    rw [hsignals] at hsecond
    rw [hcancelled]
    simp only [Reply.ofStep, Step.drain, Step.update, Step.begin] at hfirst ⊢
    by_cases hmn : m = n
    · -- it was in flight, so it is neither dispatched nor cancelled in this step
      subst hmn
      have hhas : Dict.has s.calls m = true := hknown m (by
        rw [hcalls, Dict.has, Dict.get?_put_self]
        rfl)
      have hdone : start.state.calls.carries m = false := by
        rw [hcalls, Calls.carries, Dict.get?_put_self]
        exact hflight
      rw [hhas] at hle
      rw [hdone] at hsecond
      rw [hcarries] at hfirst
      rw [carries_remove_self, List.count_singleton_self]
      have := Bool.toNat_le (s.calls.carries m)
      simp only [Bool.toNat_true, Bool.toNat_false] at *
      omega
    · have hsame : start.state.calls.carries m = step.state.calls.carries m := by
        rw [hcalls, Calls.carries, Dict.get?_put_of_ne hmn, Calls.carries]
      rw [hsame] at hsecond
      rw [carries_remove_of_ne hmn, List.count_singleton, if_neg (by simpa using Ne.symm hmn)]
      omega

theorem booked_handle (e : Engine) (s : State) (event : Event) :
    Booked (((e.openingOf? s event).elim [] (e.roundsFrom e.config.maxEventsPerStep)).flatMap
      e.wonIn) (e.acceptedOf s event) s (e.handle s event) := by
  have hbegin := tallied_beginStep e s
  have hrun {f : State → State} (hf : ∀ t, (f t).calls = t.calls) : Booked
      ((e.roundsFrom e.config.maxEventsPerStep (e.opened s event f)).flatMap e.wonIn) [] s
      (.ofStep (e.runQueue e.config.maxEventsPerStep (e.opened s event f))) := by
    have hopened : Tallied [] (e.beginStep s) (e.opened s event f) :=
      tallied_of_quiet (Step.quiet_of_eq (hf _) rfl)
    exact booked_of_tallied ((hbegin.trans hopened).trans (tallied_runQueue e _ _))
  have ht := e.takes s event
  rw [acceptedOf]
  generalize e.handle s event = reply at ht ⊢
  generalize e.openingOf? s event = o at ht ⊢
  cases ht with
  | refused err =>
    rw [if_neg (fun h => nomatch h.2)]
    exact booked_refuse s err
  | idle =>
    rw [if_neg (fun h => nomatch h.2)]
    exact booked_of_tallied hbegin
  | late n =>
    rw [if_neg (fun h => nomatch h.2)]
    exact booked_of_tallied (hbegin.trans (tallied_of_quiet (Step.quiet_observe _ _)))
  | accepted n calls hres hn ha =>
    rw [if_pos ⟨hres, rfl⟩, hn]
    refine booked_accept hbegin hn ha ?_ ?_ (tallied_runQueue e _ _) <;> rfl
  | fired timer hother =>
    rw [if_neg (fun h => hother h.1)]
    exact hrun fun _ => rfl
  | processed hother =>
    rw [if_neg (fun h => hother h.1)]
    exact hrun fun _ => rfl

theorem booked_abort (e : Engine) (s : State) (id : InstanceId) (reason : String) :
    Booked ((e.roundsBy s (.abort id reason)).flatMap e.wonIn) [] s (e.abort s id reason) := by
  have hg := e.givesUp s id reason
  rw [roundsBy]
  generalize e.abort s id reason = reply at hg ⊢
  generalize e.opening? s (.abort id reason) = o at hg ⊢
  cases hg with
  | refused => exact booked_refuse s _
  | aborted =>
    have hupdate : Tallied [] (e.beginStep s)
        ((e.beginStep s).updateInstance id (·.abort reason)) := by
      rw [Step.updateInstance]
      split <;> exact tallied_of_quiet (Step.quiet_of_eq rfl rfl)
    have h := ((tallied_beginStep e s).trans hupdate).trans (tallied_windUpEnded _)
    exact booked_of_tallied (h.trans (tallied_runQueue e _ _))

/-- **How a request changes the books.** -/
theorem booked_respond (e : Engine) (s : State) (r : Request) :
    Booked ((e.roundsBy s r).flatMap e.wonIn) (e.acceptedBy s r) s (e.respond s r) := by
  cases r with
  | named name payload =>
    have h := booked_handle e { s with ids := s.ids.nextEvent.2 }
      ⟨s.ids.nextEvent.1, name, payload, .external⟩
    exact ⟨h.dispatched, h.known, h.filed, h.balance⟩
  | event event => exact booked_handle e s event
  | abort id reason => exact booked_abort e s id reason

/-! ## Runs -/

/-- In a round every call that is asked for wins or loses. -/
theorem count_requestedIn (e : Engine) (round : Step × Event) (n : InvocationId) :
    (e.wonIn round).count n + (e.overriddenIn round).count n = (e.requestedIn round).count n := by
  have hperm := (Conflict.settles_resolve e.config.tieBreak
    (emissionsOf (e.gather round.2 round.1).2)).perm
  have hcalls := (hperm.filterMap Emission.call?).count_eq n
  rwa [List.filterMap_append, List.count_append] at hcalls

theorem count_rounds (e : Engine) (rounds : List (Step × Event)) (n : InvocationId) :
    (rounds.flatMap e.wonIn).count n + (rounds.flatMap e.overriddenIn).count n =
      (rounds.flatMap e.requestedIn).count n := by
  induction rounds with
  | nil => rfl
  | cons round rounds ih =>
    simp only [List.flatMap_cons, List.count_append]
    have := count_requestedIn e round n
    omega

theorem dispatched_count_add (e : Engine) (s : State) (rs : List Request) (n : InvocationId) :
    (e.dispatched s rs).count n + (e.overridden s rs).count n = (e.requested s rs).count n := by
  induction rs generalizing s with
  | nil => rfl
  | cons r rs ih =>
    simp only [dispatched, overridden, requested, along] at ih ⊢
    simp only [List.count_append, (booked_respond e s r).dispatched]
    have := count_rounds e (e.roundsBy s r) n
    have := ih (e.respond s r).state
    omega

/-- **The books balance**: a call that was dispatched is in flight, or its result was accepted, or
it was cancelled. -/
theorem dispatched_count (e : Engine) (s : State) (rs : List Request) (n : InvocationId)
    (honce : (e.requested s rs).count n + (Dict.has s.calls n).toNat ≤ 1) :
    (e.dispatched s rs).count n + (s.calls.carries n).toNat =
      ((e.after s rs).calls.carries n).toNat + (e.accepted s rs).count n +
        (e.cancelled s rs).count n := by
  induction rs generalizing s with
  | nil => exact Nat.zero_add _
  | cons r rs ih =>
    have hb := booked_respond e s r
    have hdispatched : (e.dispatched s (r :: rs)).count n =
        ((e.roundsBy s r).flatMap e.wonIn).count n +
          (e.dispatched (e.respond s r).state rs).count n := by
      simp only [dispatched, along, List.count_append, hb.dispatched]
    have hwon : ((e.roundsBy s r).flatMap e.wonIn).count n ≤
        ((e.roundsBy s r).flatMap e.requestedIn).count n := by
      have := count_rounds e (e.roundsBy s r) n
      omega
    simp only [requested, along, List.count_append] at honce
    have hnow := hb.balance n (by omega)
    -- what was dispatched in this step is not asked for again
    have hlater := ih (e.respond s r).state (by
      cases hn : Dict.has (e.respond s r).state.calls n with
      | false => exact Nat.le_trans (Nat.le_add_left _ _) (Nat.le_of_add_right_le honce)
      | true =>
        simp only [requested, Bool.toNat_true]
        rcases hb.known n hn with hold | hnew
        · rw [hold, Bool.toNat_true] at honce
          omega
        · have := List.count_pos_iff.2 hnew
          omega)
    simp only [accepted, cancelled, along, List.count_append] at hlater ⊢
    rw [hdispatched]
    rw [show e.after s (r :: rs) = e.after (e.respond s r).state rs from rfl]
    omega

/-! ## Late results -/

/-- The table without the calls in flight of some instances. -/
def Calls.without (calls : Calls) (gone : List Instance) : Calls :=
  calls.filter fun c => !(c.2.isInFlight && gone.any fun i => i.id = c.2.instanceId)

/-- Nothing comes of an event but what comes of the beginning of any step: it is counted, instances
are let go that ended long ago, and their calls are cancelled. -/
structure Engine.Overlooks (e : Engine) (s : State) (event : Event) : Prop where
  outcome : (e.handle s event).outcome = .ok []
  state : (e.handle s event).state =
    { s with
      step := s.step + 1
      instances := s.instances.filter fun i => !e.isStale (s.step + 1) i
      calls := s.calls.without (s.instances.filter (e.isStale (s.step + 1))) }
  silent : ∀ x ∈ (e.handle s event).signals,
    x.dispatch? = none ∧ x.timer? = none ∧ x.stoppedTimer? = none
  cancelled : ∀ n, (Signal.cancellationsIn (e.handle s event).signals).count n +
    ((e.handle s event).state.calls.carries n).toNat = (s.calls.carries n).toNat

theorem calls_cancelCall (s : Step) (n : InvocationId) :
    (s.cancelCall n).state.calls = Dict.remove s.state.calls n := by
  rw [Step.cancelCall]
  split
  · next hnone =>
    refine (List.filter_eq_self.2 fun c hc => ?_).symm
    rw [decide_eq_true_eq]
    exact fun heq => Dict.get?_eq_none_iff.1 hnone (heq ▸ List.mem_map_of_mem hc)
  · simp only
    split <;> rfl

theorem calls_foldl_cancelCall (ns : List InvocationId) (s : Step) :
    (ns.foldl Step.cancelCall s).state.calls = s.state.calls.filter fun c => c.1 ∉ ns := by
  induction ns generalizing s with
  | nil => exact (List.filter_eq_self.2 fun c _ => rfl).symm
  | cons n ns ih =>
    rw [List.foldl_cons, ih, calls_cancelCall, Dict.remove, List.filter_filter]
    refine List.filter_congr fun c _ => ?_
    simp [Bool.and_comm]

/-- In a table that is in order no call is taken for another one. -/
theorem mem_inFlightFor {calls : Calls} (hf : calls.Filed) {c : InvocationId × PendingCall}
    (hc : c ∈ calls) (id : InstanceId) :
    c.1 ∈ calls.inFlightFor id ↔ c.2.instanceId = id ∧ c.2.isInFlight = true := by
  have hiff (x : PendingCall) : x ∈ (Dict.values calls).filter (fun c =>
      c.instanceId = id && c.isInFlight) ↔
        x ∈ Dict.values calls ∧ x.instanceId = id ∧ x.isInFlight = true := by
    rw [List.mem_filter, Bool.and_eq_true, decide_eq_true_eq]
  rw [Calls.inFlightFor, List.mem_map]
  constructor
  · rintro ⟨x, hx, hxc⟩
    obtain ⟨hx, hown⟩ := (hiff x).1 hx
    obtain ⟨c', hc', rfl⟩ := List.mem_map.1 hx
    rw [hf.own c' hc'] at hxc
    have hnodup := hf.sorted.nodup_keys
    have hsame : some c'.2 = some c.2 := by
      rw [← Dict.get?_of_mem hnodup hc', ← Dict.get?_of_mem hnodup hc, hxc]
    rwa [Option.some.inj hsame] at hown
  · exact fun hown => ⟨c.2, (hiff c.2).2 ⟨List.mem_map_of_mem hc, hown⟩, hf.own c hc⟩

theorem calls_cancelCallsOf {s : Step} (hf : s.state.calls.Filed) (id : InstanceId) :
    (s.cancelCallsOf id).state.calls =
      s.state.calls.filter fun c => !(c.2.isInFlight && c.2.instanceId = id) := by
  rw [Step.cancelCallsOf, calls_foldl_cancelCall]
  refine List.filter_congr fun c hc => ?_
  rw [decide_not, Bool.not_inj_iff]
  refine Bool.eq_iff_iff.2 ?_
  rw [decide_eq_true_eq, mem_inFlightFor hf hc, Bool.and_eq_true, decide_eq_true_eq, and_comm]

theorem calls_foldl_evict {s : Step} (hf : s.state.calls.Filed) (gone : List Instance) :
    (gone.foldl evict s).state.calls = s.state.calls.without gone := by
  induction gone generalizing s with
  | nil =>
    refine (List.filter_eq_self.2 fun c _ => ?_).symm
    rw [List.any_nil, Bool.and_false]
    rfl
  | cons i gone ih =>
    have hfiled : (evict s i).state.calls.Filed :=
      (tallied_cancelCallsOf s i.id).filed hf
    rw [List.foldl_cons, ih hfiled]
    have hcalls : (evict s i).state.calls =
        s.state.calls.filter fun c => !(c.2.isInFlight && c.2.instanceId = i.id) :=
      calls_cancelCallsOf hf i.id
    rw [hcalls, Calls.without, Calls.without, List.filter_filter]
    refine List.filter_congr fun c _ => ?_
    rw [List.any_cons, Bool.and_or_distrib_left, Bool.not_or, Bool.and_comm]
    simp only [eq_comm]

theorem calls_beginStep {e : Engine} {s : State} (hf : s.calls.Filed) :
    (e.beginStep s).state.calls =
      s.calls.without (s.instances.filter (e.isStale (s.step + 1))) := by
  rw [beginStep, List.partition_eq_filter_filter]
  exact calls_foldl_evict (s := .begin (e.counted s)) hf _

/-- Collecting observations changes nothing where there are none. -/
theorem state_drain {s : Step} (hd : ∀ i ∈ s.state.instances, i.observations = []) :
    s.drain.state = s.state := by
  have hsame : s.state.instances.map (fun i => { i with observations := [] }) =
      s.state.instances := by
    conv => rhs; rw [← List.map_id s.state.instances]
    refine List.map_congr_left fun i hi => ?_
    rw [← hd i hi]
    rfl
  rw [Step.drain]
  simp only [hsame]

theorem overlooks_of_ofStep {e : Engine} {s : State} {event : Event} {step : Step}
    (hf : s.calls.Filed) (hd : ∀ i ∈ s.instances, i.observations = [])
    (hh : e.handle s event = .ofStep step) (hstate : step.state = (e.beginStep s).state)
    (hr : (Step.begin (e.counted s)).Retracts step) (hb : Tallied [] (.begin s) step) :
    e.Overlooks s event := by
  have hcalls := calls_beginStep (e := e) hf
  rw [← hstate] at hcalls
  have hinstances : step.state.instances =
      s.instances.filter fun i => !e.isStale (s.step + 1) i := by
    rw [hr.state]
    rfl
  have hdrained : ∀ i ∈ step.state.instances, i.observations = [] := fun i hi =>
    hd i (List.mem_filter.1 (hinstances ▸ hi)).1
  have hreply := state_drain hdrained
  have hbooked := booked_of_tallied hb
  rw [← hh] at hbooked
  refine ⟨?_, ?_, fun x hx => ?_, fun n => ?_⟩
  · rw [hh]
    exact congrArg Except.ok hr.outputs
  · rw [hh]
    refine hreply.trans (hr.state.trans ?_)
    rw [hcalls]
    rfl
  · rw [hh] at hx
    rcases List.mem_append.1 hx with hx | hx
    · obtain ⟨more, hsignals, hmore⟩ := hr.signals
      exact hmore x (by rwa [hsignals] at hx)
    · obtain ⟨o, -, rfl⟩ := List.mem_map.1 hx
      exact ⟨rfl, rfl, rfl⟩
  · have hbalance := hbooked.balance n (by
      rw [List.count_nil, Nat.zero_add]
      exact Bool.toNat_le _)
    rw [List.count_nil] at hbalance
    omega

theorem overlooks_of_not_carries {e : Engine} {s : State} {event : Event}
    (hf : s.calls.Filed) (hd : ∀ i ∈ s.instances, i.observations = [])
    (hcheck : event.check = .ok ()) (hname : event.name = Event.actionResultName)
    (hlate : ∀ n, event.invocation? = some n → s.calls.carries n = false) :
    e.Overlooks s event := by
  have hbegin := tallied_beginStep e s
  have hretracts := e.retracts_beginStep s
  have ht := e.takes s event
  generalize hreply : e.handle s event = reply at ht
  generalize e.openingOf? s event = o at ht
  cases ht with
  | refused err herr =>
    rw [hcheck] at herr
    cases herr
  | idle => exact overlooks_of_ofStep hf hd hreply rfl hretracts hbegin
  | late n =>
    refine overlooks_of_ofStep hf hd hreply rfl (hretracts.trans
      ⟨rfl, rfl, rfl, rfl, _, rfl, List.forall_mem_singleton.2 ⟨rfl, rfl, rfl⟩⟩) ?_
    exact hbegin.trans (tallied_of_quiet (Step.quiet_observe _ _))
  | accepted m calls hres hm ha =>
    -- what is in flight when the step has begun was so before
    have hcarries := (put_of_accept? hm ha).1
    have hbalance := hbegin.balance m (by
      rw [List.count_nil, Nat.zero_add]
      exact Bool.toNat_le _)
    have hbefore : (Step.begin s).state.calls.carries m = false := hlate m hm
    rw [hbefore, hcarries, Bool.toNat_true, Bool.toNat_false, List.count_nil] at hbalance
    have hnone : (Signal.cancellationsIn (Step.begin s).signals).count m = 0 := rfl
    omega
  | fired timer hother => exact absurd hname hother
  | processed hother => exact absurd hname hother

theorem filed_after (e : Engine) {s : State} (requests : List Request) (hf : s.calls.Filed)
    (hd : ∀ i ∈ s.instances, i.observations = []) :
    (e.after s requests).calls.Filed ∧
      ∀ i ∈ (e.after s requests).instances, i.observations = [] := by
  induction requests generalizing s with
  | nil => exact ⟨hf, hd⟩
  | cons r rs ih => exact ih ((booked_respond e s r).filed hf) (drained_respond e hd r)

namespace Engine

/-- **Every call is settled once**, in whatever order results come in, if the invocations that heads
ask for are distinct.  Each is dispatched at most once, and not if it lost; and if it was, it is in
flight, or its result was accepted, or it was cancelled, only one of these and only once.  A result
of a call that is not in flight is overlooked. -/
theorem calls_settled_once (e : Engine) (ids : IdSource) (requests : List Request)
    (hdistinct : (e.requested (.initial ids) requests).Nodup) :
    (∀ n, (e.dispatched (.initial ids) requests).count n ≤ 1) ∧
    (∀ n ∈ e.overridden (.initial ids) requests, n ∉ e.dispatched (.initial ids) requests) ∧
    (∀ n, (e.dispatched (.initial ids) requests).count n =
      ((e.after (.initial ids) requests).calls.carries n).toNat +
        (e.accepted (.initial ids) requests).count n +
          (e.cancelled (.initial ids) requests).count n) ∧
    ∀ event, event.check = .ok () → event.name = Event.actionResultName →
      (∀ n, event.invocation? = some n →
        (e.after (.initial ids) requests).calls.carries n = false) →
      e.Overlooks (e.after (.initial ids) requests) event := by
  have hfair := dispatched_count_add e (.initial ids) requests
  have honce := List.nodup_iff_count_le_one.1 hdistinct
  obtain ⟨hf, hd⟩ := filed_after e (s := .initial ids) requests ⟨List.Pairwise.nil, nofun⟩ nofun
  refine ⟨fun n => ?_, fun n hlost hwon => ?_, fun n => ?_, fun event hcheck hname hlate =>
    overlooks_of_not_carries hf hd hcheck hname hlate⟩
  · have := hfair n
    have := honce n
    omega
  · have := hfair n
    have := honce n
    have := List.count_pos_iff.2 hlost
    have := List.count_pos_iff.2 hwon
    omega
  · exact dispatched_count e (.initial ids) requests n (honce n)

end Engine

end Runs

end

namespace Engine

/-! ## A result that comes twice -/

/-- A flow that calls an action and waits for the result. -/
def asker (name : String) : Flow where
  id := ⟨name⟩
  description := none
  priority := none
  activation := some ⟨"ask", []⟩
  body := [.call (.named "act")]

/-- Two flows that compete for a call. -/
def askers : Engine where
  catalog := ⟨["a", "b"].map fun name => ⟨asker name, .ofBody (asker name).body⟩⟩
  config := Config.default

/-- The event both flows start on. -/
def ask : Event := ⟨⟨"in"⟩, "ask", [], .external⟩

/-- The call that is dispatched. -/
def asked : InvocationId := ⟨"6e789e6a-a1b9-45f4-8d73-fe3de975ac26"⟩

/-- Its result. -/
def answer : Event := .actionResult asked "act" (.completed .null)

/-- When its result has been accepted, the call is not in flight and was not cancelled, and the
result is overlooked when it comes again. -/
theorem calls_settled_once_askers :
    (askers.requested (.initial (.seeded 0)) [.event ask, .event answer]).Nodup ∧
      asked ∈ askers.dispatched (.initial (.seeded 0)) [.event ask, .event answer] ∧
      asked ∈ askers.accepted (.initial (.seeded 0)) [.event ask, .event answer] ∧
      asked ∉ askers.cancelled (.initial (.seeded 0)) [.event ask, .event answer] ∧
      askers.Overlooks (askers.after (.initial (.seeded 0)) [.event ask, .event answer])
        answer := by
  have hdistinct :
      (askers.requested (.initial (.seeded 0)) [.event ask, .event answer]).Nodup := by
    decide +kernel
  have hdispatched :
      asked ∈ askers.dispatched (.initial (.seeded 0)) [.event ask, .event answer] := by
    decide +kernel
  have haccepted :
      asked ∈ askers.accepted (.initial (.seeded 0)) [.event ask, .event answer] := by
    decide +kernel
  obtain ⟨honce, -, hbalance, hlate⟩ :=
    calls_settled_once askers (.seeded 0) [.event ask, .event answer] hdistinct
  have hle := honce asked
  have hpos := List.count_pos_iff.2 haccepted
  have hsum := hbalance asked
  have hgone : ((askers.after (.initial (.seeded 0)) [.event ask, .event answer]).calls.carries
      asked).toNat = 0 := by omega
  refine ⟨hdistinct, hdispatched, haccepted, fun hcancelled => ?_, ?_⟩
  · have := List.count_pos_iff.2 hcancelled
    omega
  · refine hlate answer (by decide +kernel) rfl fun n hn => ?_
    have hsame : answer.invocation? = some asked := by decide +kernel
    obtain rfl : asked = n := Option.some.inj (hsame.symm.trans hn)
    exact Bool.toNat_eq_zero.1 hgone

end Engine

end EventFlow

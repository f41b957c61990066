import EventFlow.Proofs.Engine.Settled
import EventFlow.Proofs.Engine.Tended
import EventFlow.Proofs.Engine.Timers
import EventFlow.Proofs.Instance.Origin
import EventFlow.Query.Eval

/-!
# No orphans

Between requests every call that is pending and every timer that is running belongs to an instance
that is there and may still want it.  This depends on the order in which a round does things: calls
and timers are entered on behalf of instances that may have come to their ends in the same round,
and it is only when these are wound up that the tables are put in order again.

## What is here

* `State.Owned` is what holds while a round is under way, and `State.Tidy` what holds between
  rounds.  **`tidy_round`** leads from one to the next by way of the other.
* `tidy_respond`: requests leave the tables tidy.
* `Engine.History` are the runs of an engine, with the requests made in them, and the states in
  which they were made.

**`tables_hold_no_orphans`** is the result.
-/

set_option autoImplicit false

namespace EventFlow

section

variable {Compiled Found : Type} [Query.Library Compiled Found]

/-- Whoever owns a call has not been wound up as aborted, and whoever owns a timer has not been
wound up at all.  One call may be an exception, whose result is being processed. -/
structure State.Owned (spared : Option InvocationId) (s : State) : Prop where
  filed : s.calls.Filed
  marked : ∀ i ∈ s.instances, i.terminatedAt.isSome = true → i.status.isTerminal = true
  calls : ∀ c ∈ s.calls, some c.1 ≠ spared → c.2.status = .inFlight ∧ c.2.result = none ∧
    ∃ i ∈ s.instances, i.id = c.2.instanceId ∧ (i.status = .aborted → i.terminatedAt = none)
  timers : ∀ x ∈ s.timers, ∃ i ∈ s.instances, i.id = x.2 ∧ i.terminatedAt = none

/-- All that have ended were wound up; whoever owns a call has not been aborted, and whoever owns a
timer has not ended. -/
structure State.Tidy (spared : Option InvocationId) (s : State) : Prop where
  filed : s.calls.Filed
  marked : ∀ i ∈ s.instances, i.terminatedAt.isSome = i.status.isTerminal
  calls : ∀ c ∈ s.calls, some c.1 ≠ spared → c.2.status = .inFlight ∧ c.2.result = none ∧
    ∃ i ∈ s.instances, i.id = c.2.instanceId ∧ i.status ≠ .aborted
  timers : ∀ x ∈ s.timers, ∃ i ∈ s.instances, i.id = x.2 ∧ i.status.isTerminal = false

section Orphans

open Engine

variable {e : Engine} {s s' : Step} {t t' : State} {event : Event} {requests : Requests}
  {spared : Option InvocationId}

theorem State.Tidy.owned (h : t.Tidy spared) : t.Owned spared := by
  refine ⟨h.filed, fun i hi hsome => by rwa [← h.marked i hi], fun c hc hne => ?_, fun x hx => ?_⟩
  · obtain ⟨hflight, hnone, i, hi, hid, hlive⟩ := h.calls c hc hne
    exact ⟨hflight, hnone, i, hi, hid, fun hab => absurd hab hlive⟩
  · obtain ⟨i, hi, hid, hlive⟩ := h.timers x hx
    refine ⟨i, hi, hid, ?_⟩
    rw [← Option.isSome_eq_false_iff.trans Option.isNone_iff_eq_none, h.marked i hi, hlive]

/-! ## The first half of a round -/

/-- An instance is wound up only when it has ended. -/
theorem marked_keep (e : Engine) :
    e.InstancesKeep fun i => i.terminatedAt.isSome = true → i.status.isTerminal = true where
  capture _ _ _ := trivial
  start {flow bindings _} _ id priority createdAt parent specificity w _ hr := by
    have hnew := @remains_observe (.instanceSpawned id flow.id parent) rfl
      (.spawn id flow.id priority createdAt parent bindings specificity)
    refine ⟨fun hsome => ?_, fun _ _ => trivial⟩
    rw [← hr, (hnew.trans (remains_start flow.program _ w).1).terminatedAt] at hsome
    cases hsome
  advance {i flow w head event r} hi _ hadv := by
    refine ⟨fun hsome => ?_, fun _ _ => trivial⟩
    have hr := (remains_advance? hadv).1
    rw [hr.terminatedAt] at hsome
    rw [hr.status (hi hsome)]
    exact hi hsome
  abort {i} reason hi hsome := by
    have hr := remains_abort i reason
    rw [hr.terminatedAt] at hsome
    rw [hr.status (hi hsome)]
    exact hi hsome
  note _ hi := hi
  windUp _ hend _ _ := hend
  drain hi := hi

/-- Everything is asked for by instances that were not wound up. -/
theorem onBehalf_gather_live (e : Engine) (event : Event)
    (hs : ∀ i ∈ s.state.instances, i.terminatedAt.isSome = true → i.status.isTerminal = true) :
    OnBehalf (fun i => i.terminatedAt = none) (e.gather event s).1 (e.gather event s).2 := by
  refine onBehalf_gather (marked_keep e) (fun hp hr => hr.terminatedAt.trans hp)
    (fun {i} _ _ _ _ hi hadv => ?_) id hs
  cases hat : i.terminatedAt with
  | none => rfl
  | some at' =>
    have hend := not_ended_of_advance? hadv
    rw [hi (by rw [hat]; rfl)] at hend
    cases hend

/-- What is owned stays so if no instance gets lost, and instances that were not wound up may own
more. -/
theorem State.Owned.endures (h : t.Owned spared) (he : t.Endures t') (hfiled : t'.calls.Filed)
    (hmarked : ∀ i ∈ t'.instances, i.terminatedAt.isSome = true → i.status.isTerminal = true)
    (hcalls : ∀ c ∈ t'.calls, c ∈ t.calls ∨ c.2.status = .inFlight ∧ c.2.result = none ∧
      ∃ i ∈ t'.instances, i.id = c.2.instanceId ∧ i.terminatedAt = none)
    (htimers : ∀ x ∈ t'.timers, x ∈ t.timers ∨
      ∃ i ∈ t'.instances, i.id = x.2 ∧ i.terminatedAt = none) : t'.Owned spared := by
  refine ⟨hfiled, hmarked, fun c hc hne => ?_, fun x hx => ?_⟩
  · rcases hcalls c hc with hold | ⟨hflight, hnone, i, hi, hid, hat⟩
    · obtain ⟨hflight, hnone, i, hi, hid, hab⟩ := h.calls c hold hne
      obtain ⟨y, hy, hiy⟩ := he i hi
      refine ⟨hflight, hnone, y, hy, hiy.id.trans hid, fun haborted => ?_⟩
      rw [hiy.terminatedAt]
      cases hend : i.status.isTerminal with
      | true => exact hab ((hiy.status hend).symm.trans haborted)
      | false =>
        cases hat : i.terminatedAt with
        | none => rfl
        | some at' => exact absurd (h.marked i hi (by rw [hat]; rfl)) (by simp [hend])
    · exact ⟨hflight, hnone, i, hi, hid, fun _ => hat⟩
  · rcases htimers x hx with hold | hnew
    · obtain ⟨i, hi, hid, hat⟩ := h.timers x hold
      obtain ⟨y, hy, hiy⟩ := he i hi
      exact ⟨y, hy, hiy.id.trans hid, hiy.terminatedAt.trans hat⟩
    · exact hnew

theorem endures_apply (e : Engine) (s : Step) (requests : Requests) :
    s.state.Endures (e.apply s requests).state := by
  refine e.apply_preserves (P := fun s' => s.state.Endures s'.state) requests
    (fun _ _ _ h => h) (fun s' m _ h => ?_) (fun s' l _ h => ?_) (fun _ _ _ h => h)
    (State.endures_of_instances rfl)
  · exact h.trans (State.endures_of_instances (instances_deliver s' m))
  · have hnoted := endures_updateInstance s' l.emission.instanceId
      (f := (·.noteOverridden l.emission.id)) fun i => ⟨rfl, rfl, fun _ => rfl⟩
    refine (h.trans hnoted).trans ?_
    rw [suppress]
    cases l.emission.intent <;> exact State.endures_of_instances rfl

/-- **What competes is entered on behalf of instances that were not wound up.** -/
theorem owned_compete (e : Engine) (event : Event) (hs : s.state.Owned spared) :
    (e.compete event s).state.Owned spared := by
  have hagrees := agrees_gather e event s
  have hstill := still_gather e event s
  have hgather : (e.gather event s).1.state.Owned spared := by
    refine hs.endures (endures_gather e event s) ?_ ((marked_keep e).gather hs.marked)
      (fun c hc => .inl ?_) fun x hx => .inl ?_
    · rw [hagrees.calls]
      exact hs.filed
    · rwa [hagrees.calls] at hc
    · rwa [hstill.timers] at hx
  have happly := endures_apply e (e.gather event s).1 (e.gather event s).2
  have howner (q : InstanceId × Effects) (hq : q ∈ (e.gather event s).2) :
      ∃ i ∈ (e.compete event s).state.instances, i.id = q.1 ∧ i.terminatedAt = none := by
    obtain ⟨-, i, hi, hid, hat⟩ := onBehalf_gather_live e event hs.marked q hq
    obtain ⟨y, hy, hiy⟩ := happly i hi
    exact ⟨y, hy, hiy.id.trans hid, hiy.terminatedAt.trans hat⟩
  refine hgather.endures happly ((tallied_apply e _ _).filed hgather.filed)
    ((marked_keep e).apply hgather.marked _) (fun c hc => ?_) fun x hx => ?_
  · rw [calls_compete] at hc
    rcases Dict.mem_putAll hc with hnew | hold
    · obtain ⟨m, hm, hpending⟩ := List.mem_filterMap.1 hnew
      have hsettles := Conflict.settles_resolve e.config.tieBreak
        (emissionsOf (e.gather event s).2)
      have hasked := hsettles.perm.subset (List.mem_append_left _ hm)
      obtain ⟨q, hq, hmq⟩ := List.mem_flatMap.1 hasked
      obtain ⟨hst, -⟩ := onBehalf_gather_live e event hs.marked q hq
      rw [Emission.pending?] at hpending
      split at hpending
      · cases hpending
      · cases hpending
        obtain ⟨i, hi, hid, hat⟩ := howner q hq
        exact .inr ⟨rfl, rfl, i, hi, hid.trans (hst m hmq).1.symm, hat⟩
    · exact .inl (hagrees.calls ▸ hold)
  · refine ((clocked_apply e _ _).known x hx).imp_right fun hnew => ?_
    obtain ⟨q, hq, hx⟩ := List.mem_flatMap.1 hnew
    obtain ⟨r, -, rfl⟩ := List.mem_map.1 hx
    exact howner q hq

/-! ## Winding up -/

theorem calls_windUp {k : Nat} {i : Instance} (hf : s.state.calls.Filed)
    (hi : s.state.instances[k]? = some i) : (windUp s k).state.calls =
      if i.status = .aborted then
        s.state.calls.filter fun c => !(c.2.isInFlight && c.2.instanceId = i.id)
      else s.state.calls := by
  obtain ⟨given, -, hgiven, heq⟩ := windUp_eq hi
  have hstopped : (given.stopTimersOf i.id).state.calls = given.state.calls :=
    List.foldlRecOn _ _ (motive := fun s' : Step => s'.state.calls = given.state.calls) rfl
      fun _ hs _ _ => hs
  rw [heq]
  refine hstopped.trans ?_
  rw [hgiven]
  have hnoted : (noteEndOf s k i).state.calls.Filed := hf
  split
  · exact calls_cancelCallsOf hnoted i.id
  · rfl

theorem mem_windUp (hf : s.state.calls.Filed) (k : Nat) :
    (∀ c ∈ (windUp s k).state.calls, c ∈ s.state.calls ∧ (c.2.isInFlight = true →
      ∀ i, s.state.instances[k]? = some i → i.status = .aborted → i.id ≠ c.2.instanceId)) ∧
    ∀ x ∈ (windUp s k).state.timers, x ∈ s.state.timers ∧
      ∀ i, s.state.instances[k]? = some i → i.id ≠ x.2 := by
  cases hk : s.state.instances[k]? with
  | none =>
    rw [windUp, hk]
    exact ⟨fun c hc => ⟨hc, fun _ i hi => by cases hi⟩, fun x hx => ⟨hx, fun i hi => by cases hi⟩⟩
  | some i =>
    rw [calls_windUp hf hk, (windUp_spec hk).1]
    refine ⟨fun c hc => ?_, fun x hx => ?_⟩
    · split at hc
      · obtain ⟨hc, hkept⟩ := List.mem_filter.1 hc
        refine ⟨hc, fun hflight y hy _ hid => ?_⟩
        obtain rfl := Option.some.inj hy
        simp [hflight, hid] at hkept
      · next hlive =>
        refine ⟨hc, fun _ y hy hab => ?_⟩
        obtain rfl := Option.some.inj hy
        exact absurd hab hlive
    · obtain ⟨hx, hkept⟩ := List.mem_filter.1 hx
      refine ⟨hx, fun y hy hid => ?_⟩
      obtain rfl := Option.some.inj hy
      rw [decide_eq_true_eq] at hkept
      exact hkept (List.mem_map_of_mem (List.mem_filter.2 ⟨hx, decide_eq_true hid.symm⟩))

/-- Nothing is left of what was owned by instances that are wound up: no timers, and no calls in
flight if they were aborted. -/
theorem mem_foldl_windUp (ks : List Nat) {s : Step} (hf : s.state.calls.Filed) :
    (∀ c ∈ (ks.foldl windUp s).state.calls, c ∈ s.state.calls ∧ (c.2.isInFlight = true →
      ∀ k ∈ ks, ∀ i, s.state.instances[k]? = some i → i.status = .aborted →
        i.id ≠ c.2.instanceId)) ∧
    ∀ x ∈ (ks.foldl windUp s).state.timers, x ∈ s.state.timers ∧
      ∀ k ∈ ks, ∀ i, s.state.instances[k]? = some i → i.id ≠ x.2 := by
  induction ks generalizing s with
  | nil => exact ⟨fun c hc => ⟨hc, fun _ => List.forall_mem_nil _⟩, fun x hx =>
      ⟨hx, List.forall_mem_nil _⟩⟩
  | cons k ks ih =>
    obtain ⟨hcalls, htimers⟩ := mem_windUp hf k
    obtain ⟨hcalls', htimers'⟩ := ih ((tallied_windUp s k).filed hf)
    -- winding up the first one changes neither identities nor what has become of the others
    have hlater {j : Nat} {i : Instance} (hi : s.state.instances[j]? = some i) :
        ∃ y, (windUp s k).state.instances[j]? = some y ∧ y.id = i.id ∧ y.status = i.status := by
      rw [(getElem?_windUp s k j).1, hi]
      refine ⟨_, rfl, ?_⟩
      split <;> exact ⟨rfl, rfl⟩
    refine ⟨fun c hc => ?_, fun x hx => ?_⟩
    · obtain ⟨hc, hrest⟩ := hcalls' c hc
      obtain ⟨hc, hfirst⟩ := hcalls c hc
      refine ⟨hc, fun hflight => List.forall_mem_cons.2 ⟨hfirst hflight, fun j hj i hi hab => ?_⟩⟩
      obtain ⟨y, hy, hid, hstatus⟩ := hlater hi
      exact hid ▸ hrest hflight j hj y hy (hstatus.trans hab)
    · obtain ⟨hx, hrest⟩ := htimers' x hx
      obtain ⟨hx, hfirst⟩ := htimers x hx
      refine ⟨hx, List.forall_mem_cons.2 ⟨hfirst, fun j hj i hi => ?_⟩⟩
      obtain ⟨y, hy, hid, -⟩ := hlater hi
      exact hid ▸ hrest j hj y hy

/-- Once its end has been noted, an instance has a date exactly when it has ended. -/
theorem marked_noteEnd {i : Instance} (step : Nat)
    (h : i.terminatedAt.isSome = true → i.status.isTerminal = true) :
    (noteEnd step i).terminatedAt.isSome = (noteEnd step i).status.isTerminal := by
  rw [noteEnd]
  split
  · next hend =>
    rw [isEnded, Bool.and_eq_true] at hend
    exact hend.1.symm
  · next hnot =>
    refine Bool.eq_iff_iff.2 ⟨h, fun hend => ?_⟩
    rw [isEnded, hend, Bool.true_and, Bool.not_eq_true, Option.isNone_eq_false_iff] at hnot
    exact hnot

/-- **Winding up puts the tables in order.** -/
theorem tidy_windUpEnded (hs : s.state.Owned spared) : (windUpEnded s).state.Tidy spared := by
  obtain ⟨hcalls, htimers⟩ := mem_foldl_windUp (ended s) hs.filed
  have hplace {i : Instance} (hi : i ∈ s.state.instances) (hend : isEnded i = true) :
      ∃ k ∈ ended s, s.state.instances[k]? = some i := by
    obtain ⟨k, hk⟩ := List.mem_iff_getElem?.1 hi
    exact ⟨k, mem_ended.2 ⟨i, hk, hend⟩, hk⟩
  have hnoted {i : Instance} (hi : i ∈ s.state.instances) :
      noteEnd s.state.step i ∈ (windUpEnded s).state.instances := by
    rw [instances_windUpEnded]
    exact List.mem_map_of_mem hi
  refine ⟨(tallied_windUpEnded s).filed hs.filed, fun i hi => ?_, fun c hc hne => ?_,
    fun x hx => ?_⟩
  · rw [instances_windUpEnded] at hi
    obtain ⟨x, hx, rfl⟩ := List.mem_map.1 hi
    exact marked_noteEnd _ (hs.marked x hx)
  · obtain ⟨hc, hgone⟩ := hcalls c hc
    obtain ⟨hflight, hnone, i, hi, hid, hab⟩ := hs.calls c hc hne
    refine ⟨hflight, hnone, _, hnoted hi, (noteEnd_id _ i).trans hid, fun haborted => ?_⟩
    rw [noteEnd_status] at haborted
    obtain ⟨k, hk, hik⟩ := hplace hi (by rw [isEnded, haborted, hab haborted]; rfl)
    refine hgone ?_ k hk i hik haborted hid
    rw [PendingCall.isInFlight, hflight]
    rfl
  · obtain ⟨hx, hgone⟩ := htimers x hx
    obtain ⟨i, hi, hid, hat⟩ := hs.timers x hx
    refine ⟨_, hnoted hi, (noteEnd_id _ i).trans hid, ?_⟩
    rw [noteEnd_status]
    cases hend : i.status.isTerminal with
    | false => rfl
    | true =>
      obtain ⟨k, hk, hik⟩ := hplace hi (by rw [isEnded, hend, hat]; rfl)
      exact absurd hid (hgone k hk i hik)

/-- Tables stay tidy when instances keep what they are, and entries are only lost. -/
theorem State.Tidy.fewer (h : t.Tidy spared) (hfiled : t'.calls.Filed)
    (hmarked : ∀ i ∈ t'.instances, i.terminatedAt.isSome = i.status.isTerminal)
    (hkept : ∀ i ∈ t.instances, ∃ i' ∈ t'.instances, i'.id = i.id ∧ i'.status = i.status)
    (hcalls : ∀ c ∈ t'.calls, c ∈ t.calls) (htimers : ∀ x ∈ t'.timers, x ∈ t.timers) :
    t'.Tidy spared := by
  refine ⟨hfiled, hmarked, fun c hc hne => ?_, fun x hx => ?_⟩
  · obtain ⟨hflight, hnone, i, hi, hid, hab⟩ := h.calls c (hcalls c hc) hne
    obtain ⟨y, hy, hyid, hstatus⟩ := hkept i hi
    exact ⟨hflight, hnone, y, hy, hyid.trans hid, by rwa [hstatus]⟩
  · obtain ⟨i, hi, hid, hlive⟩ := h.timers x (htimers x hx)
    obtain ⟨y, hy, hyid, hstatus⟩ := hkept i hi
    exact ⟨y, hy, hyid.trans hid, by rwa [hstatus]⟩

theorem State.Tidy.drain (h : s.state.Tidy spared) : s.drain.state.Tidy spared := by
  refine h.fewer h.filed (fun i hi => ?_) (fun i hi => ?_) (fun _ hc => hc) fun _ hx => hx
  · obtain ⟨x, hx, rfl⟩ := List.mem_map.1 hi
    exact h.marked x hx
  · exact ⟨_, List.mem_map_of_mem hi, rfl, rfl⟩

/-- **Rounds leave the tables tidy.** -/
theorem tidy_round (e : Engine) (event : Event) (hs : s.state.Tidy spared) :
    (e.round s event).drain.state.Tidy spared :=
  (tidy_windUpEnded (owned_compete e event hs.owned)).drain

theorem tidy_runQueue (e : Engine) (budget : Nat) (hs : s.state.Tidy spared) :
    (e.runQueue budget s).state.Tidy spared :=
  (runQueue_preserves (P := State.Tidy spared) (fun _ event hs => tidy_round e event hs)
    budget hs).1

/-! ## Requests -/

/-- Instances that are let go own nothing any more once a step has begun. -/
theorem tidy_beginStep (e : Engine) (h : t.Tidy none) : (e.beginStep t).state.Tidy none := by
  have hretracts := e.retracts_beginStep t
  have hinstances : (e.beginStep t).state.instances =
      t.instances.filter fun i => !e.isStale (t.step + 1) i := by
    rw [hretracts.state]
    rfl
  have hstays {i : Instance} (hi : i ∈ t.instances) (hfresh : e.isStale (t.step + 1) i = false) :
      i ∈ (e.beginStep t).state.instances := by
    rw [hinstances]
    exact List.mem_filter.2 ⟨hi, by rw [hfresh]; rfl⟩
  refine ⟨(tallied_beginStep e t).filed h.filed, fun i hi => ?_, fun c hc hne => ?_,
    fun x hx => ?_⟩
  · rw [hinstances] at hi
    exact h.marked i (List.mem_filter.1 hi).1
  · rw [calls_beginStep h.filed] at hc
    obtain ⟨hc, hkept⟩ := List.mem_filter.1 hc
    obtain ⟨hflight, hnone, i, hi, hid, hab⟩ := h.calls c hc hne
    refine ⟨hflight, hnone, i, hstays hi ?_, hid, hab⟩
    -- otherwise the call would have been given up with its owner
    cases hstale : e.isStale (t.step + 1) i with
    | false => rfl
    | true =>
      have hgone : (t.instances.filter (e.isStale (t.step + 1))).any
          (fun i => i.id = c.2.instanceId) = true :=
        List.any_eq_true.2 ⟨i, List.mem_filter.2 ⟨hi, hstale⟩, decide_eq_true hid⟩
      rw [hgone, PendingCall.isInFlight, hflight] at hkept
      cases hkept
  · rw [(still_beginStep e t).timers] at hx
    obtain ⟨i, hi, hid, hlive⟩ := h.timers x hx
    refine ⟨i, hstays hi ?_, hid, hlive⟩
    have hmarked := h.marked i hi
    rw [hlive, Option.isSome_eq_false_iff, Option.isNone_iff_eq_none] at hmarked
    rw [isStale, hmarked]

/-- While the result of a call is processed, the call is not in order. -/
theorem tidy_accept {calls : Calls} {n : InvocationId} (h : t.Tidy none)
    (hn : event.invocation? = some n) (ha : t.calls.accept? event = some calls) :
    ({ t with calls } : State).Tidy (some n) := by
  obtain ⟨-, c, rfl, -, hown⟩ := put_of_accept? hn ha
  refine ⟨filed_put h.filed (hown h.filed), h.marked, fun x hx hne => ?_, h.timers⟩
  rcases Dict.mem_put hx with rfl | hx
  · exact absurd rfl hne
  · exact h.calls x hx nofun

/-- Then it is forgotten. -/
theorem tidy_remove {n : InvocationId} (h : t.Tidy (some n)) :
    ({ t with calls := Dict.remove t.calls n } : State).Tidy none := by
  refine ⟨filed_remove h.filed n, h.marked, fun c hc _ => ?_, h.timers⟩
  obtain ⟨hc, hne⟩ := List.mem_filter.1 hc
  exact h.calls c hc fun heq => of_decide_eq_true hne (Option.some.inj heq)

theorem tidy_handle (e : Engine) (h : t.Tidy none) (event : Event) :
    (e.handle t event).state.Tidy none := by
  have hbegin := tidy_beginStep e h
  have htakes := e.takes t event
  generalize e.handle t event = reply at htakes ⊢
  generalize e.openingOf? t event = o at htakes
  cases htakes with
  | refused => exact h
  | idle => exact hbegin.drain
  | late n => exact State.Tidy.drain (s := (e.beginStep t).observe (.lateResult n)) hbegin
  | accepted n calls _ hn ha =>
    have hend := tidy_runQueue e e.config.maxEventsPerStep
      (s := e.opened t event fun t => { t with calls }) (tidy_accept hbegin hn ha)
    exact State.Tidy.drain (s := Step.update _ _) (tidy_remove hend)
  | fired timer =>
    refine (tidy_runQueue e _ (s := e.opened t event fun t =>
      { t with timers := Dict.remove t.timers timer }) ?_).drain
    exact ⟨hbegin.filed, hbegin.marked, hbegin.calls, fun x hx =>
      hbegin.timers x (List.mem_filter.1 hx).1⟩
  | processed => exact (tidy_runQueue e _ (s := e.opened t event id) hbegin).drain

/-- **Requests leave the tables tidy.** -/
theorem tidy_respond (e : Engine) (h : t.Tidy none) (r : Request) :
    (e.respond t r).state.Tidy none := by
  cases r with
  | named name payload =>
    exact tidy_handle e (t := { t with ids := t.ids.nextEvent.2 })
      ⟨h.filed, h.marked, h.calls, h.timers⟩ _
  | event event => exact tidy_handle e h event
  | abort id reason =>
    have hgives := e.givesUp t id reason
    rw [respond]
    generalize e.abort t id reason = reply at hgives ⊢
    generalize e.opening? t (.abort id reason) = o at hgives
    cases hgives with
    | refused => exact h
    | aborted =>
      have howned := (tidy_beginStep e h).owned
      have haborted : ((e.beginStep t).updateInstance id (·.abort reason)).state.Owned none := by
        have hsame : ((e.beginStep t).updateInstance id (·.abort reason)).state.calls =
            (e.beginStep t).state.calls ∧
            ((e.beginStep t).updateInstance id (·.abort reason)).state.timers =
              (e.beginStep t).state.timers := by
          rw [Step.updateInstance]
          split <;> exact ⟨rfl, rfl⟩
        refine howned.endures (endures_updateInstance _ id fun i =>
          (remains_abort i reason).stands) ?_ (InstancesKeep.updateInstance howned.marked
            (fun _ => (marked_keep e).abort reason) id) (fun c hc => .inl ?_) fun x hx => .inl ?_
        · rw [hsame.1]
          exact howned.filed
        · rwa [hsame.1] at hc
        · rwa [hsame.2] at hx
      exact (tidy_runQueue e _ (tidy_windUpEnded haborted)).drain

/-! ## Firings that come too late -/

/-- A firing of a timer that is not running is overlooked. -/
theorem overlooks_of_not_running (hf : t.calls.Filed) (hd : ∀ i ∈ t.instances, i.observations = [])
    (hcheck : event.check = .ok ()) (hname : event.name = Event.timerFiredName)
    (hlate : ∀ n, event.timer? = some n → Dict.has t.timers n = false) : e.Overlooks t event := by
  have hbegin := tallied_beginStep e t
  have hretracts := e.retracts_beginStep t
  have hresult : event.name ≠ Event.actionResultName := by
    rw [hname]
    decide
  have htakes := e.takes t event
  generalize hreply : e.handle t event = reply at htakes
  generalize e.openingOf? t event = o at htakes
  cases htakes with
  | refused err herr =>
    rw [hcheck] at herr
    cases herr
  | idle => exact overlooks_of_ofStep hf hd hreply rfl hretracts hbegin
  | late _ _ _ hres => exact absurd hres hresult
  | accepted _ _ hres => exact absurd hres hresult
  | fired timer _ _ _ hn hruns =>
    rw [(still_beginStep e t).timers] at hruns
    rw [show (Step.begin (e.counted t)).state.timers = t.timers from rfl, hlate timer hn] at hruns
    cases hruns
  | processed _ hplain => exact absurd hname hplain

/-! ## Identities of instances -/

/-- In a round the identities of instances are those that were there, and some that are handed
out. -/
theorem sublist_instanceIds_round (hs : ∀ i ∈ s.state.instances, InOrder e i) :
    ((e.round s event).state.instanceIds.map InstanceId.text).Sublist
      (s.state.instanceIds.map InstanceId.text ++ e.issuedInRound event s) := by
  rw [instanceIds_round, issuedInRound_eq (gather_spec fun i hi => (hs i hi).1)]
  exact List.sublist_append_left _ _

theorem instanceIds_drain (s : Step) : s.drain.state.instanceIds = s.state.instanceIds :=
  List.map_map.trans rfl

theorem sublist_instanceIds_runQueue (budget : Nat) (hs : ∀ i ∈ s.state.instances, InOrder e i) :
    ((e.runQueue budget s).state.instanceIds.map InstanceId.text).Sublist
      (s.state.instanceIds.map InstanceId.text ++ e.issuedInQueue budget s) := by
  induction budget generalizing s with
  | zero =>
    rw [runQueue, issuedInQueue, List.append_nil]
    split <;> exact List.Sublist.refl _
  | succ budget ih =>
    rw [runQueue, issuedInQueue]
    generalize hn : nextFresh s s.queue = r
    have hsame : r.1.state.instanceIds = s.state.instanceIds :=
      congrArg State.instanceIds (state_nextFresh hn)
    obtain ⟨s', _ | event⟩ := r
    · rw [← hsame, List.append_nil]
    · have hs' : ∀ i ∈ s'.state.instances, InOrder e i := by
        rw [state_nextFresh hn]
        exact hs
      have hround := @sublist_instanceIds_round _ _ _ e s' event hs'
      have hrest := ih ((inOrder_keep e).drained ((inOrder_keep e).round hs' event))
      rw [instanceIds_drain] at hrest
      rw [← hsame, ← List.append_assoc]
      exact hrest.trans (hround.append_right _)

theorem sublist_instanceIds_beginStep (e : Engine) (t : State) :
    (e.beginStep t).state.instanceIds.Sublist t.instanceIds := by
  rw [State.instanceIds, (e.retracts_beginStep t).state]
  exact List.filter_sublist.map _

theorem sublist_instanceIds_handle (ht : ∀ i ∈ t.instances, InOrder e i) (event : Event) :
    ((e.handle t event).state.instanceIds.map InstanceId.text).Sublist
      (t.instanceIds.map InstanceId.text ++
        (e.openingOf? t event).elim [] (e.issuedInQueue e.config.maxEventsPerStep)) := by
  have hbegin := (sublist_instanceIds_beginStep e t).map InstanceId.text
  have hrun (f : State → State) (hf : ∀ t, (f t).instances = t.instances) :
      ((e.runQueue e.config.maxEventsPerStep (e.opened t event f)).state.instanceIds.map
        InstanceId.text).Sublist (t.instanceIds.map InstanceId.text ++
          e.issuedInQueue e.config.maxEventsPerStep (e.opened t event f)) := by
    have hsame : (e.opened t event f).state.instances = (e.beginStep t).state.instances := hf _
    have hopened : ∀ i ∈ (e.opened t event f).state.instances, InOrder e i := by
      rw [hsame]
      exact InstancesKeep.begun ht
    refine (sublist_instanceIds_runQueue _ hopened).trans ?_
    rw [State.instanceIds, hsame]
    exact hbegin.append_right _
  have htakes := e.takes t event
  generalize e.handle t event = reply at htakes ⊢
  generalize e.openingOf? t event = o at htakes ⊢
  cases htakes with
  | refused => exact List.sublist_append_left _ _
  | idle =>
    rw [show (Reply.ofStep (e.beginStep t)).state = (e.beginStep t).drain.state from rfl,
      instanceIds_drain]
    exact hbegin.trans (List.sublist_append_left _ _)
  | late n =>
    rw [show (Reply.ofStep ((e.beginStep t).observe (.lateResult n))).state =
      ((e.beginStep t).observe (.lateResult n)).drain.state from rfl, instanceIds_drain]
    exact hbegin.trans (List.sublist_append_left _ _)
  | accepted n calls =>
    have h := hrun (fun t => { t with calls }) fun _ => rfl
    rw [← instanceIds_drain] at h
    exact h
  | fired timer =>
    have h := hrun (fun t => { t with timers := Dict.remove t.timers timer }) fun _ => rfl
    rw [← instanceIds_drain] at h
    exact h
  | processed =>
    have h := hrun id fun _ => rfl
    rw [← instanceIds_drain] at h
    exact h

/-- **Instances have identities that were there before a request, or that it hands out.** -/
theorem sublist_instanceIds_respond (ht : ∀ i ∈ t.instances, InOrder e i) (r : Request) :
    ((e.respond t r).state.instanceIds.map InstanceId.text).Sublist
      (t.instanceIds.map InstanceId.text ++ e.issuedBy t r) := by
  cases r with
  | named name payload =>
    exact sublist_instanceIds_handle (t := { t with ids := t.ids.nextEvent.2 }) ht _
  | event event => exact sublist_instanceIds_handle ht event
  | abort id reason =>
    have hgives := e.givesUp t id reason
    rw [respond, issuedBy]
    generalize e.abort t id reason = reply at hgives ⊢
    generalize e.opening? t (.abort id reason) = o at hgives ⊢
    cases hgives with
    | refused => exact List.sublist_append_left _ _
    | aborted =>
      have hupdated := InstancesKeep.updateInstance (InstancesKeep.begun (e := e) ht)
        (fun _ => (inOrder_keep e).abort reason) id
      have hids : (windUpEnded ((e.beginStep t).updateInstance id
          (·.abort reason))).state.instanceIds = (e.beginStep t).state.instanceIds :=
        (instanceIds_windUpEnded _).trans
          (map_updateInstance Instance.id _ id fun i => (remains_abort i reason).id)
      have h := sublist_instanceIds_runQueue e.config.maxEventsPerStep
        ((inOrder_keep e).windUpEnded hupdated)
      rw [← instanceIds_drain, hids] at h
      exact h.trans (((sublist_instanceIds_beginStep e t).map _).append_right _)

/-! ## Runs -/

namespace Engine

/-- What was done with an engine since it was fresh: the requests, each with the state in which it
was made, and the state to which all of it has led.  Between requests variables of the conversation
may be written. -/
inductive History (e : Engine) (ids : IdSource) : List (State × Request) → State → Prop
  | initial : History e ids [] (.initial ids)
  | respond {past : List (State × Request)} {s : State} (before : History e ids past s)
      (r : Request) : History e ids (past ++ [(s, r)]) (e.respond s r).state
  | setGlobal {past : List (State × Request)} {s : State} (before : History e ids past s)
      (path : String) (value : Json) : History e ids past (s.setGlobal path value)

variable (e : Engine)

/-- The identities that were handed out to instances, events and calls. -/
def issuedOver (past : List (State × Request)) : List String :=
  past.flatMap fun p => e.issuedBy p.1 p.2

/-- The timers that were started, and whose they are. -/
def startedOver (past : List (State × Request)) : List (TimerId × InstanceId) :=
  past.flatMap fun p => e.startedBy p.1 p.2

/-- The timers that have fired while they were running. -/
def firedOver (past : List (State × Request)) : List TimerId :=
  past.flatMap fun p => firedBy p.1 p.2

/-- The timers that were stopped where timers are run. -/
def stoppedOver (past : List (State × Request)) : List TimerId :=
  past.flatMap fun p => Signal.stopsIn (e.respond p.1 p.2).signals

/-- What holds of the tables of an engine after some requests. -/
structure Orderly (past : List (State × Request)) (s : State) : Prop where
  /-- Instances are told apart by their identities. -/
  distinct : s.instanceIds.Nodup
  /-- Calls are entered under their invocations, they are in flight and have no result, and their
  instances have not been aborted. -/
  calls : ∀ c ∈ s.calls, c.2.invocation = c.1 ∧ c.2.status = .inFlight ∧ c.2.result = none ∧
    ∃ i ∈ s.instances, i.id = c.2.instanceId ∧ i.status ≠ .aborted
  /-- Timers belong to the instances that have started them, and these have not ended. -/
  timers : ∀ x ∈ s.timers, x ∈ e.startedOver past ∧
    ∃ i ∈ s.instances, i.id = x.2 ∧ i.status.isTerminal = false
  /-- Whoever runs timers is told of those that are started. -/
  starts : ∀ p ∈ past,
    Signal.startsIn (e.respond p.1 p.2).signals = (e.startedBy p.1 p.2).map Prod.fst
  /-- A timer that was started is running, or it has fired, or it was stopped: only one of these,
  and only once. -/
  balance : (s.timerIds ++ firedOver past ++ e.stoppedOver past).Perm
    ((e.startedOver past).map Prod.fst)
  /-- A timer is stopped when the instance that has started it comes to its end. -/
  stops : ∀ p ∈ past, ∀ n ∈ Signal.stopsIn (e.respond p.1 p.2).signals,
    ∃ id, (n, id) ∈ e.startedOver past ∧ (e.respond p.1 p.2).state.Ends id
  /-- Nothing comes of a valid firing but that of a running timer. -/
  late : ∀ event, event.check = .ok () → event.name = Event.timerFiredName →
    firedOf s event = [] → e.Overlooks s event

variable {e} {ids : IdSource} {past : List (State × Request)} {s : State}

theorem History.reachable (h : e.History ids past s) : e.Reachable s := by
  induction h with
  | initial => exact .initial ids
  | respond before r ih => exact ih.respond r
  | setGlobal before path value ih => exact ih.setGlobal path value

/-- Requests that follow each other. -/
theorem History.along (h : e.History ids past s) (rs : List Request) :
    e.History ids (past ++ e.along (fun s r => [(s, r)]) s rs) (e.after s rs) := by
  induction rs generalizing past s with
  | nil =>
    rw [Engine.along, List.append_nil]
    exact h
  | cons r rs ih =>
    rw [Engine.along, ← List.append_assoc]
    exact ih (h.respond r)

theorem History.tidy (h : e.History ids past s) : s.Tidy none := by
  induction h with
  | initial => exact ⟨⟨List.Pairwise.nil, nofun⟩, nofun, nofun, nofun⟩
  | respond before r ih => exact tidy_respond e ih r
  | setGlobal before path value ih => exact ⟨ih.filed, ih.marked, ih.calls, ih.timers⟩

/-- Instances have identities that were handed out. -/
theorem History.sublist_instanceIds (h : e.History ids past s) :
    (s.instanceIds.map InstanceId.text).Sublist (e.issuedOver past) := by
  induction h with
  | initial => exact List.Sublist.refl _
  | respond before r ih =>
    rw [issuedOver, List.flatMap_append, List.flatMap_singleton]
    exact (sublist_instanceIds_respond ((inOrder_keep e).reachable before.reachable) r).trans
      (ih.append_right _)
  | setGlobal before path value ih => exact ih

/-- The books of a run, as far as timers are concerned. -/
theorem History.timed (h : e.History ids past s)
    (hd : ((e.startedOver past).map Prod.fst).Nodup) :
    (∀ n, ((e.startedOver past).map Prod.fst).count n =
      s.timerIds.count n + (firedOver past).count n + (e.stoppedOver past).count n) ∧
    (∀ x ∈ s.timers, x ∈ e.startedOver past) ∧
    ∀ p ∈ past, ∀ n ∈ Signal.stopsIn (e.respond p.1 p.2).signals,
      ∃ id, (n, id) ∈ e.startedOver past ∧ (e.respond p.1 p.2).state.Ends id := by
  induction h with
  | initial => exact ⟨fun _ => rfl, nofun, nofun⟩
  | respond before r ih =>
    rename_i past s
    have hstarted : e.startedOver (past ++ [(s, r)]) = e.startedOver past ++ e.startedBy s r := by
      rw [startedOver, List.flatMap_append, List.flatMap_singleton]
      rfl
    have hfired : firedOver (past ++ [(s, r)]) = firedOver past ++ firedBy s r := by
      rw [firedOver, List.flatMap_append, List.flatMap_singleton]
      rfl
    have hstopped : e.stoppedOver (past ++ [(s, r)]) =
        e.stoppedOver past ++ Signal.stopsIn (e.respond s r).signals := by
      rw [stoppedOver, List.flatMap_append, List.flatMap_singleton]
      rfl
    rw [hstarted] at hd ⊢
    rw [List.map_append] at hd
    obtain ⟨hbalance, hknown, hstops⟩ := ih hd.of_append_left
    have htimed := timed_respond e s r
    have hall {x : TimerId × InstanceId} (hx : x ∈ s.timers ∨ x ∈ e.startedBy s r) :
        x ∈ e.startedOver past ++ e.startedBy s r :=
      List.mem_append.2 (hx.imp_left (hknown x))
    refine ⟨fun n => ?_, fun x hx => hall (htimed.known x hx), fun p hp n hn => ?_⟩
    · have honce := List.nodup_iff_count_le_one.1 hd n
      have hbefore := hbalance n
      rw [List.count_append] at honce
      have hnow := htimed.balance n (by omega)
      rw [hfired, hstopped, List.map_append, List.count_append, List.count_append,
        List.count_append]
      omega
    · rcases List.mem_append.1 hp with hp | hp
      · obtain ⟨id, hid, hends⟩ := hstops p hp n hn
        exact ⟨id, List.mem_append_left _ hid, hends⟩
      · obtain rfl := List.mem_singleton.1 hp
        obtain ⟨id, hid, hends⟩ := htimed.ended n hn
        exact ⟨id, hall hid, hends⟩
  | setGlobal before path value ih => exact ih hd

theorem has_eq_false_of_firedOf {event : Event} (hcheck : event.check = .ok ())
    (hnone : firedOf s event = []) (n : TimerId) (hn : event.timer? = some n) :
    Dict.has s.timers n = false := by
  rw [firedOf, hcheck, hn] at hnone
  cases hruns : Dict.has s.timers n with
  | false => rfl
  | true => simp [hruns] at hnone

/-- **The tables never hold orphans.**  If the identities that are handed out are distinct, then
between requests every call in the table is in flight on behalf of an instance that was not aborted,
and every timer belongs to an instance that has not ended.  Over a run every timer that was started
leaves the table at most once, either when it fires or when it is stopped because its instance has
come to its end; and nothing comes of any other firing. -/
theorem tables_hold_no_orphans (hs : e.History ids past s) (hissued : (e.issuedOver past).Nodup)
    (hstarted : ((e.startedOver past).map Prod.fst).Nodup) : e.Orderly past s := by
  have htidy := hs.tidy
  obtain ⟨hbalance, hknown, hstops⟩ := hs.timed hstarted
  refine ⟨?_, fun c hc => ?_, fun x hx => ⟨hknown x hx, htidy.timers x hx⟩,
    fun p _ => (timed_respond e p.1 p.2).starts, ?_, hstops, fun event hcheck hname hnone => ?_⟩
  · exact (hissued.sublist hs.sublist_instanceIds).of_map _
  · obtain ⟨hflight, hnone, howner⟩ := htidy.calls c hc nofun
    exact ⟨htidy.filed.own c hc, hflight, hnone, howner⟩
  · refine List.perm_iff_count.2 fun n => ?_
    rw [List.count_append, List.count_append, hbalance n]
  · exact overlooks_of_not_running htidy.filed (drained_reachable hs.reachable) hcheck hname
      (has_eq_false_of_firedOf hcheck hnone)

end Engine

end Orphans

end

namespace Engine

/-! ## Two naps -/

/-- A flow that starts a timer and waits for something else. -/
def napping : Flow where
  id := ⟨"nap"⟩
  description := none
  priority := none
  activation := some ⟨"go", []⟩
  body := [.startTimer 1000 none, .expect ⟨"end", []⟩]

/-- An engine with nothing else. -/
def naps : Engine where
  catalog := ⟨[⟨napping, .ofBody napping.body⟩]⟩
  config := Config.default

/-- The timer of the first instance. -/
def tick : TimerId := ⟨"6e789e6a-a1b9-45f4-8d73-fe3de975ac26"⟩

/-- The timer of the second one. -/
def tock : TimerId := ⟨"f88bb8a8-724c-41ec-b959-8f1a5f539b75"⟩

/-- Two instances are started; the timer of the first one fires, twice, and the second one is
aborted. -/
def disturbances : List Request :=
  [.event (plain "1" "go"), .event (plain "2" "go"), .event (.timerFired tick),
    .event (.timerFired tick), .abort ⟨"06c45d18-8009-454f-bb47-6c5a5333d0ec"⟩ "enough"]

/-- Those requests, each with the state in which it is made. -/
def disturbed : List (State × Request) :=
  naps.along (fun s r => [(s, r)]) (.initial (.seeded 0)) disturbances

/-- The first timer has fired once, the second one was stopped once, and neither of them is in the
table any more. -/
theorem tables_hold_no_orphans_naps :
    (naps.startedOver disturbed).map Prod.fst = [tick, tock] ∧
      firedOver disturbed = [tick] ∧ naps.stoppedOver disturbed = [tock] ∧
      (naps.after (.initial (.seeded 0)) disturbances).timerIds = [] ∧
      naps.Orderly disturbed (naps.after (.initial (.seeded 0)) disturbances) := by
  have hpast := (@History.initial _ _ _ naps (.seeded 0)).along disturbances
  rw [List.nil_append] at hpast
  have hissued : (naps.issuedOver disturbed).Nodup := by decide +kernel
  have hstarted : (naps.startedOver disturbed).map Prod.fst = [tick, tock] := by decide +kernel
  refine ⟨hstarted, by decide +kernel, by decide +kernel, by decide +kernel, ?_⟩
  exact tables_hold_no_orphans hpast hissued (by
    rw [hstarted]
    decide)

end Engine

end EventFlow

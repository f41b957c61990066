import EventFlow.Proofs.Engine.Settled
import EventFlow.Proofs.Engine.Yields
import EventFlow.Query.Eval

/-!
# What becomes of emissions and events

Nothing is lost in a step and nothing is done twice.  Every emission has one fate, which is that of
an event for the inside, of an event for the outside, of a call, or that of a loser; and every event
that is queued is processed in its turn, unless the budget of the step runs out before.

## What is here

* `Engine.Disposes` says what becomes of the emissions of a round.
* `Engine.queuedBy` are all events that a request queues.  `Engine.Serves` says what becomes of
  them, and adds up what the rounds of a request yield.

**`every_emission_and_event_has_one_fate`** is the result, for any state and any request whose
events have distinct identities.  Losses are noted by identity, so an instance learns of those of
its own only if it is the first one with its identity (`noted_elsewhere_twin`).
-/

set_option autoImplicit false

namespace EventFlow

section

variable {Compiled Found : Type} [Query.Library Compiled Found]

namespace Engine

/-! ## Emissions -/

/-- What becomes of the emissions of a round. -/
structure Disposes (e : Engine) (s : Step) (event : Event) : Prop where
  /-- Every emission wins or loses. -/
  split : ((e.resolutionOf (s, event)).winners ++
    (e.resolutionOf (s, event)).overridden.map Overridden.emission).Perm
      (emissionsOf (e.gather event s).2)
  /-- One that wins is queued, or sent to the outside, or dispatched and entered in the table. -/
  kind : ∀ m ∈ (e.resolutionOf (s, event)).winners,
    (∃ ev, m.queued? = some ev ∧ m.yield = .none ∧ m.pending? = none) ∨
    (∃ ev, m.queued? = none ∧ m.yield = ⟨[ev], [], [], []⟩ ∧ m.pending? = none) ∨
    ∃ d c, m.queued? = none ∧ m.yield = ⟨[], [d], [], []⟩ ∧ m.pending? = some (d.invocation, c) ∧
      c.invocation = d.invocation ∧ c.instanceId = m.instanceId ∧ c.status = .inFlight ∧
      c.result = none
  /-- The queue grows by what has won, by what the losers are told, and by ends of instances. -/
  queue : ∃ endings, (e.round s event).queue = s.queue ++
      ((e.resolutionOf (s, event)).winners.filterMap Emission.queued? ++
        Overridden.answers (e.gather event s).1.state.ids (e.resolutionOf (s, event)).overridden ++
          endings) ∧
    ∀ ev ∈ endings, ev.IsEnding
  /-- What a loser is told: a notice addressed to its instance, and before it, if it has asked for
  a call, that this has failed. -/
  told : ∀ l ∈ (e.resolutionOf (s, event)).overridden,
    (∀ id (i : Instance),
      i.addressedElsewhere (l.notice id) = false ↔ i.id = l.emission.instanceId) ∧
    (∀ ev d, l.emission.intent = .send ev d → l.results = []) ∧
    ∀ r, l.emission.intent = .call r → ∃ ev, l.results = [ev] ∧
      ev.invocation? = some r.invocation ∧ ev.text? "status" = some "failed" ∧
      ev.text? "reason" = some "overridden"
  /-- The table of calls grows by the calls that have won. -/
  calls : (e.compete event s).state.calls =
    Dict.putAll s.state.calls ((e.resolutionOf (s, event)).winners.filterMap Emission.pending?)
  /-- Emissions come from instances that are there. -/
  owned : ∀ m ∈ emissionsOf (e.gather event s).2,
    ∃ k i, (e.round s event).state.First k i ∧ i.id = m.instanceId
  /-- The first instance with an identity notes the emissions of that identity that have lost. -/
  noted : ∀ k i, (e.round s event).state.First k i →
    i.overridden = (s.state.instances[k]?).elim [] Instance.overridden ++
      Overridden.idsOf i.id (e.resolutionOf (s, event)).overridden

/-- An identity that some instance has is that of a first one. -/
theorem exists_first {s : State} {id : InstanceId} (hid : id ∈ s.instanceIds) :
    ∃ k i, s.First k i ∧ i.id = id := by
  obtain ⟨x, hx, rfl⟩ := List.mem_map.1 hid
  have hsome : (s.instances.findIdx? fun y => y.id = x.id).isSome = true := by
    rw [List.findIdx?_isSome]
    exact List.any_eq_true.2 ⟨x, hx, decide_eq_true rfl⟩
  obtain ⟨k, hk⟩ := Option.isSome_iff_exists.1 hsome
  obtain ⟨hlt, hat, hbefore⟩ := List.findIdx?_eq_some_iff_getElem.1 hk
  rw [decide_eq_true_eq] at hat
  refine ⟨k, s.instances[k], ⟨List.getElem?_eq_getElem hlt, fun hmem => ?_⟩, hat⟩
  obtain ⟨j, hj, hjid⟩ := List.mem_take_iff_getElem.1 hmem
  refine hbefore j (by omega) (decide_eq_true ?_)
  rw [← hat, ← hjid]
  exact (List.getElem_map ..).symm

/-- A notice is addressed to the instance whose emission has lost, and to no other. -/
theorem addressedElsewhere_notice (l : Overridden) (id : EventId) (i : Instance) :
    i.addressedElsewhere (l.notice id) = false ↔ i.id = l.emission.instanceId := by
  have hpath : Path.segments "instance_id" = ["instance_id"] := by decide
  have htext : (l.notice id).text? "instance_id" = some l.emission.instanceId.text := by
    cases hm : l.emission.intent <;>
      simp [Overridden.notice, lostNotice, hm, Event.text?, Event.field?, Path.get?, Path.getAt?,
        hpath, Path.descend, Dict.ofList, Dict.putAll, Dict.get?_put, Dict.empty, Json.str?]
  rw [Instance.addressedElsewhere, htext, show (l.notice id).name = Event.overriddenName from rfl,
    decide_eq_true rfl, Bool.true_and, bne_eq_false_iff_eq, Option.some.injEq]
  generalize i.id = a, l.emission.instanceId = b
  obtain ⟨a⟩ := a
  obtain ⟨b⟩ := b
  simp only [InstanceId.mk.injEq, eq_comm]

/-- A call that has lost has failed for this reason. -/
theorem lostResult_spec (l : Overridden) (r : CallRequest) :
    (lostResult l r).invocation? = some r.invocation ∧
      (lostResult l r).text? "status" = some "failed" ∧
      (lostResult l r).text? "reason" = some "overridden" := by
  have hinvocation : Path.segments "invocation_id" = ["invocation_id"] := by decide
  have hstatus : Path.segments "status" = ["status"] := by decide
  have hreason : Path.segments "reason" = ["reason"] := by decide
  simp [lostResult, Event.actionResult, Event.invocation?, Event.text?, Event.field?, Path.get?,
    Path.getAt?, hinvocation, hstatus, hreason, Path.descend, Dict.ofList, Dict.putAll,
    Dict.get?_put, Dict.empty, Json.str?, FailureKind.name]

theorem disposes (e : Engine) (s : Step) (event : Event) : e.Disposes s event := by
  have hsettles := Conflict.settles_resolve e.config.tieBreak (emissionsOf (e.gather event s).2)
  refine ⟨hsettles.perm, fun m _ => ?_, ?_, fun l _ => ?_, calls_compete e s event,
    fun m hm => ?_, fun k i hi => noted_round e s event hi⟩
  · rw [Emission.queued?, Emission.yield, Emission.pending?]
    cases m.intent with
    | send ev d =>
      cases d with
      | internal => exact .inl ⟨ev, rfl, rfl, rfl⟩
      | external => exact .inr (.inl ⟨ev, rfl, rfl, rfl⟩)
    | call r => exact .inr (.inr ⟨r.dispatch, _, rfl, rfl, rfl, rfl, rfl, rfl, rfl⟩)
  · obtain ⟨endings, hqueue, hendings, -⟩ := queue_round e s event
    exact ⟨endings, hqueue, hendings⟩
  · refine ⟨addressedElsewhere_notice l, fun ev d hm => ?_, fun r hm => ?_⟩
    · rw [Overridden.results, hm]
    · exact ⟨lostResult l r, by rw [Overridden.results, hm], lostResult_spec l r⟩
  · obtain ⟨q, hq, hmq⟩ := List.mem_flatMap.1 hm
    have hbehalf : OnBehalf (fun _ => True) (e.gather event s).1 (e.gather event s).2 :=
      onBehalf_gather (Q := fun _ => True)
        ⟨fun _ _ _ => trivial, fun _ _ _ _ _ _ _ _ _ => ⟨trivial, fun _ _ => trivial⟩,
          fun _ _ _ => ⟨trivial, fun _ _ => trivial⟩, fun _ _ => trivial, fun _ _ => trivial,
          fun _ _ _ => trivial, fun _ => trivial⟩
        (fun _ _ => trivial) (fun _ _ => trivial) (fun _ => trivial) fun _ _ => trivial
    obtain ⟨hst, i, hi, hid, -⟩ := hbehalf q hq
    refine exists_first ?_
    rw [instanceIds_round, (hst m hmq).1, ← hid]
    exact List.mem_map_of_mem hi

/-! ## Events -/

/-- The events that are queued in a round, in order. -/
def queuedIn (e : Engine) (round : Step × Event) : List Event :=
  (e.round round.1 round.2).queue.drop round.1.queue.length

/-- The events that wait when a request sets a queue going. -/
def waitingFor (e : Engine) (s : State) (r : Request) : List Event :=
  (e.opening? s r).elim [] Step.queue

/-- All events that are queued for a request, in order. -/
def queuedBy (e : Engine) (s : State) (r : Request) : List Event :=
  e.waitingFor s r ++ (e.roundsBy s r).flatMap e.queuedIn

/-- What becomes of the events of a request, and what it yields. -/
structure Serves (e : Engine) (s : State) (r : Request) : Prop where
  /-- Events are processed in the order in which they were queued, in later rounds: when a round
  begins, what was queued before is what was processed before, its event, and what waits. -/
  turn : ∀ done round rest, e.roundsBy s r = done ++ round :: rest →
    e.waitingFor s r ++ done.flatMap e.queuedIn =
      done.map Prod.snd ++ round.2 :: round.1.queue
  /-- Every event that is queued is processed or thrown away. -/
  all : e.queuedBy s r = (e.roundsBy s r).map Prod.snd ++ e.discardedBy s r
  /-- Events are thrown away only when as many were processed as the budget allows. -/
  budget : e.discardedBy s r ≠ [] → (e.roundsBy s r).length = e.config.maxEventsPerStep
  /-- The reply holds what the rounds yield, in order, and how much was thrown away, if any was. -/
  yield : (e.respond s r).yield =
    Yield.all e.yieldOf (e.roundsBy s r) ++ Yield.loss (e.discardedBy s r)
  /-- Where a queue was set going there is an answer. -/
  answered : (e.opening? s r).isSome = true → ∃ outputs, (e.respond s r).outcome = .ok outputs

variable {e : Engine} {s : Step} {t : State} {event : Event} {r : Request}

theorem nextFresh_of_new {rest : List Event} (hnew : event.id ∉ s.seen) :
    nextFresh s (event :: rest) = ({ s with queue := rest, seen := event.id :: s.seen },
      some event) := by
  rw [nextFresh, if_neg (by simpa using hnew)]

/-- What is queued when a round is over is what waited and what was queued in it. -/
theorem queue_drained (e : Engine) (s : Step) (event : Event) :
    (e.round s event).drain.queue = s.queue ++ e.queuedIn (s, event) ∧
      (e.round s event).drain.seen = s.seen := by
  obtain ⟨endings, hqueue, -, hseen⟩ := queue_round e s event
  refine ⟨?_, hseen⟩
  rw [queuedIn]
  rw [show (e.round s event).drain.queue = (e.round s event).queue from rfl, hqueue,
    List.drop_left]

/-- **Events are processed in the order in which they were queued**, in later rounds, and none is
passed over. -/
theorem served_runQueue (e : Engine) (budget : Nat)
    (hnew : ∀ ev ∈ s.queue ++ (e.roundsFrom budget s).flatMap e.queuedIn, ev.id ∉ s.seen)
    (hd : ((s.queue ++ (e.roundsFrom budget s).flatMap e.queuedIn).map Event.id).Nodup) :
    s.queue ++ (e.roundsFrom budget s).flatMap e.queuedIn =
        (e.roundsFrom budget s).map Prod.snd ++ e.discardedFrom budget s ∧
      ∀ done round rest, e.roundsFrom budget s = done ++ round :: rest →
        s.queue ++ done.flatMap e.queuedIn = done.map Prod.snd ++ round.2 :: round.1.queue := by
  induction budget generalizing s with
  | zero =>
    refine ⟨List.append_nil _, fun done round rest hsplit => ?_⟩
    exact absurd hsplit (by simp [roundsFrom])
  | succ budget ih =>
    cases hq : s.queue with
    | nil =>
      have hnone : nextFresh s s.queue = ({ s with queue := [] }, none) := by rw [hq, nextFresh]
      rw [roundsFrom, discardedFrom, hnone]
      refine ⟨rfl, fun done round rest hsplit => ?_⟩
      exact absurd hsplit (by simp)
    | cons event rest =>
      have hfresh := @nextFresh_of_new s event rest
        (hnew event (List.mem_append_left _ (by rw [hq]; exact .head _)))
      rw [← hq] at hfresh
      rw [roundsFrom, hfresh, hq] at hnew hd
      rw [roundsFrom, discardedFrom, hfresh]
      generalize hs' : ({ s with queue := rest, seen := event.id :: s.seen } : Step) = s' at *
      obtain ⟨hqueue, hseen⟩ := queue_drained e s' event
      have hwaits : s'.queue = rest ∧ s'.seen = event.id :: s.seen := by
        rw [← hs']
        exact ⟨rfl, rfl⟩
      rw [hwaits.1] at hqueue
      rw [hwaits.2] at hseen
      simp only [List.flatMap_cons, List.cons_append, List.map_cons, List.nodup_cons,
        List.forall_mem_cons] at hnew hd ⊢
      have hassoc (later : List Event) : (e.round s' event).drain.queue ++ later =
          rest ++ (e.queuedIn (s', event) ++ later) := by
        rw [hqueue, List.append_assoc]
      obtain ⟨hall, hturn⟩ := @ih (e.round s' event).drain (by
        rw [hassoc, hseen]
        intro ev hev hmem
        rcases List.mem_cons.1 hmem with hid | hmem
        · exact hd.1 (hid ▸ List.mem_map_of_mem hev)
        · exact hnew.2 ev hev hmem) (by
        rw [hassoc]
        exact hd.2)
      rw [hassoc] at hall
      refine ⟨congrArg (event :: ·) hall, fun done round later hsplit => ?_⟩
      cases done with
      | nil =>
        obtain ⟨rfl, -⟩ := List.cons.inj hsplit
        simp [hwaits.1]
      | cons first done =>
        obtain ⟨rfl, hlater⟩ := List.cons.inj hsplit
        have hdone := hturn done round later hlater
        rw [hassoc] at hdone
        exact congrArg (event :: ·) hdone

/-- Events are thrown away only when the budget is used up. -/
theorem length_roundsFrom (e : Engine) (budget : Nat) (hd : e.discardedFrom budget s ≠ []) :
    (e.roundsFrom budget s).length = budget := by
  induction budget generalizing s with
  | zero => rfl
  | succ budget ih =>
    rw [discardedFrom] at hd
    rw [roundsFrom]
    generalize nextFresh s s.queue = n at hd ⊢
    obtain ⟨s', _ | event⟩ := n
    · exact absurd rfl hd
    · exact congrArg (· + 1) (ih hd)

/-! ## Requests -/

theorem seen_openingOf (hs : e.openingOf? t event = some s) : s.seen = [] := by
  have hbegin : (e.beginStep t).seen = [] := (e.retracts_beginStep t).seen
  rw [openingOf?] at hs
  split at hs
  · cases hs
  · simp only at hs
    split at hs
    · obtain ⟨calls, -, rfl⟩ := Option.map_eq_some_iff.1 hs
      exact hbegin
    · split at hs
      · obtain ⟨timer, -, rfl⟩ := Option.map_eq_some_iff.1 hs
        exact hbegin
      · cases hs
        exact hbegin

/-- A queue is set going with nothing processed. -/
theorem seen_opening (hs : e.opening? t r = some s) : s.seen = [] := by
  cases r with
  | named name payload => exact seen_openingOf hs
  | event event => exact seen_openingOf hs
  | abort id reason =>
    have hbegin : (e.beginStep t).seen = [] := (e.retracts_beginStep t).seen
    obtain ⟨i, -, hi⟩ := Option.bind_eq_some_iff.1 hs
    split at hi
    · cases hi
    · cases hi
      obtain ⟨-, -, -, hseen⟩ :=
        queue_windUpEnded ((e.beginStep t).updateInstance id (·.abort reason))
      rw [hseen, ← hbegin, Step.updateInstance]
      split <;> rfl

theorem yield_ofStep (hp : ∀ i ∈ s.state.instances, i.Personal) :
    (Reply.ofStep s).yield = s.yield := by
  rw [← yield_drain hp]
  rfl

/-- What the reply to an event holds. -/
theorem yield_handle (e : Engine) (ht : ∀ i ∈ t.instances, i.Personal) (event : Event) :
    (e.handle t event).yield =
        Yield.all e.yieldOf
            ((e.openingOf? t event).elim [] (e.roundsFrom e.config.maxEventsPerStep)) ++
          Yield.loss ((e.openingOf? t event).elim [] (e.discardedFrom e.config.maxEventsPerStep)) ∧
      ((e.openingOf? t event).isSome = true →
        ∃ outputs, (e.handle t event).outcome = .ok outputs) := by
  have hbegun := InstancesKeep.begun (e := e) ht
  have hbegin := yield_beginStep e t
  have htakes := e.takes t event
  generalize e.handle t event = reply at htakes ⊢
  generalize e.openingOf? t event = o at htakes ⊢
  have hrun (f : State → State) (hf : ∀ t, (f t).instances = t.instances) :
      (e.runQueue e.config.maxEventsPerStep (e.opened t event f)).yield =
        Yield.all e.yieldOf (e.roundsFrom e.config.maxEventsPerStep (e.opened t event f)) ++
          Yield.loss (e.discardedFrom e.config.maxEventsPerStep (e.opened t event f)) ∧
      ∀ i ∈ (e.runQueue e.config.maxEventsPerStep (e.opened t event f)).state.instances,
        i.Personal := by
    have hopened : ∀ i ∈ (e.opened t event f).state.instances, i.Personal := by
      rw [show (e.opened t event f).state = f (e.beginStep t).state from rfl, hf]
      exact hbegun
    refine ⟨?_, ((personal_keep e).runQueue hopened _).1⟩
    rw [yield_runQueue e _ hopened,
      show (e.opened t event f).yield = (e.beginStep t).yield from rfl, hbegin, Yield.none_append]
  cases htakes with
  | refused err hc => exact ⟨rfl, nofun⟩
  | idle => exact ⟨(yield_ofStep hbegun).trans hbegin, nofun⟩
  | late n hn ha =>
    have hlate : ((e.beginStep t).observe (.lateResult n)).yield = .none :=
      (yield_emit_same rfl _).trans hbegin
    exact ⟨(yield_ofStep (s := (e.beginStep t).observe (.lateResult n)) hbegun).trans hlate, nofun⟩
  | accepted n calls hres hn ha =>
    obtain ⟨hyield, hp⟩ := hrun (fun t => { t with calls }) fun _ => rfl
    exact ⟨(yield_ofStep hp).trans hyield, fun _ => ⟨_, rfl⟩⟩
  | fired timer hother =>
    obtain ⟨hyield, hp⟩ := hrun (fun t => { t with timers := Dict.remove t.timers timer })
      fun _ => rfl
    exact ⟨(yield_ofStep hp).trans hyield, fun _ => ⟨_, rfl⟩⟩
  | processed hother =>
    obtain ⟨hyield, hp⟩ := hrun id fun _ => rfl
    exact ⟨(yield_ofStep hp).trans hyield, fun _ => ⟨_, rfl⟩⟩

/-- **What the reply to a request holds**: what its rounds yield, and how much was thrown away. -/
theorem yield_respond (e : Engine) (ht : ∀ i ∈ t.instances, i.Personal) (r : Request) :
    (e.respond t r).yield =
        Yield.all e.yieldOf (e.roundsBy t r) ++ Yield.loss (e.discardedBy t r) ∧
      ((e.opening? t r).isSome = true → ∃ outputs, (e.respond t r).outcome = .ok outputs) := by
  cases r with
  | named name payload => exact yield_handle e (t := { t with ids := t.ids.nextEvent.2 }) ht _
  | event event => exact yield_handle e ht event
  | abort id reason =>
    have hgives := e.givesUp t id reason
    rw [respond, roundsBy, discardedBy]
    generalize e.abort t id reason = reply at hgives ⊢
    generalize e.opening? t (.abort id reason) = o at hgives ⊢
    cases hgives with
    | refused => exact ⟨rfl, fun hsome => absurd hsome Bool.false_ne_true⟩
    | aborted =>
      have hstart := (personal_keep e).windUpEnded (InstancesKeep.updateInstance
        (InstancesKeep.begun (e := e) ht) (fun _ => (personal_keep e).abort reason) id)
      have hupdated : ((e.beginStep t).updateInstance id (·.abort reason)).yield = .none := by
        rw [← yield_beginStep e t, Step.updateInstance]
        split <;> rfl
      refine ⟨?_, fun _ => ⟨_, rfl⟩⟩
      rw [yield_ofStep ((personal_keep e).runQueue hstart _).1, yield_runQueue e _ hstart,
        yield_windUpEnded, hupdated, Yield.none_append]
      rfl

theorem serves (e : Engine) (ht : ∀ i ∈ t.instances, i.Personal) (r : Request)
    (hd : ((e.queuedBy t r).map Event.id).Nodup) : e.Serves t r := by
  obtain ⟨hyield, hanswered⟩ := yield_respond e ht r
  have hqueue : (e.queuedBy t r = (e.roundsBy t r).map Prod.snd ++ e.discardedBy t r ∧
      ∀ done round rest, e.roundsBy t r = done ++ round :: rest →
        e.waitingFor t r ++ done.flatMap e.queuedIn =
          done.map Prod.snd ++ round.2 :: round.1.queue) ∧
      (e.discardedBy t r ≠ [] → (e.roundsBy t r).length = e.config.maxEventsPerStep) := by
    rw [queuedBy] at hd ⊢
    rw [waitingFor, roundsBy, discardedBy] at *
    cases ho : e.opening? t r with
    | none => exact ⟨⟨rfl, fun done round rest hsplit => absurd hsplit (by simp)⟩,
      fun hnone => absurd rfl hnone⟩
    | some s =>
      rw [ho] at hd
      exact ⟨served_runQueue e _ (by simp [seen_opening ho]) hd, length_roundsFrom e _⟩
  exact ⟨hqueue.1.2, hqueue.1.1, hqueue.2, hyield, hanswered⟩

/-- **Every emission and every event has one fate**, if the events of a request have distinct
identities.

In every round an emission that wins is queued, sent to the outside, or dispatched and entered in
the table of calls; one that loses is noted, reported, and answered by a notice to its instance,
after the failed result if it was a call.  And every event that is queued is processed once, in its
turn and in a later round, unless the request reports how many events it has thrown away: then it
has processed as many as its budget allows, and the others are as many as it says.

Instances have nothing to hand on but observations of their own: between requests they have nothing
at all (`drained_reachable`). -/
theorem every_emission_and_event_has_one_fate (e : Engine) (s : State)
    (hs : ∀ i ∈ s.instances, i.Personal) (r : Request)
    (hd : ((e.queuedBy s r).map Event.id).Nodup) :
    (∀ round ∈ e.roundsBy s r, e.Disposes round.1 round.2) ∧ e.Serves s r :=
  ⟨fun round _ => disposes e round.1 round.2, serves e hs r hd⟩

end Engine

end

namespace Engine

/-- When two flows compete for a call, one call is dispatched, and the other flow gets a result and
a notice, both of which are processed. -/
theorem every_emission_and_event_has_one_fate_askers :
    ((askers.queuedBy (.initial (.seeded 0)) (.event ask)).map Event.id).Nodup ∧
      (askers.roundsBy (.initial (.seeded 0)) (.event ask)).map (·.2.name) =
        ["ask", Event.actionResultName, Event.overriddenName, Event.finishedName] ∧
      (∀ round ∈ askers.roundsBy (.initial (.seeded 0)) (.event ask),
        askers.Disposes round.1 round.2) ∧
      askers.Serves (.initial (.seeded 0)) (.event ask) := by
  have hdistinct :
      ((askers.queuedBy (.initial (.seeded 0)) (.event ask)).map Event.id).Nodup := by
    decide +kernel
  obtain ⟨hrounds, hserves⟩ := every_emission_and_event_has_one_fate askers (.initial (.seeded 0))
    nofun (.event ask) hdistinct
  exact ⟨hdistinct, by decide +kernel, hrounds, hserves⟩

/-- An instance may never get to know that its call has lost: if another one has its identity, that
one may be told instead. -/
theorem noted_elsewhere_twin :
    ¬∀ (e : Engine) (s : State), e.Reachable s → ∀ r, ((e.queuedBy s r).map Event.id).Nodup →
      ∀ round ∈ e.roundsBy s r, ∀ l ∈ (e.resolutionOf round).overridden,
      ∀ i ∈ (e.round round.1 round.2).state.instances,
        i.id = l.emission.instanceId → i.flow = l.emission.flow →
          l.emission.id ∈ i.overridden := by
  intro hall
  have hdistinct : ((crowd.queuedBy worn (.event (plain "2" "go"))).map Event.id).Nodup := by
    decide +kernel
  have hlost : ∃ round ∈ crowd.roundsBy worn (.event (plain "2" "go")),
      ∃ l ∈ (crowd.resolutionOf round).overridden,
      ∃ i ∈ (crowd.round round.1 round.2).state.instances,
        i.id = l.emission.instanceId ∧ i.flow = l.emission.flow ∧
          l.emission.id ∉ i.overridden := by
    decide +kernel
  obtain ⟨round, hround, l, hl, i, hi, hid, hflow, hnot⟩ := hlost
  exact hnot (hall crowd worn reachable_worn _ hdistinct round hround l hl i hi hid hflow)

end Engine

end EventFlow

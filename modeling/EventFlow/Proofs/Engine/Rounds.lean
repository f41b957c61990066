import EventFlow.Proofs.Engine.History

/-!
# Requests taken apart

What a request does is a matter of a few operations and of the rounds in which its queue is worked
off.  This file lists both, so that what is said about all requests can be proved operation by
operation and round by round.

## What is here

* `Engine.roundsFrom` and `Engine.roundsBy` are the rounds of a queue and of a request, each as the
  step in which it begins with the event it processes.
* `Engine.Takes` says exactly what becomes of an event (`takes`), and `Engine.GivesUp` of a request
  to abort an instance (`givesUp`).
* `Step.Retracts` says that nothing happened but that calls were given up, as it is the case at the
  beginning of a step (`retracts_beginStep`).
* `Engine.MovesKeep` is what a property needs so that moving heads preserves it
  (`MovesKeep.moveHeads`), and `Engine.StartsKeep` so that starting instances does: then activation
  and children do (`StartsKeep.activate`, `StartsKeep.startChildren`).
* `Engine.apply_preserves` and `Engine.windUp_preserves` say the same of the competition of
  emissions and of winding up.
-/

set_option autoImplicit false

namespace EventFlow

variable {Compiled Found : Type} [Query.Library Compiled Found]

/-- Between two steps calls were given up, and nothing else has happened. -/
structure Step.Retracts (s s' : Step) : Prop where
  state : s'.state = { s.state with calls := s'.state.calls }
  queue : s'.queue = s.queue
  seen : s'.seen = s.seen
  outputs : s'.outputs = s.outputs
  signals : ∃ more, s'.signals = s.signals ++ more ∧
    ∀ x ∈ more, x.dispatch? = none ∧ x.timer? = none ∧ x.stoppedTimer? = none

theorem Step.Retracts.trans {s s' s'' : Step} (h : s.Retracts s') (h' : s'.Retracts s'') :
    s.Retracts s'' := by
  obtain ⟨more, hs, hmore⟩ := h.signals
  obtain ⟨more', hs', hmore'⟩ := h'.signals
  refine ⟨?_, h'.queue.trans h.queue, h'.seen.trans h.seen, h'.outputs.trans h.outputs,
    more ++ more', by rw [hs', hs, List.append_assoc], fun x hx => ?_⟩
  · rw [h'.state, h.state]
  · exact (List.mem_append.1 hx).elim (hmore x) (hmore' x)

namespace Engine

variable (e : Engine)

/-! ## Rounds -/

/-- The rounds in which a queue is worked off: the step in which each begins, and its event. -/
def roundsFrom : Nat → Step → List (Step × Event)
  | 0, _ => []
  | budget + 1, s =>
    match nextFresh s s.queue with
    | (_, none) => []
    | (s, some event) => (s, event) :: roundsFrom budget (e.round s event).drain

/-- The rounds of a request. -/
def roundsBy (s : State) (r : Request) : List (Step × Event) :=
  (e.opening? s r).elim [] (e.roundsFrom e.config.maxEventsPerStep)

/-! ## Requests -/

/-- The step in which a queue begins that holds one event. -/
def opened (s : State) (event : Event) (change : State → State) : Step :=
  ((e.beginStep s).update change).enqueue event

/-- What becomes of an event: the step whose queue it sets going, if it does, and the reply. -/
inductive Takes (s : State) (event : Event) : Option Step → Reply → Prop
  | refused (err : Error) (check : event.check = .error err) : Takes s event none (.refuse s err)
  | idle (silent : event.name = Event.timerFiredName → ∀ timer, event.timer? = some timer →
        Dict.has (e.beginStep s).state.timers timer = false)
      (nameless : event.invocation? = none) :
      Takes s event none (.ofStep (e.beginStep s))
  | late (n : InvocationId) (names : event.invocation? = some n)
      (late : (e.beginStep s).state.calls.accept? event = none)
      (result : event.name = Event.actionResultName) (check : event.check = .ok ()) :
      Takes s event none (.ofStep ((e.beginStep s).observe (.lateResult n)))
  | accepted (n : InvocationId) (calls : Calls) (result : event.name = Event.actionResultName)
      (names : event.invocation? = some n)
      (accept : (e.beginStep s).state.calls.accept? event = some calls) :
      Takes s event (some (e.opened s event fun t => { t with calls }))
        (.ofStep ((e.runQueue e.config.maxEventsPerStep
          (e.opened s event fun t => { t with calls })).update
            fun t => { t with calls := Dict.remove t.calls n }))
  | fired (timer : TimerId) (other : event.name ≠ Event.actionResultName)
      (check : event.check = .ok ()) (fires : event.name = Event.timerFiredName)
      (names : event.timer? = some timer)
      (runs : Dict.has (e.beginStep s).state.timers timer = true) :
      Takes s event
        (some (e.opened s event fun t => { t with timers := Dict.remove t.timers timer }))
        (.ofStep (e.runQueue e.config.maxEventsPerStep
          (e.opened s event fun t => { t with timers := Dict.remove t.timers timer })))
  | processed (other : event.name ≠ Event.actionResultName)
      (plain : event.name ≠ Event.timerFiredName) :
      Takes s event (some (e.opened s event id))
        (.ofStep (e.runQueue e.config.maxEventsPerStep (e.opened s event id)))

theorem takes (s : State) (event : Event) :
    e.Takes s event (e.openingOf? s event) (e.handle s event) := by
  rw [openingOf?, handle]
  cases hc : event.check with
  | error err => exact .refused err hc
  | ok _ =>
    simp only
    by_cases hres : event.name = Event.actionResultName
    · have hsilent (hfired : event.name = Event.timerFiredName) : False :=
        absurd (hres.symm.trans hfired) (by decide)
      rw [if_pos hres, if_pos hres, handleResult]
      cases hn : event.invocation? with
      | none => exact .idle (fun hfired => (hsilent hfired).elim) hn
      | some n =>
        rw [Option.bind_some]
        cases ha : (e.beginStep s).state.calls.accept? event with
        | none => exact .late n hn ha hres hc
        | some calls => exact .accepted n calls hres hn ha
    · have hnameless : event.invocation? = none := if_neg hres
      rw [if_neg hres, if_neg hres]
      by_cases hfired : event.name = Event.timerFiredName
      · rw [if_pos hfired, if_pos hfired, handleTimer]
        cases ht : event.timer? with
        | none => exact .idle (fun _ timer htimer => by simp [ht] at htimer) hnameless
        | some timer =>
          rw [Option.filter_some]
          cases hruns : Dict.has (e.beginStep s).state.timers timer with
          | false =>
            simp only [hruns, Bool.false_eq_true, if_false]
            refine .idle (fun _ other hother => ?_) hnameless
            rw [ht, Option.some.injEq] at hother
            exact hother ▸ hruns
          | true =>
            simp only [hruns, if_true]
            exact .fired timer hres hc hfired ht hruns
      · rw [if_neg hfired, if_neg hfired]
        exact .processed hres hfired

/-- What becomes of a request to abort an instance. -/
inductive GivesUp (s : State) (id : InstanceId) (reason : String) : Option Step → Reply → Prop
  | refused : GivesUp s id reason none (.refuse s (.unknownInstance id))
  | aborted : GivesUp s id reason
      (some (windUpEnded ((e.beginStep s).updateInstance id (·.abort reason))))
      (.ofStep (e.runQueue e.config.maxEventsPerStep
        (windUpEnded ((e.beginStep s).updateInstance id (·.abort reason)))))

theorem givesUp (s : State) (id : InstanceId) (reason : String) :
    e.GivesUp s id reason (e.opening? s (.abort id reason)) (e.abort s id reason) := by
  rw [opening?, Engine.abort]
  cases s.instance? id with
  | none => exact .refused
  | some i =>
    rw [Option.bind_some]
    simp only
    split
    · exact .refused
    · exact .aborted

/-! ## The beginning of a step -/

theorem retracts_refl (s : Step) : s.Retracts s :=
  ⟨rfl, rfl, rfl, rfl, [], (List.append_nil _).symm, nofun⟩

theorem retracts_cancelCall (s : Step) (n : InvocationId) : s.Retracts (s.cancelCall n) := by
  rw [Step.cancelCall]
  split
  · exact retracts_refl s
  · simp only
    split
    · refine ⟨rfl, rfl, rfl, rfl, _, List.append_assoc .., ?_⟩
      rintro x (_ | ⟨_, _ | ⟨_, hx⟩⟩)
      · exact ⟨rfl, rfl, rfl⟩
      · exact ⟨rfl, rfl, rfl⟩
      · cases hx
    · exact ⟨rfl, rfl, rfl, rfl, _, rfl, List.forall_mem_singleton.2 ⟨rfl, rfl, rfl⟩⟩

theorem retracts_cancelCallsOf (s : Step) (id : InstanceId) : s.Retracts (s.cancelCallsOf id) :=
  List.foldlRecOn _ Step.cancelCall (motive := s.Retracts) (retracts_refl s)
    fun s' hs n _ => hs.trans (retracts_cancelCall s' n)

theorem retracts_evict (s : Step) (i : Instance) : s.Retracts (evict s i) :=
  (retracts_cancelCallsOf s i.id).trans
    ⟨rfl, rfl, rfl, rfl, _, rfl, List.forall_mem_singleton.2 ⟨rfl, rfl, rfl⟩⟩

/-- The state in which a step begins, but for calls that are given up. -/
def counted (s : State) : State :=
  { s with
    step := s.step + 1
    instances := s.instances.filter fun i => !e.isStale (s.step + 1) i }

/-- A step begins with giving up the calls of instances that are let go. -/
theorem retracts_beginStep (s : State) : (Step.begin (e.counted s)).Retracts (e.beginStep s) := by
  rw [beginStep, List.partition_eq_filter_filter]
  exact List.foldlRecOn _ evict (motive := (Step.begin (e.counted s)).Retracts) (retracts_refl _)
    fun s' hs i _ => hs.trans (retracts_evict s' i)

/-! ## Starting instances -/

theorem childrenOf_append (requests more : Requests) :
    childrenOf (requests ++ more) = childrenOf requests ++ childrenOf more := List.flatMap_append

theorem mem_childrenOf_singleton {id : InstanceId} {f : Effects} {c : Child} :
    c ∈ childrenOf [(id, f)] ↔ ∃ r ∈ f.children, ⟨id, r⟩ = c := by
  simp [childrenOf]

/-- What a property of steps, with what was asked for so far, needs to be preserved when heads are
moved. -/
structure MovesKeep (event : Event) (P : Step → Requests → Prop) : Prop where
  abort {s : Step} {requests : Requests} {k : Nat} {i : Instance}
    (present : s.state.instances[k]? = some i) : P s requests →
      P (s.update fun t => { t with
        instances := t.instances.set k (i.abort (unloadedReason i.flow)) }) requests
  advance {s : Step} {requests : Requests} {k : Nat} {i i' : Instance} {flow : LoadedFlow}
    {head : HeadId} {world : World} {effects : Effects}
    (present : s.state.instances[k]? = some i) (loaded : e.catalog.find? i.flow = some flow)
    (moved : i.advance? flow.program s.state.world head event = some (i', world, effects)) :
    P s requests → P (s.update fun t => { t.setWorld world with
      instances := (t.setWorld world).instances.set k i' }) (requests ++ [(i.id, effects)])

namespace MovesKeep

variable {e} {event : Event} {P : Step → Requests → Prop}

theorem moveHead {acc : Step × Requests} (hk : e.MovesKeep event P) (hp : P acc.1 acc.2)
    (mover : Nat × HeadId) :
    P (e.moveHead event acc mover).1 (e.moveHead event acc mover).2 := by
  obtain ⟨s, requests⟩ := acc
  rw [Engine.moveHead]
  simp only
  split
  · exact hp
  · next i hi =>
    split
    · exact hk.abort hi hp
    · next flow hflow =>
      split
      · exact hp
      · next hadv => exact hk.advance hi hflow hadv hp

theorem moveHeads {s : Step} (hk : e.MovesKeep event P) (hp : P s []) :
    P (e.moveHeads event s).1 (e.moveHeads event s).2 :=
  List.foldlRecOn (movers s event) (e.moveHead event) (b := (s, []))
    (motive := fun acc => P acc.1 acc.2) hp fun _ hacc mover _ => hk.moveHead hacc mover

end MovesKeep

/-- What an instance of a flow is started with: what the activation of the flow has captured, or
what the head knew that has asked for a child. -/
inductive Gives (requests : Requests) (flow : LoadedFlow) : Option InstanceId → Bindings → Prop
  | activation {p : Pattern} {event : Event} {bindings : Bindings}
      (pattern : flow.flow.activation = some p) (captured : p.match? event [] = some bindings) :
      Gives requests flow none bindings
  | child {c : Child} (asked : c ∈ childrenOf requests) (names : c.request.flow = flow.id) :
      Gives requests flow (some c.parent) c.request.bindings

/-- What a property of steps, with what was asked for so far, needs to be preserved when instances
are started. -/
structure StartsKeep (P : Step → Requests → Prop) : Prop where
  refuse {s : Step} {requests : Requests} (flow : FlowId) (key : String) :
    P s requests → P (e.refuse s flow key) requests
  count {s : Step} {requests : Requests} (counts : Dict String Nat) :
    P s requests → P { s with counts } requests
  identify {s : Step} {requests : Requests} :
    P s requests → P (s.update fun t => { t with ids := t.ids.nextInstance.2 }) requests
  spawn {s : Step} {requests : Requests} {flow : LoadedFlow} {parent : Option InstanceId}
    {bindings : Bindings} (loaded : flow ∈ e.catalog.flows) (id : InstanceId) (specificity : Nat)
    (given : Gives requests flow parent bindings) :
    P s requests → P (e.spawn s flow id parent bindings specificity).1
      (requests ++ [(id, (e.spawn s flow id parent bindings specificity).2)])

namespace StartsKeep

variable {e} {P : Step → Requests → Prop} {s s' : Step} {requests : Requests}

theorem reserve {key : String} (hk : e.StartsKeep P) (hp : P s requests)
    (hr : e.reserve? s key = some s') : P s' requests := by
  rw [reserve?] at hr
  split at hr
  · cases hr
    exact hk.count _ hp
  · cases hr

theorem activateFlow {acc : Step × Requests} {flow : LoadedFlow} (hk : e.StartsKeep P)
    (event : Event) (hloaded : flow ∈ e.catalog.flows) (hp : P acc.1 acc.2) :
    P (e.activateFlow event acc flow).1 (e.activateFlow event acc flow).2 := by
  obtain ⟨s, requests⟩ := acc
  rw [Engine.activateFlow]
  simp only
  split
  · exact hp
  · next p bindings hm =>
    obtain ⟨p', hpattern, hmatch⟩ := Option.bind_eq_some_iff.1 hm
    obtain ⟨bindings', hcaptured, heq⟩ := Option.map_eq_some_iff.1 hmatch
    cases heq
    split
    · exact hk.refuse _ _ hp
    · next hr =>
      exact hk.spawn hloaded _ _ (.activation hpattern hcaptured) (hk.identify (hk.reserve hp hr))

theorem activate (hk : e.StartsKeep P) (event : Event) (hp : P s requests) :
    P (e.activate event s requests).1 (e.activate event s requests).2 :=
  List.foldlRecOn e.catalog.flows (e.activateFlow event) (motive := fun acc => P acc.1 acc.2) hp
    fun _ hacc _ hloaded => hk.activateFlow event hloaded hacc

theorem nextGrant {children : List Child} {g : Option Grant} (hk : e.StartsKeep P)
    (hp : P s requests) (h : e.nextGrant s children = (s', g)) :
    P s' requests ∧ ∀ g', g = some g' → e.catalog.find? g'.child.request.flow = some g'.flow ∧
      g'.child ∈ children ∧ g'.rest ⊆ children := by
  fun_induction Engine.nextGrant e s children with
  | case1 s =>
    cases h
    exact ⟨hp, nofun⟩
  | case2 s c rest _ ih =>
    obtain ⟨hp', hg⟩ := ih hp h
    refine ⟨hp', fun g' hg' => ?_⟩
    obtain ⟨hflow, hmem, hrest⟩ := hg g' hg'
    exact ⟨hflow, List.mem_cons_of_mem _ hmem, List.subset_cons_of_subset _ hrest⟩
  | case3 s c rest flow _ _ ih =>
    obtain ⟨hp', hg⟩ := ih (hk.refuse _ _ hp) h
    refine ⟨hp', fun g' hg' => ?_⟩
    obtain ⟨hflow, hmem, hrest⟩ := hg g' hg'
    exact ⟨hflow, List.mem_cons_of_mem _ hmem, List.subset_cons_of_subset _ hrest⟩
  | case4 s c rest flow hf s' hr =>
    cases h
    refine ⟨hk.reserve hp hr, fun g' hg' => ?_⟩
    cases hg'
    exact ⟨hf, List.mem_cons_self, List.subset_cons_self c rest⟩

theorem startChildren {children : List Child} (hk : e.StartsKeep P)
    (hasked : children ⊆ childrenOf requests) (hp : P s requests) :
    P (e.startChildren s requests children).1 (e.startChildren s requests children).2 := by
  fun_induction Engine.startChildren e s requests children with
  | case1 s requests children s' hnone => exact (hk.nextGrant hp hnone).1
  | case2 s requests children s' g hsome id started ih =>
    obtain ⟨hp', hg⟩ := hk.nextGrant hp hsome
    obtain ⟨hflow, hmem, hrest⟩ := hg g rfl
    have hid : g.flow.id = g.child.request.flow := by simpa using List.find?_some hflow
    refine ih ?_ (hk.spawn (List.mem_of_find?_eq_some hflow) id 0
      (.child (hasked hmem) hid.symm) hp')
    rw [childrenOf_append]
    exact List.append_subset.2 ⟨fun c hc => List.mem_append_left _ (hasked (hrest hc)),
      List.subset_append_right _ _⟩

/-- What moving heads ends with is preserved up to the end of the first half of a round. -/
theorem gather {event : Event} (hk : e.StartsKeep P)
    (hp : P (e.moveHeads event s).1 (e.moveHeads event s).2) :
    P (e.gather event s).1 (e.gather event s).2 :=
  hk.startChildren (List.Subset.refl _) (hk.activate event hp)

end StartsKeep

/-! ## Emissions -/

/-- What each thing preserves that happens when emissions have competed is preserved by all of
it. -/
theorem apply_preserves {P : Step → Prop} {s : Step} (requests : Requests)
    (htie : ∀ s, ∀ t ∈ (Conflict.resolve e.config.tieBreak (emissionsOf requests)).ties, P s →
      P (s.observe (.tieBroken t.key t.winner t.runnerUp t.unresolvable)))
    (hdeliver : ∀ s, ∀ m ∈ (Conflict.resolve e.config.tieBreak (emissionsOf requests)).winners,
      P s → P (deliver s m))
    (hsuppress : ∀ s, ∀ lost ∈ (Conflict.resolve e.config.tieBreak
      (emissionsOf requests)).overridden, P s → P (suppress s lost))
    (hschedule : ∀ s id t, P s → P (s.schedule id t)) (hs : P s) : P (e.apply s requests) := by
  have hfold {α : Type} (f : Step → α → Step) (as : List α) {s : Step}
      (hf : ∀ s, ∀ a ∈ as, P s → P (f s a)) (hs : P s) : P (as.foldl f s) :=
    List.foldlRecOn as f (motive := P) hs fun s hs a ha => hf s a ha hs
  have hties := hfold (fun s t => s.observe (.tieBroken t.key t.winner t.runnerUp t.unresolvable))
    (Conflict.resolve e.config.tieBreak (emissionsOf requests)).ties
    htie hs
  have hwon := hfold deliver (Conflict.resolve e.config.tieBreak (emissionsOf requests)).winners
    hdeliver hties
  have hlost := hfold suppress _ hsuppress hwon
  exact hfold (fun s (t : InstanceId × TimerRequest) => s.schedule t.1 t.2) _
    (fun s t _ hs => hschedule s t.1 t.2 hs) hlost

/-! ## Winding up -/

section WindingUp

variable {s : Step} {k : Nat} {i : Instance}

/-- The step in which the end of an instance is noted. -/
def noteEndOf (s : Step) (k : Nat) (i : Instance) : Step :=
  s.update fun t =>
    { t with instances := t.instances.set k { i with terminatedAt := some t.step } }

/-- Winding up an instance notes its end, gives up its calls if it was aborted, stops its timers and
announces the end. -/
theorem windUp_eq (hi : s.state.instances[k]? = some i) :
    ∃ given : Step, (noteEndOf s k i).Retracts given ∧
      given = (if i.status = .aborted then (noteEndOf s k i).cancelCallsOf i.id
        else noteEndOf s k i) ∧
      windUp s k = (given.stopTimersOf i.id).announce
        (if i.status = .aborted then Event.abortedName else Event.finishedName) (endNotice i) := by
  refine ⟨_, ?_, rfl, ?_⟩
  · split
    · exact retracts_cancelCallsOf _ i.id
    · exact retracts_refl _
  · rw [windUp, hi]
    rfl

/-- What each part of it preserves is preserved when an instance is wound up. -/
theorem windUp_preserves {P : Step → Prop} (hs : P s)
    (hnote : ∀ i, s.state.instances[k]? = some i → P (noteEndOf s k i))
    (hcancel : ∀ i, s.state.instances[k]? = some i → i.status = .aborted →
      P (noteEndOf s k i) → P ((noteEndOf s k i).cancelCallsOf i.id))
    (hstop : ∀ s' id, P s' → P (s'.stopTimersOf id))
    (hannounce : ∀ s' name payload, P s' → P (s'.announce name payload)) : P (windUp s k) := by
  cases hi : s.state.instances[k]? with
  | none =>
    rw [windUp, hi]
    exact hs
  | some i =>
    obtain ⟨given, -, hgiven, heq⟩ := windUp_eq hi
    rw [heq]
    refine hannounce _ _ _ (hstop _ _ ?_)
    rw [hgiven]
    split
    · next hab => exact hcancel i hi hab (hnote i hi)
    · exact hnote i hi

end WindingUp

/-! ## Queues -/

section Queues

variable {e} {P : State → Prop} {s s' : Step} {event : Event}

theorem state_nextFresh {queue : List Event} {o : Option Event}
    (hn : nextFresh s queue = (s', o)) : s'.state = s.state := by
  fun_induction nextFresh s queue with
  | case1 s =>
    cases hn
    rfl
  | case2 s ev rest _ ih => exact ih hn
  | case3 s ev rest =>
    cases hn
    rfl

/-- What every round preserves holds whenever one begins, and when the queue was worked off. -/
theorem runQueue_preserves
    (hround : ∀ (s : Step) (event : Event), P s.state → P (e.round s event).drain.state)
    (budget : Nat) (hs : P s.state) :
    P (e.runQueue budget s).state ∧ ∀ t ∈ e.roundsFrom budget s, P t.1.state := by
  induction budget generalizing s with
  | zero =>
    refine ⟨?_, List.forall_mem_nil _⟩
    rw [runQueue]
    split <;> exact hs
  | succ budget ih =>
    rw [runQueue, roundsFrom]
    generalize hn : nextFresh s s.queue = r
    obtain ⟨s', _ | event⟩ := r
    · rw [← state_nextFresh hn] at hs
      exact ⟨hs, List.forall_mem_nil _⟩
    · rw [← state_nextFresh hn] at hs
      obtain ⟨hend, hrounds⟩ := ih (hround s' event hs)
      exact ⟨hend, List.forall_mem_cons.2 ⟨hs, hrounds⟩⟩

end Queues

end Engine

end EventFlow

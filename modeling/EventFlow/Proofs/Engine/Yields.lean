import EventFlow.Proofs.Engine.Advancing
import EventFlow.Proofs.Engine.Books

/-!
# What a step yields

A step yields events for the outside, dispatches calls, reports emissions that have lost and, if its
budget runs out, how many events it has thrown away.  This file says exactly how much of this every
part of a step contributes, and what a round adds to the queue, to the table of calls and to the
lists of emissions that lost.

## What is here

* `Step.yield` is what a step has yielded so far.  **`yield_runQueue`** adds it up over the rounds
  in which a queue is worked off.
* `Overridden.answers` are the events by which an instance learns that its emission has lost.
  **`queue_round`** says what a round queues, and in which order.
* `calls_compete` says which calls a round enters in the table, and `noted_round` where it notes
  the emissions that have lost.
* `Engine.OnBehalf` says that everything was asked for on behalf of an instance that is there.
-/

set_option autoImplicit false

namespace EventFlow

variable {Compiled Found : Type} [Query.Library Compiled Found]

/-! ## Yields -/

/-- What leaves a step: events for the outside, calls to make, reports that emissions have lost, and
how many events were thrown away each time a budget ran out. -/
@[ext] structure Yield where
  outputs : List Event
  dispatched : List Dispatch
  overridden : List Observation
  dropped : List Nat

namespace Yield

/-- Nothing. -/
def none : Yield := ⟨[], [], [], []⟩

instance : Append Yield :=
  ⟨fun y z => ⟨y.outputs ++ z.outputs, y.dispatched ++ z.dispatched, y.overridden ++ z.overridden,
    y.dropped ++ z.dropped⟩⟩

theorem append_def (y z : Yield) :
    y ++ z = ⟨y.outputs ++ z.outputs, y.dispatched ++ z.dispatched, y.overridden ++ z.overridden,
      y.dropped ++ z.dropped⟩ := rfl

@[simp] theorem append_none (y : Yield) : y ++ none = y := by simp [append_def, none]

@[simp] theorem none_append (y : Yield) : none ++ y = y := by simp [append_def, none]

theorem append_assoc (x y z : Yield) : x ++ y ++ z = x ++ (y ++ z) := by simp [append_def]

/-- What several things yield together. -/
def all {α : Type} (f : α → Yield) : List α → Yield
  | [] => none
  | a :: as => f a ++ all f as

end Yield

namespace Signal

/-- The report that an emission has lost. -/
def override? : Signal → Option Observation
  | observed (.emissionOverridden i name key winner) => some (.emissionOverridden i name key winner)
  | _ => none

/-- How many events were thrown away. -/
def dropped? : Signal → Option Nat
  | observed (.budgetExhausted _ dropped) => some dropped
  | _ => none

/-- What a signal contributes. -/
def yield (x : Signal) : Yield := ⟨[], x.dispatch?.toList, x.override?.toList, x.dropped?.toList⟩

end Signal

/-- What some signals contribute. -/
def Yield.ofSignals (signals : List Signal) : Yield :=
  ⟨[], signals.filterMap Signal.dispatch?, signals.filterMap Signal.override?,
    signals.filterMap Signal.dropped?⟩

/-- What a step has yielded. -/
def Step.yield (s : Step) : Yield := { Yield.ofSignals s.signals with outputs := s.outputs }

/-- What a request has yielded. -/
def Reply.yield (r : Reply) : Yield :=
  { Yield.ofSignals r.signals with outputs := r.outcome.toOption.getD [] }

/-- What an emission yields that wins. -/
def Emission.yield (m : Emission) : Yield :=
  match m.intent with
  | .send _ .internal => .none
  | .send event .external => ⟨[event], [], [], []⟩
  | .call r => ⟨[], [r.dispatch], [], []⟩

namespace Overridden

/-- The report that an emission has lost. -/
def report (l : Overridden) : Observation :=
  .emissionOverridden l.emission.instanceId l.emission.name (l.emission.key.getD "") l.winner

/-- The result of a call that has lost. -/
def results (l : Overridden) : List Event :=
  match l.emission.intent with
  | .send _ _ => []
  | .call r => [Engine.lostResult l r]

/-- The notice that an emission has lost. -/
def notice (l : Overridden) (id : EventId) : Event :=
  ⟨id, Event.overriddenName, Engine.lostNotice l, .internal⟩

/-- The events by which instances learn that their emissions have lost: for each of them the notice,
and before it, if it was a call, the result. -/
def answers : IdSource → List Overridden → List Event
  | _, [] => []
  | ids, l :: ls => l.results ++ l.notice ids.nextEvent.1 :: answers ids.nextEvent.2 ls

end Overridden

section Yields

open Engine

variable {e : Engine} {s s' : Step} {event : Event} {requests : Requests}

theorem Yield.ofSignals_append (xs ys : List Signal) :
    ofSignals (xs ++ ys) = ofSignals xs ++ ofSignals ys := by simp [ofSignals, append_def]

theorem yield_emit (s : Step) (x : Signal) : (s.emit x).yield = s.yield ++ x.yield := by
  simp [Step.yield, Step.emit, Yield.ofSignals, Signal.yield, Yield.append_def,
    List.filterMap_append, List.filterMap_cons]
  refine ⟨?_, ?_, ?_⟩ <;> split <;> simp [*]

theorem yield_foldl {α : Type} {f : Step → α → Step} {y : α → Yield}
    (hf : ∀ s a, (f s a).yield = s.yield ++ y a) (as : List α) (s : Step) :
    (as.foldl f s).yield = s.yield ++ Yield.all y as := by
  induction as generalizing s with
  | nil => exact (Yield.append_none _).symm
  | cons a as ih => rw [List.foldl_cons, ih, hf, Yield.all, Yield.append_assoc]

theorem yield_foldl_same {α : Type} {f : Step → α → Step} (hf : ∀ s a, (f s a).yield = s.yield)
    (as : List α) (s : Step) : (as.foldl f s).yield = s.yield :=
  List.foldlRecOn as f (motive := fun s' => s'.yield = s.yield) rfl
    fun s' hs a _ => (hf s' a).trans hs

/-- A signal that contributes nothing changes nothing. -/
theorem yield_emit_same {x : Signal} (hx : x.yield = .none) (s : Step) :
    (s.emit x).yield = s.yield := by
  rw [yield_emit, hx, Yield.append_none]

theorem yield_cancelCall (s : Step) (n : InvocationId) : (s.cancelCall n).yield = s.yield := by
  rw [Step.cancelCall]
  split
  · rfl
  · simp only
    split
    · exact (yield_emit_same rfl _).trans (yield_emit_same rfl _)
    · exact yield_emit_same rfl _

theorem yield_cancelCallsOf (s : Step) (id : InstanceId) :
    (s.cancelCallsOf id).yield = s.yield := yield_foldl_same yield_cancelCall _ s

theorem yield_beginStep (e : Engine) (s : State) : (e.beginStep s).yield = .none := by
  have hevict (s : Step) (i : Instance) : (evict s i).yield = s.yield :=
    (yield_emit_same rfl _).trans (yield_cancelCallsOf s i.id)
  exact yield_foldl_same hevict _ _

/-! ## Rounds -/

theorem yield_moves (e : Engine) (event : Event) (s : Step) :
    e.MovesKeep event fun s' _ => s'.yield = s.yield where
  abort _ h := h
  advance _ _ _ h := h

theorem yield_starts (e : Engine) (s : Step) : e.StartsKeep fun s' _ => s'.yield = s.yield where
  refuse _ _ h := (yield_emit_same rfl _).trans h
  count _ h := h
  identify h := h
  spawn _ _ _ _ h := h

theorem yield_gather (e : Engine) (event : Event) (s : Step) :
    (e.gather event s).1.yield = s.yield :=
  (yield_starts e s).gather ((yield_moves e event s).moveHeads rfl)

theorem yield_deliver (s : Step) (m : Emission) : (deliver s m).yield = s.yield ++ m.yield := by
  rw [deliver, Emission.yield]
  cases m.intent with
  | send ev d =>
    cases d with
    | internal => exact (Yield.append_none _).symm
    | external => simp [Step.yield, Yield.append_def]
  | call r =>
    have hentered : (s.update fun t => { t with calls := t.calls.invoke m.instanceId r }).yield =
        s.yield := rfl
    refine (yield_emit_same rfl _).trans ?_
    rw [yield_emit, hentered]
    rfl

theorem yield_suppress (s : Step) (l : Overridden) :
    (suppress s l).yield = s.yield ++ ⟨[], [], [l.report], []⟩ := by
  have hnoted : (s.updateInstance l.emission.instanceId
      (·.noteOverridden l.emission.id)).yield = s.yield := by
    rw [Step.updateInstance]
    split <;> rfl
  have hreported := yield_emit (s.updateInstance l.emission.instanceId
    (·.noteOverridden l.emission.id)) (.observed l.report)
  rw [hnoted] at hreported
  rw [suppress]
  split <;> exact hreported

theorem yield_apply (e : Engine) (s : Step) (requests : Requests) :
    (e.apply s requests).yield = s.yield ++
      (Yield.all Emission.yield (Conflict.resolve e.config.tieBreak
          (emissionsOf requests)).winners ++
        Yield.all (fun l => ⟨[], [], [Overridden.report l], []⟩)
          (Conflict.resolve e.config.tieBreak (emissionsOf requests)).overridden) := by
  have hties := yield_foldl_same (f := fun (s : Step) (t : Tie) =>
    s.observe (.tieBroken t.key t.winner t.runnerUp t.unresolvable))
    fun s t => yield_emit_same rfl s
  have htimers := yield_foldl_same (f := fun (s : Step) (t : InstanceId × TimerRequest) =>
    s.schedule t.1 t.2) fun s t => yield_emit_same rfl _
  have hall (r : Resolution) (timers : List (InstanceId × TimerRequest)) :=
    (htimers timers _).trans ((yield_foldl yield_suppress r.overridden _).trans
      (congrArg (· ++ _) ((yield_foldl yield_deliver r.winners _).trans
        (congrArg (· ++ _) (hties r.ties s)))))
  simp only [Yield.append_assoc] at hall
  exact hall (Conflict.resolve e.config.tieBreak (emissionsOf requests))
    (requests.flatMap fun r => r.2.timers.map (r.1, ·))

theorem yield_stopTimersOf (s : Step) (id : InstanceId) : (s.stopTimersOf id).yield = s.yield :=
  yield_foldl_same (f := fun (s : Step) (t : TimerId) =>
    (s.update fun s => { s with timers := Dict.remove s.timers t }).emit (.timerCancelled t))
    (fun _ _ => yield_emit_same rfl _) _ s

theorem yield_windUp (s : Step) (k : Nat) : (windUp s k).yield = s.yield :=
  windUp_preserves (P := fun s' => s'.yield = s.yield) rfl (fun _ _ => rfl)
    (fun i _ _ hs => (yield_cancelCallsOf _ i.id).trans hs)
    (fun s' id hs => (yield_stopTimersOf s' id).trans hs) fun _ _ _ hs => hs

theorem yield_windUpEnded (s : Step) : (windUpEnded s).yield = s.yield :=
  yield_foldl_same yield_windUp _ s

/-- What a round yields. -/
def Engine.yieldOf (e : Engine) (round : Step × Event) : Yield :=
  Yield.all Emission.yield (e.resolutionOf round).winners ++
    Yield.all (fun l => ⟨[], [], [Overridden.report l], []⟩) (e.resolutionOf round).overridden

theorem yield_round (e : Engine) (s : Step) (event : Event) :
    (e.round s event).yield = s.yield ++ e.yieldOf (s, event) := by
  rw [round_eq, yield_windUpEnded, compete, yield_apply, yield_gather]
  rfl

/-- What instances observe themselves contributes nothing. -/
theorem yield_drain (hp : ∀ i ∈ s.state.instances, i.Personal) : s.drain.yield = s.yield := by
  have hnone (os : List Observation) (hos : ∀ o ∈ os, o.isPersonal = true) :
      Yield.ofSignals (os.map .observed) = .none := by
    induction os with
    | nil => rfl
    | cons o os ih =>
      obtain ⟨ho, hos⟩ := List.forall_mem_cons.1 hos
      rw [List.map_cons, ← List.singleton_append, Yield.ofSignals_append, ih hos]
      cases o <;> first | rfl | cases ho
  have hdrained : s.drain.yield = s.yield ++
      Yield.ofSignals ((s.state.instances.flatMap Instance.observations).map .observed) := by
    simp [Step.yield, Step.drain, Yield.ofSignals, Yield.append_def]
  rw [hdrained, hnone, Yield.append_none]
  intro o ho
  obtain ⟨i, hi, ho⟩ := List.mem_flatMap.1 ho
  exact hp i hi o ho

theorem yield_nextFresh {queue : List Event} {o : Option Event}
    (hn : nextFresh s queue = (s', o)) : s'.yield = s.yield := by
  fun_induction nextFresh s queue with
  | case1 s =>
    cases hn
    rfl
  | case2 s ev rest _ ih => exact (ih hn).trans (yield_emit_same rfl s)
  | case3 s ev rest =>
    cases hn
    rfl

/-! ## Queues -/

/-- What instances have to hand on are only observations of their own. -/
theorem personal_keep (e : Engine) : e.InstancesKeep Instance.Personal where
  capture _ _ _ := trivial
  start {flow bindings _} _ id priority createdAt parent specificity w _ hr := by
    have hspawned := @remains_observe (.instanceSpawned id flow.id parent) rfl
      (.spawn id flow.id priority createdAt parent bindings specificity)
    rw [← hr]
    exact ⟨(hspawned.trans (remains_start flow.program _ w).1).personal nofun, fun _ _ => trivial⟩
  advance hi _ hadv := ⟨(remains_advance? hadv).1.personal hi, fun _ _ => trivial⟩
  abort reason hi := (remains_abort _ reason).personal hi
  note _ hi := hi
  windUp _ _ hi := hi
  drain _ := nofun

/-- The report that some events were thrown away, if there were any. -/
def Yield.loss (events : List Event) : Yield :=
  ⟨[], [], [], if events.isEmpty then [] else [events.length]⟩

/-- **While a queue is worked off its rounds yield something, and nothing else does** but a budget
that runs out. -/
theorem yield_runQueue (e : Engine) (budget : Nat) (hp : ∀ i ∈ s.state.instances, i.Personal) :
    (e.runQueue budget s).yield = s.yield ++
      (Yield.all e.yieldOf (e.roundsFrom budget s) ++ Yield.loss (e.discardedFrom budget s)) := by
  induction budget generalizing s with
  | zero =>
    rw [runQueue, roundsFrom, discardedFrom, Yield.all, Yield.none_append, Yield.loss]
    split
    · exact (Yield.append_none _).symm
    · exact yield_emit s (.observed (.budgetExhausted s.state.step s.queue.length))
  | succ budget ih =>
    rw [runQueue, roundsFrom, discardedFrom]
    generalize hn : nextFresh s s.queue = r
    obtain ⟨s', _ | event⟩ := r
    · rw [yield_nextFresh hn]
      exact (Yield.append_none _).symm
    · have hp' : ∀ i ∈ (e.round s' event).state.instances, i.Personal := by
        refine (personal_keep e).round ?_ event
        rw [state_nextFresh hn]
        exact hp
      simp only
      rw [ih ((personal_keep e).drained hp'), yield_drain hp', yield_round, yield_nextFresh hn,
        Yield.all, Yield.append_assoc, Yield.append_assoc]

/-! ## What a round queues -/

/-- The event an emission queues that wins. -/
def Emission.queued? (m : Emission) : Option Event :=
  match m.intent with
  | .send event .internal => some event
  | _ => none

theorem queue_deliver (s : Step) (m : Emission) :
    (deliver s m).queue = s.queue ++ m.queued?.toList ∧
      (deliver s m).state.ids = s.state.ids := by
  rw [deliver, Emission.queued?]
  cases m.intent with
  | send ev d =>
    cases d with
    | internal => exact ⟨rfl, rfl⟩
    | external => exact ⟨(List.append_nil _).symm, rfl⟩
  | call r => exact ⟨(List.append_nil _).symm, rfl⟩

theorem queue_foldl_deliver (ms : List Emission) (s : Step) :
    (ms.foldl deliver s).queue = s.queue ++ ms.filterMap Emission.queued? ∧
      (ms.foldl deliver s).state.ids = s.state.ids := by
  induction ms generalizing s with
  | nil => exact ⟨(List.append_nil _).symm, rfl⟩
  | cons m ms ih =>
    obtain ⟨hqueue, hids⟩ := queue_deliver s m
    obtain ⟨hqueue', hids'⟩ := ih (deliver s m)
    refine ⟨?_, hids'.trans hids⟩
    rw [List.foldl_cons, hqueue', hqueue, List.append_assoc, List.filterMap_cons]
    cases m.queued? <;> rfl

theorem queue_suppress (s : Step) (l : Overridden) :
    (suppress s l).queue = s.queue ++ (l.results ++ [l.notice s.state.ids.nextEvent.1]) ∧
      (suppress s l).state.ids = s.state.ids.nextEvent.2 := by
  obtain ⟨hqueue, hids⟩ : (s.updateInstance l.emission.instanceId
      (·.noteOverridden l.emission.id)).queue = s.queue ∧ (s.updateInstance l.emission.instanceId
        (·.noteOverridden l.emission.id)).state.ids = s.state.ids := by
    rw [Step.updateInstance]
    split <;> exact ⟨rfl, rfl⟩
  rw [suppress, Overridden.results]
  generalize s.updateInstance l.emission.instanceId (·.noteOverridden l.emission.id) = noted
    at hqueue hids
  rw [← hqueue, ← hids]
  cases l.emission.intent with
  | send => exact ⟨rfl, rfl⟩
  | call r => exact ⟨List.append_assoc .., rfl⟩

theorem queue_foldl_suppress (ls : List Overridden) (s : Step) :
    (ls.foldl suppress s).queue = s.queue ++ Overridden.answers s.state.ids ls := by
  induction ls generalizing s with
  | nil => exact (List.append_nil _).symm
  | cons l ls ih =>
    obtain ⟨hqueue, hids⟩ := queue_suppress s l
    rw [List.foldl_cons, ih, hqueue, hids, Overridden.answers, List.append_assoc, List.append_assoc]
    rfl

/-- Reporting the ties of a round changes nothing of the state. -/
theorem foldl_observe_ties (ties : List Tie) (s : Step) :
    (ties.foldl (fun s t =>
        s.observe (.tieBroken t.key t.winner t.runnerUp t.unresolvable)) s).state = s.state ∧
      (ties.foldl (fun s t =>
        s.observe (.tieBroken t.key t.winner t.runnerUp t.unresolvable)) s).queue = s.queue :=
  List.foldlRecOn ties _ (motive := fun s' : Step => s'.state = s.state ∧ s'.queue = s.queue)
    ⟨rfl, rfl⟩ fun _ hs _ _ => hs

/-- Scheduling timers touches neither instances nor calls, and queues nothing. -/
theorem foldl_schedule (timers : List (InstanceId × TimerRequest)) (s : Step) :
    (timers.foldl (fun s t => s.schedule t.1 t.2) s).state.instances = s.state.instances ∧
      (timers.foldl (fun s t => s.schedule t.1 t.2) s).state.calls = s.state.calls ∧
      (timers.foldl (fun s t => s.schedule t.1 t.2) s).queue = s.queue :=
  List.foldlRecOn timers _ (motive := fun s' : Step => s'.state.instances = s.state.instances ∧
    s'.state.calls = s.state.calls ∧ s'.queue = s.queue) ⟨rfl, rfl, rfl⟩ fun _ hs _ _ => hs

/-- What has competed is queued if it is for the inside and has won; then comes what the losers are
told. -/
theorem queue_apply (e : Engine) (s : Step) (requests : Requests) :
    (e.apply s requests).queue = s.queue ++
      ((Conflict.resolve e.config.tieBreak (emissionsOf requests)).winners.filterMap
          Emission.queued? ++
        Overridden.answers s.state.ids
          (Conflict.resolve e.config.tieBreak (emissionsOf requests)).overridden) := by
  rw [apply]
  rw [(foldl_schedule _ _).2.2, queue_foldl_suppress, (queue_foldl_deliver _ _).1,
    (queue_foldl_deliver _ _).2, (foldl_observe_ties _ _).2, (foldl_observe_ties _ _).1,
    List.append_assoc]
  rfl

/-- The first half of a round neither queues events nor touches the table of calls. -/
theorem agrees_gather (e : Engine) (event : Event) (s : Step) :
    s.Agrees (e.gather event s).1 := by
  have hstarts : e.StartsKeep fun s' _ => s.Agrees s' :=
    ⟨fun _ _ h => ⟨h.calls, h.queue, h.seen⟩, fun _ h => ⟨h.calls, h.queue, h.seen⟩,
      fun h => ⟨h.calls, h.queue, h.seen⟩, fun _ _ _ _ h => ⟨h.calls, h.queue, h.seen⟩⟩
  have hmoves : e.MovesKeep event fun s' _ => s.Agrees s' :=
    ⟨fun _ h => ⟨h.calls, h.queue, h.seen⟩, fun _ _ _ h => ⟨h.calls, h.queue, h.seen⟩⟩
  exact hstarts.gather (hmoves.moveHeads ⟨rfl, rfl, rfl⟩)

/-- An event tells that an instance has ended. -/
def Event.IsEnding (ev : Event) : Prop :=
  ev.name = Event.finishedName ∨ ev.name = Event.abortedName

theorem queue_stopTimersOf (s : Step) (id : InstanceId) :
    (s.stopTimersOf id).queue = s.queue ∧ (s.stopTimersOf id).seen = s.seen :=
  List.foldlRecOn _ _ (motive := fun s' : Step => s'.queue = s.queue ∧ s'.seen = s.seen)
    ⟨rfl, rfl⟩ fun _ hs _ _ => hs

theorem queue_windUp (s : Step) (k : Nat) : ∃ endings, (windUp s k).queue = s.queue ++ endings ∧
    (∀ ev ∈ endings, ev.IsEnding) ∧ (windUp s k).seen = s.seen := by
  cases hi : s.state.instances[k]? with
  | none =>
    rw [windUp, hi]
    exact ⟨[], (List.append_nil _).symm, List.forall_mem_nil _, rfl⟩
  | some i =>
    obtain ⟨given, hretracts, -, heq⟩ := windUp_eq hi
    obtain ⟨hqueue, hseen⟩ := queue_stopTimersOf given i.id
    rw [heq]
    refine ⟨[_], congrArg (· ++ [_]) (hqueue.trans hretracts.queue), ?_,
      hseen.trans hretracts.seen⟩
    refine List.forall_mem_singleton.2 ?_
    simp only [Event.IsEnding]
    split
    · exact .inr rfl
    · exact .inl rfl

theorem queue_windUpEnded (s : Step) : ∃ endings, (windUpEnded s).queue = s.queue ++ endings ∧
    (∀ ev ∈ endings, ev.IsEnding) ∧ (windUpEnded s).seen = s.seen := by
  refine List.foldlRecOn (ended s) windUp (motive := fun s' => ∃ endings,
    s'.queue = s.queue ++ endings ∧ (∀ ev ∈ endings, ev.IsEnding) ∧ s'.seen = s.seen)
    ⟨[], (List.append_nil _).symm, List.forall_mem_nil _, rfl⟩ ?_
  rintro s' ⟨endings, hqueue, hendings, hseen⟩ k -
  obtain ⟨more, hqueue', hmore, hseen'⟩ := queue_windUp s' k
  refine ⟨endings ++ more, by rw [hqueue', hqueue, List.append_assoc], fun ev hev => ?_,
    hseen'.trans hseen⟩
  exact (List.mem_append.1 hev).elim (hendings ev) (hmore ev)

/-- **What a round queues**: the events for the inside that have won, what the losers are told, and
the ends of instances. -/
theorem queue_round (e : Engine) (s : Step) (event : Event) : ∃ endings,
    (e.round s event).queue = s.queue ++
      ((e.resolutionOf (s, event)).winners.filterMap Emission.queued? ++
        Overridden.answers (e.gather event s).1.state.ids (e.resolutionOf (s, event)).overridden ++
          endings) ∧
    (∀ ev ∈ endings, ev.IsEnding) ∧ (e.round s event).seen = s.seen := by
  have hagrees := agrees_gather e event s
  obtain ⟨endings, hqueue, hendings, hseen⟩ := queue_windUpEnded (e.compete event s)
  have happ := applied_compete e event s
  refine ⟨endings, ?_, hendings, hseen.trans (happ.seen.trans hagrees.seen)⟩
  rw [round_eq, hqueue, compete, queue_apply, hagrees.queue, List.append_assoc]
  rfl

/-! ## What a round enters in the table of calls -/

/-- The entry of a call that wins. -/
def Emission.pending? (m : Emission) : Option (InvocationId × PendingCall) :=
  match m.intent with
  | .send _ _ => none
  | .call r => some (r.invocation,
      ⟨r.invocation, r.action, r.arguments, m.instanceId, r.head, .inFlight, none⟩)

theorem calls_foldl_deliver (ms : List Emission) (s : Step) :
    (ms.foldl deliver s).state.calls =
      Dict.putAll s.state.calls (ms.filterMap Emission.pending?) := by
  induction ms generalizing s with
  | nil => rfl
  | cons m ms ih =>
    rw [List.foldl_cons, ih, List.filterMap_cons, deliver, Emission.pending?]
    cases m.intent with
    | send ev d => cases d <;> rfl
    | call r => rfl

/-- **A round enters the calls that win**, and these are in flight. -/
theorem calls_compete (e : Engine) (s : Step) (event : Event) :
    (e.compete event s).state.calls =
      Dict.putAll s.state.calls ((e.resolutionOf (s, event)).winners.filterMap
        Emission.pending?) := by
  have hlost (ls : List Overridden) (s : Step) :
      (ls.foldl suppress s).state.calls = s.state.calls :=
    List.foldlRecOn ls suppress (motive := fun s' : Step => s'.state.calls = s.state.calls) rfl
      fun s' hs l _ => (quiet_suppress s' l).1.trans hs
  rw [compete, apply]
  rw [(foldl_schedule _ _).2.1, hlost, calls_foldl_deliver, (foldl_observe_ties _ _).1,
    (agrees_gather e event s).calls]
  rfl

/-! ## What becomes of instances -/

/-- Instances keep their places and remain what they are, and those that were started have not ended
in an earlier step and have lost nothing. -/
structure Engine.Descends (s₀ s : Step) : Prop where
  longer : s₀.state.instances.length ≤ s.state.instances.length
  each : ∀ (k : Nat) (i : Instance), s.state.instances[k]? = some i →
    (∃ x, s₀.state.instances[k]? = some x ∧ x.Remains i) ∨
      s₀.state.instances[k]? = none ∧ i.overridden = [] ∧ i.terminatedAt = none

theorem descends_refl (s : Step) : Descends s s :=
  ⟨Nat.le_refl _, fun _ i hi => .inl ⟨i, hi, remains_refl i⟩⟩

theorem Engine.Descends.congr {s₀ : Step} (h : Descends s₀ s)
    (hsame : s'.state.instances = s.state.instances) : Descends s₀ s' :=
  ⟨hsame ▸ h.longer, hsame ▸ h.each⟩

theorem Engine.Descends.replace {s₀ : Step} {k : Nat} {x x' : Instance} (h : Descends s₀ s)
    (hx : s.state.instances[k]? = some x) (hr : x.Remains x')
    (hset : s'.state.instances = s.state.instances.set k x') : Descends s₀ s' := by
  refine ⟨by rw [hset, List.length_set]; exact h.longer, fun j i hi => ?_⟩
  rw [hset, List.getElem?_set] at hi
  split at hi
  · next hkj =>
    subst hkj
    split at hi
    · obtain rfl := Option.some.inj hi
      refine (h.each k x hx).imp ?_ ?_
      · rintro ⟨y, hy, hyx⟩
        exact ⟨y, hy, hyx.trans hr⟩
      · rintro ⟨hnone, hover, hterm⟩
        exact ⟨hnone, hr.overridden.trans hover, hr.terminatedAt.trans hterm⟩
    · cases hi
  · exact h.each j i hi

/-- A new instance has its identity, has not ended in an earlier step and has lost nothing; what it
asks for bears its identity. -/
theorem instances_spawn (e : Engine) (s : Step) (flow : LoadedFlow) (id : InstanceId)
    (parent : Option InstanceId) (bindings : Bindings) (specificity : Nat) : ∃ i,
    (e.spawn s flow id parent bindings specificity).1.state.instances =
      s.state.instances ++ [i] ∧
    i.id = id ∧ i.overridden = [] ∧ i.terminatedAt = none ∧
    (e.spawn s flow id parent bindings specificity).2.Stamped id := by
  rw [spawn]
  obtain ⟨hr, hst⟩ := remains_start flow.program ((Instance.spawn id flow.id
    (flow.flow.priority.getD e.config.defaultPriority) s.state.nextInstance parent bindings
      specificity).observe (.instanceSpawned id flow.id parent)) s.state.world
  exact ⟨_, rfl, hr.id, hr.overridden, hr.terminatedAt, hst⟩

theorem descends_gather (e : Engine) (event : Event) (s : Step) :
    Descends s (e.gather event s).1 := by
  have hstarts : e.StartsKeep fun s' _ => Descends s s' := by
    refine ⟨fun _ _ h => h.congr rfl, fun _ h => h.congr rfl, fun h => h.congr rfl, ?_⟩
    intro s' requests flow parent bindings _ id specificity _ h
    obtain ⟨x, hnew, -, hover, hterm, -⟩ :=
      instances_spawn e s' flow id parent bindings specificity
    refine ⟨?_, fun k i hi => ?_⟩
    · rw [hnew, List.length_append]
      exact Nat.le_add_right_of_le h.longer
    · rw [hnew, List.getElem?_append] at hi
      split at hi
      · exact h.each k i hi
      · next hlt =>
        obtain rfl := List.mem_singleton.1 (List.mem_of_getElem? hi)
        have := h.longer
        exact .inr ⟨List.getElem?_eq_none (by omega), hover, hterm⟩
  have hmoves : e.MovesKeep event fun s' _ => Descends s s' :=
    ⟨fun hx h => h.replace hx (remains_abort ..) rfl,
      fun hx _ hadv h => h.replace hx (remains_advance? hadv).1 rfl⟩
  exact hstarts.gather (hmoves.moveHeads (descends_refl s))

/-! ## What a round notes -/

/-- The identities of the emissions of an instance that have lost. -/
def Overridden.idsOf (id : InstanceId) (ls : List Overridden) : List String :=
  (ls.filter fun l => l.emission.instanceId = id).map fun l => l.emission.id

/-- The instance at a place is the first one with its identity. -/
def State.First (s : State) (k : Nat) (i : Instance) : Prop :=
  s.instances[k]? = some i ∧ i.id ∉ s.instanceIds.take k

theorem State.First.congr {t t' : State} {k : Nat} {i i' : Instance} (hi : t.First k i)
    (hids : t'.instanceIds = t.instanceIds) (hk : t'.instances[k]? = some i')
    (hid : i'.id = i.id) : t'.First k i' :=
  ⟨hk, by rw [hids, hid]; exact hi.2⟩

theorem State.First.of_instances {t t' : State} {k : Nat} {i : Instance} (hi : t.First k i)
    (hsame : t'.instances = t.instances) : t'.First k i :=
  hi.congr (congrArg (List.map Instance.id) hsame) (hsame ▸ hi.1) rfl

theorem instanceIds_note (s : Step) (id : InstanceId) (text : String) :
    (s.updateInstance id (·.noteOverridden text)).state.instanceIds = s.state.instanceIds :=
  map_updateInstance Instance.id s id fun _ => rfl

theorem findIdx?_of_first {t : State} {k : Nat} {i : Instance} (hi : t.First k i) :
    t.instances.findIdx? (fun x => x.id = i.id) = some k := by
  obtain ⟨hlt, hget⟩ := List.getElem?_eq_some_iff.1 hi.1
  refine List.findIdx?_eq_some_iff_getElem.2 ⟨hlt, decide_eq_true (congrArg _ hget), ?_⟩
  intro j hjk hid
  refine hi.2 (List.mem_take_iff_getElem.2 ⟨j, ?_, ?_⟩)
  · rw [State.instanceIds, List.length_map]
    omega
  · simpa [State.instanceIds] using hid

/-- What is noted for an identity is noted by the first instance that has it. -/
theorem first_note {k : Nat} {i : Instance} (hi : s.state.First k i) (id : InstanceId)
    (text : String) : (s.updateInstance id (·.noteOverridden text)).state.First k
      (if i.id = id then i.noteOverridden text else i) := by
  refine hi.congr (instanceIds_note s id text) ?_ (by split <;> rfl)
  by_cases hid : i.id = id
  · subst hid
    rw [Step.updateInstance, findIdx?_of_first hi, if_pos rfl]
    simp [Step.update, hi.1]
  · rw [if_neg hid]
    exact getElem?_updateInstance hi.1 hid

theorem first_suppress {k : Nat} {i : Instance} (hi : s.state.First k i) (l : Overridden) :
    ∃ i', (suppress s l).state.First k i' ∧ i'.id = i.id ∧
      i'.overridden = i.overridden ++ Overridden.idsOf i.id [l] := by
  have hnoted := first_note hi l.emission.instanceId l.emission.id
  have hsame : (suppress s l).state.instances = (s.updateInstance l.emission.instanceId
      (·.noteOverridden l.emission.id)).state.instances := by
    rw [suppress]
    cases l.emission.intent <;> rfl
  refine ⟨_, hnoted.of_instances hsame, ?_, ?_⟩
  · split <;> rfl
  · by_cases hid : i.id = l.emission.instanceId
    · rw [if_pos hid, Overridden.idsOf, hid]
      simp [Instance.noteOverridden]
    · rw [if_neg hid, Overridden.idsOf]
      simp [Ne.symm hid]

theorem first_foldl_suppress {k : Nat} {i : Instance} (ls : List Overridden)
    (hi : s.state.First k i) : ∃ i', (ls.foldl suppress s).state.First k i' ∧ i'.id = i.id ∧
      i'.overridden = i.overridden ++ Overridden.idsOf i.id ls := by
  induction ls generalizing s i with
  | nil => exact ⟨i, hi, rfl, (List.append_nil _).symm⟩
  | cons l ls ih =>
    obtain ⟨x, hx, hid, hover⟩ := first_suppress hi l
    obtain ⟨y, hy, hid', hover'⟩ := ih hx
    refine ⟨y, hy, hid'.trans hid, ?_⟩
    rw [hover', hover, hid, List.append_assoc, Overridden.idsOf, Overridden.idsOf,
      Overridden.idsOf, ← List.map_append, ← List.filter_append, List.singleton_append]

theorem first_apply (e : Engine) {k : Nat} {i : Instance} (hi : s.state.First k i)
    (requests : Requests) : ∃ i', (e.apply s requests).state.First k i' ∧ i'.id = i.id ∧
      i'.overridden = i.overridden ++ Overridden.idsOf i.id
        (Conflict.resolve e.config.tieBreak (emissionsOf requests)).overridden := by
  have hwon (ms : List Emission) (s : Step) :
      (ms.foldl deliver s).state.instances = s.state.instances :=
    List.foldlRecOn ms deliver (motive := fun s' : Step => s'.state.instances = s.state.instances)
      rfl fun s' hs m _ => (instances_deliver s' m).trans hs
  rw [apply]
  have hcompeting := hi.of_instances ((hwon (Conflict.resolve e.config.tieBreak
    (emissionsOf requests)).winners _).trans (congrArg State.instances (foldl_observe_ties
      (Conflict.resolve e.config.tieBreak (emissionsOf requests)).ties s).1))
  obtain ⟨i', hi', hid, hover⟩ := first_foldl_suppress (Conflict.resolve e.config.tieBreak
    (emissionsOf requests)).overridden hcompeting
  exact ⟨i', hi'.of_instances (foldl_schedule _ _).1, hid, hover⟩

theorem overridden_windUpEnded (s : Step) :
    (windUpEnded s).state.instances.map Instance.overridden =
      s.state.instances.map Instance.overridden := by
  rw [instances_windUpEnded, List.map_map]
  exact List.map_congr_left fun i _ => noteEnd_overridden _ i

/-- **What a round notes.**  The first instance with an identity gets the emissions of that identity
that have lost, after those it had. -/
theorem noted_round (e : Engine) (s : Step) (event : Event) {k : Nat} {i : Instance}
    (hi : (e.round s event).state.First k i) :
    i.overridden = (s.state.instances[k]?).elim [] Instance.overridden ++
      Overridden.idsOf i.id (e.resolutionOf (s, event)).overridden := by
  have hids := instanceIds_round e s event
  obtain ⟨x, hx, hxid⟩ : ∃ x, (e.gather event s).1.state.instances[k]? = some x ∧ x.id = i.id := by
    have hget := congrArg (·[k]?) hids
    simp only [State.instanceIds, List.getElem?_map, hi.1, Option.map_some] at hget
    exact Option.map_eq_some_iff.1 hget.symm
  have hbefore : x.overridden = (s.state.instances[k]?).elim [] Instance.overridden := by
    rcases (descends_gather e event s).each k x hx with ⟨y, hy, hr⟩ | ⟨hnone, hover, -⟩
    · rw [hy, hr.overridden]
      rfl
    · rw [hnone, hover]
      rfl
  obtain ⟨y, hy, -, hover⟩ := first_apply e (hi.congr hids.symm hx hxid) (e.gather event s).2
  have hlists := congrArg (·[k]?) (overridden_windUpEnded (e.compete event s))
  simp only [List.getElem?_map] at hlists
  rw [← round_eq, hi.1, show (e.compete event s).state.instances[k]? = some y from hy.1] at hlists
  rw [Option.some.inj hlists, hover, hbefore, hxid]
  rfl

/-! ## On whose behalf things are asked for -/

/-- Everything was asked for on behalf of an instance that is there, and of which something
holds. -/
def Engine.OnBehalf (P : Instance → Prop) (s : Step) (requests : Requests) : Prop :=
  ∀ q ∈ requests, q.2.Stamped q.1 ∧ ∃ i ∈ s.state.instances, i.id = q.1 ∧ P i

section Behalf

variable {P Q : Instance → Prop}

theorem Engine.OnBehalf.congr (h : OnBehalf P s requests)
    (hsame : s'.state.instances = s.state.instances) : OnBehalf P s' requests := by
  rw [OnBehalf, hsame]
  exact h

theorem Engine.OnBehalf.replace {k : Nat} {x x' : Instance} (h : OnBehalf P s requests)
    (hP : ∀ {i i' : Instance}, P i → i.Remains i' → P i')
    (hx : s.state.instances[k]? = some x) (hr : x.Remains x')
    (hset : s'.state.instances = s.state.instances.set k x') : OnBehalf P s' requests := by
  intro q hq
  obtain ⟨hst, i, hi, hid, hp⟩ := h q hq
  refine ⟨hst, ?_⟩
  obtain ⟨j, hj⟩ := List.mem_iff_getElem?.1 hi
  rw [hset]
  by_cases hkj : k = j
  · subst hkj
    rw [hx] at hj
    obtain rfl := Option.some.inj hj
    exact ⟨x', List.mem_set (List.getElem?_eq_some_iff.1 hx).1 x', hr.id.trans hid, hP hp hr⟩
  · exact ⟨i, List.mem_of_getElem? (i := j) (by rw [List.getElem?_set_ne hkj]; exact hj), hid, hp⟩

theorem onBehalf_moves (hk : e.InstancesKeep Q)
    (hP : ∀ {i i' : Instance}, P i → i.Remains i' → P i')
    (hmoves : ∀ {i : Instance} {program : Program} {w : World} {head : HeadId}
      {r : Instance × World × Effects}, Q i → i.advance? program w head event = some r → P i) :
    e.MovesKeep event fun s requests => (∀ i ∈ s.state.instances, Q i) ∧ OnBehalf P s requests where
  abort {_ _ _ x} hx h :=
    ⟨InstancesKeep.put h.1 (hk.abort _ (h.1 x (List.mem_of_getElem? hx))) _,
      h.2.replace hP hx (remains_abort ..) rfl⟩
  advance {s requests k x x' _ _ world effects} hx hflow hadv h := by
    have hq := h.1 x (List.mem_of_getElem? hx)
    obtain ⟨hr, hst⟩ := remains_advance? hadv
    refine ⟨InstancesKeep.put h.1 (hk.advance hq hflow hadv).1 k, fun q hmem => ?_⟩
    rcases List.mem_append.1 hmem with hmem | hmem
    · have hold : OnBehalf P (s.update fun t => { t.setWorld world with
          instances := (t.setWorld world).instances.set k x' }) requests :=
        h.2.replace hP hx hr rfl
      exact hold q hmem
    · obtain rfl := List.mem_singleton.1 hmem
      exact ⟨hst, x', List.mem_set (List.getElem?_eq_some_iff.1 hx).1 x', hr.id,
        hP (hmoves hq hadv) hr⟩

/-- **In the first half of a round everything is asked for on behalf of an instance that is
there**, and of which holds what holds of all that move and of all that are new. -/
theorem onBehalf_gather (hk : e.InstancesKeep Q)
    (hP : ∀ {i i' : Instance}, P i → i.Remains i' → P i')
    (hmoves : ∀ {i : Instance} {program : Program} {w : World} {head : HeadId}
      {r : Instance × World × Effects}, Q i → i.advance? program w head event = some r → P i)
    (hnew : ∀ {i : Instance}, i.terminatedAt = none → P i)
    (hs : ∀ i ∈ s.state.instances, Q i) :
    OnBehalf P (e.gather event s).1 (e.gather event s).2 := by
  have hstarts : e.StartsKeep (OnBehalf P) := by
    refine ⟨fun _ _ h => h.congr rfl, fun _ h => h.congr rfl, fun h => h.congr rfl, ?_⟩
    intro s requests flow parent bindings _ id specificity _ h q hq
    obtain ⟨x, hinst, hid, -, hterm, hst⟩ :=
      instances_spawn e s flow id parent bindings specificity
    rw [hinst]
    rcases List.mem_append.1 hq with hq | hq
    · obtain ⟨hstq, i, hi, hrest⟩ := h q hq
      exact ⟨hstq, i, List.mem_append_left _ hi, hrest⟩
    · obtain rfl := List.mem_singleton.1 hq
      exact ⟨hst, x, List.mem_append_right _ (List.mem_singleton_self x), hid, hnew hterm⟩
  exact hstarts.gather ((onBehalf_moves hk hP hmoves).moveHeads ⟨hs, nofun⟩).2

end Behalf

end Yields

end EventFlow

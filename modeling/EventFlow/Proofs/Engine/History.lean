import EventFlow.Engine.Process

/-!
# What an engine is asked to do

An engine is told of events and asked to abort instances, one request after another.  This file
names the requests, what runs of them lead to, and what is lost from sight on the way: which
identities were handed out, and which events were thrown away unprocessed.

## What is here

* `Request`, `Engine.respond` and `Engine.after`, the state some requests lead to.
* `Engine.gather` is the first half of a round, in which instances move and are started, and
  `Engine.compete` goes on until emissions have competed.  `Engine.opening?` is the step whose queue
  a request sets going, if it does.
* `Engine.issued` are the identities that were handed out to instances, events and calls, and
  `Engine.discarded` the events that were discarded because a step had used up its budget.
* `Engine.Handles` lists what may become of an event (`handles`), and **`reported_of_discardedBy`**
  says that nothing is discarded in silence.
-/

set_option autoImplicit false

namespace EventFlow

variable {Compiled Found : Type} [Query.Library Compiled Found]

/-- A request to an engine. -/
inductive Request
  /-- Process a payload with a name, as an event with a new identity. -/
  | named (name : String) (payload : Dict String Json)
  /-- Process an event. -/
  | event (event : Event)
  /-- Abort an instance. -/
  | abort (id : InstanceId) (reason : String)

/-- Two steps have the same tables of calls and the same queues. -/
structure Step.Agrees (s₀ s : Step) : Prop where
  calls : s.state.calls = s₀.state.calls
  queue : s.queue = s₀.queue
  seen : s.seen = s₀.seen

namespace Engine

variable (e : Engine)

/-- What an engine makes of a request. -/
def respond (s : State) : Request → Reply
  | .named name payload => e.process s name payload
  | .event event => e.handle s event
  | .abort id reason => e.abort s id reason

/-- The state some requests lead to. -/
def after (s : State) (requests : List Request) : State :=
  requests.foldl (fun s r => (e.respond s r).state) s

/-- What each of some requests yields, in order. -/
def along {α : Type} (yields : State → Request → List α) : State → List Request → List α
  | _, [] => []
  | s, r :: rs => yields s r ++ along yields (e.respond s r).state rs

/-! ## Rounds -/

/-- The first half of a round: heads move and instances are started. -/
def gather (event : Event) (s : Step) : Step × Requests :=
  let (s, requests) := e.moveHeads event s
  let (s, requests) := e.activate event s requests
  e.startChildren s requests (childrenOf requests)

/-- A round before instances are wound up: what was asked for has competed. -/
def compete (event : Event) (s : Step) : Step :=
  e.apply (e.gather event s).1 (e.gather event s).2

theorem round_eq (s : Step) (event : Event) :
    e.round s event = windUpEnded (e.compete event s) := rfl

/-- All that is asked for in a round. -/
def emissionsOf (requests : Requests) : List Emission := requests.flatMap fun r => r.2.emissions

/-- The identities that are handed out in a round: those of the instances that are started, and
those of the events and calls that are asked for. -/
def issuedInRound (event : Event) (s : Step) : List String :=
  let (s', requests) := e.gather event s
  (s'.state.instances.drop s.state.instances.length).map (·.id.text) ++
    (emissionsOf requests).map Emission.id

/-! ## Queues -/

/-- The identities that are handed out while a queue is worked off. -/
def issuedInQueue : Nat → Step → List String
  | 0, _ => []
  | budget + 1, s =>
    match nextFresh s s.queue with
    | (_, none) => []
    | (s, some event) =>
      e.issuedInRound event s ++ issuedInQueue budget (e.round s event).drain

/-- The events that are left in a queue when the budget is used up. -/
def discardedFrom : Nat → Step → List Event
  | 0, s => s.queue
  | budget + 1, s =>
    match nextFresh s s.queue with
    | (_, none) => []
    | (s, some event) => discardedFrom budget (e.round s event).drain

/-- Whatever is discarded is reported, with how much it is. -/
theorem exhausted_of_discardedFrom {e : Engine} {budget : Nat} {s : Step}
    (hd : e.discardedFrom budget s ≠ []) :
    ∃ step, .observed (.budgetExhausted step (e.discardedFrom budget s).length) ∈
      (e.runQueue budget s).signals := by
  induction budget generalizing s with
  | zero =>
    refine ⟨s.state.step, ?_⟩
    rw [discardedFrom] at hd ⊢
    rw [runQueue, if_neg (by simpa using hd)]
    exact List.mem_append_right _ (List.mem_singleton_self _)
  | succ budget ih =>
    rw [discardedFrom] at hd ⊢
    rw [runQueue]
    generalize nextFresh s s.queue = r at hd ⊢
    obtain ⟨s', _ | event⟩ := r
    · exact absurd rfl hd
    · exact ih hd

/-! ## Requests -/

/-- The step whose queue an event sets going; none when the event is refused or comes too late. -/
def openingOf? (s : State) (event : Event) : Option Step :=
  match event.check with
  | .error _ => none
  | .ok () =>
    let step := e.beginStep s
    if event.name = Event.actionResultName then
      (event.invocation?.bind fun _ => step.state.calls.accept? event).map fun calls =>
        (step.update fun s => { s with calls }).enqueue event
    else if event.name = Event.timerFiredName then
      (event.timer?.filter fun timer => Dict.has step.state.timers timer).map fun timer =>
        (step.update fun s => { s with timers := Dict.remove s.timers timer }).enqueue event
    else some (step.enqueue event)

/-- The step whose queue a request sets going. -/
def opening? (s : State) : Request → Option Step
  | .named name payload =>
    let (id, ids) := s.ids.nextEvent
    e.openingOf? { s with ids } ⟨id, name, payload, .external⟩
  | .event event => e.openingOf? s event
  | .abort id reason =>
    (s.instance? id).bind fun i =>
      if i.status.isTerminal then none
      else some (windUpEnded ((e.beginStep s).updateInstance id (·.abort reason)))

/-- The identities a request hands out. -/
def issuedBy (s : State) (r : Request) : List String :=
  (e.opening? s r).elim [] (e.issuedInQueue e.config.maxEventsPerStep)

/-- The events a request discards. -/
def discardedBy (s : State) (r : Request) : List Event :=
  (e.opening? s r).elim [] (e.discardedFrom e.config.maxEventsPerStep)

/-! ## Replies -/

/-- What may become of an event, and the step whose queue it sets going. -/
inductive Handles (s : State) (event : Event) : Option Step → Reply → Prop
  | refused (err : Error) : Handles s event none (.refuse s err)
  | idle (step : Step) (agrees : (e.beginStep s).Agrees step)
      (same : step.state.instances = (e.beginStep s).state.instances) :
      Handles s event none (.ofStep step)
  | accepted (n : InvocationId) (calls : Calls) (names : event.invocation? = some n)
      (accept : (e.beginStep s).state.calls.accept? event = some calls) :
      Handles s event (some (((e.beginStep s).update fun s => { s with calls }).enqueue event))
        (.ofStep ((e.runEvent ((e.beginStep s).update fun s => { s with calls }) event).update
          fun s => { s with calls := Dict.remove s.calls n }))
  | processed (step : Step) (agrees : (e.beginStep s).Agrees step)
      (same : step.state.instances = (e.beginStep s).state.instances) :
      Handles s event (some (step.enqueue event)) (.ofStep (e.runEvent step event))

theorem handles (s : State) (event : Event) :
    e.Handles s event (e.openingOf? s event) (e.handle s event) := by
  rw [openingOf?, handle]
  cases event.check with
  | error err => exact .refused err
  | ok _ =>
    simp only
    by_cases hres : event.name = Event.actionResultName
    · rw [if_pos hres, if_pos hres, handleResult]
      cases hn : event.invocation? with
      | none => exact .idle _ ⟨rfl, rfl, rfl⟩ rfl
      | some n =>
        rw [Option.bind_some]
        cases ha : (e.beginStep s).state.calls.accept? event with
        | none => exact .idle _ ⟨rfl, rfl, rfl⟩ rfl
        | some calls => exact .accepted n calls hn ha
    · rw [if_neg hres, if_neg hres]
      by_cases hfired : event.name = Event.timerFiredName
      · rw [if_pos hfired, if_pos hfired, handleTimer]
        cases event.timer? with
        | none => exact .idle _ ⟨rfl, rfl, rfl⟩ rfl
        | some timer =>
          rw [Option.filter_some]
          cases hruns : Dict.has (e.beginStep s).state.timers timer with
          | false =>
            simp only [hruns, Bool.false_eq_true, if_false]
            exact .idle _ ⟨rfl, rfl, rfl⟩ rfl
          | true =>
            simp only [hruns, if_true]
            exact .processed _ ⟨rfl, rfl, rfl⟩ rfl
      · rw [if_neg hfired, if_neg hfired]
        exact .processed _ ⟨rfl, rfl, rfl⟩ rfl

theorem reported_of_handles {e : Engine} {s : State} {event : Event} {o : Option Step}
    {reply : Reply} (hh : e.Handles s event o reply)
    (hd : o.elim [] (e.discardedFrom e.config.maxEventsPerStep) ≠ []) :
    ∃ step, .observed (.budgetExhausted step
      (o.elim [] (e.discardedFrom e.config.maxEventsPerStep)).length) ∈ reply.signals := by
  cases hh with
  | refused => exact absurd rfl hd
  | idle => exact absurd rfl hd
  | accepted =>
    obtain ⟨step, hmem⟩ := exhausted_of_discardedFrom hd
    exact ⟨step, List.mem_append_left _ hmem⟩
  | processed =>
    obtain ⟨step, hmem⟩ := exhausted_of_discardedFrom hd
    exact ⟨step, List.mem_append_left _ hmem⟩

/-- Whatever a request discards is reported in the reply, with how much it is. -/
theorem reported_of_discardedBy {e : Engine} {s : State} {r : Request}
    (hd : e.discardedBy s r ≠ []) :
    ∃ step, .observed (.budgetExhausted step (e.discardedBy s r).length) ∈
      (e.respond s r).signals := by
  cases r with
  | named name payload => exact reported_of_handles (e.handles _ _) hd
  | event event => exact reported_of_handles (e.handles s event) hd
  | abort id reason =>
    rw [respond, Engine.abort]
    rw [discardedBy, opening?] at hd ⊢
    cases hi : s.instance? id with
    | none => exact absurd (by rw [hi]; rfl) hd
    | some i =>
      simp only [hi, Option.bind_some] at hd ⊢
      by_cases hend : i.status.isTerminal = true
      · exact absurd (by rw [if_pos hend]; rfl) hd
      · rw [if_neg hend] at hd ⊢
        rw [if_neg hend]
        obtain ⟨step, hmem⟩ := exhausted_of_discardedFrom hd
        exact ⟨step, List.mem_append_left _ hmem⟩

/-- The identities some requests hand out. -/
def issued (s : State) (requests : List Request) : List String := e.along e.issuedBy s requests

/-- The events some requests discard because a budget is used up. -/
def discarded (s : State) (requests : List Request) : List Event :=
  e.along e.discardedBy s requests

end Engine

end EventFlow

import EventFlow.Proofs.Engine.Created
import EventFlow.Proofs.Engine.Rounds
import EventFlow.Proofs.Engine.Searches
import EventFlow.Proofs.Instance.Turn
import EventFlow.Query.Eval
import Mathlib

/-!
# Every request comes to an end

Four loops could go on for ever: a machine that runs heads, an instance that settles, the children
that children ask for, and a queue that rounds fill up again.  The functions of the engine are total
and hide this, so here each loop is a step that may be repeated, with nothing that bounds how often.

What the engine calls could go on for ever as well: a library may search for a query without end.
This is not for the engine to prevent, so it is supposed here that the queries of its flows can be
searched for (`Program.Returns`).

## What is here

* `Ends step a n b` says that repeating a step from `a` comes to an end at `b`, after `n` times.
* `Instance.settleStep?`, `Engine.startNext?` and `Engine.workOff?` are the steps of the last three
  loops; the first one is `Machine.step?`.
* `Machine.Answered` says that the searches return that the next step of a machine makes.
* `ends_run`, `ends_settle`, `ends_startChildren` and `ends_runQueue`: each loop comes to an end
  from wherever it begins, at the value of its function.

**`every_request_ends`** puts them together.  The measures have little in common.  A machine gets
lighter; settling leaves fewer heads at joins; a child that is started uses up some of the room a
step has, and one that is not shortens the list; an event that is processed uses up some of the
budget, and a duplicate shortens the queue.
-/

set_option autoImplicit false

namespace EventFlow

section

variable {Compiled Found : Type} [Query.Library Compiled Found]

/-- Repeating a step from `a` comes to an end at `b`, after `n` times. -/
inductive Ends {α : Type} (step : α → Option α) : α → Nat → α → Prop
  | stop {a : α} (none : step a = none) : Ends step a 0 a
  | next {a b c : α} {n : Nat} (some : step a = some b) (rest : Ends step b n c) :
      Ends step a (n + 1) c

namespace Ends

variable {α : Type} {step : α → Option α} {a b : α} {n : Nat}

/-- A step that lowers a pair of numbers, the first one counting first, cannot be repeated for
ever. -/
theorem exists_of_lex {rank : α → Nat × Nat}
    (hstep : ∀ a b, step a = some b → Prod.Lex (· < ·) (· < ·) (rank b) (rank a)) (a : α) :
    ∃ n b, Ends step a n b := by
  induction a using (InvImage.wf rank (Prod.lex Nat.lt_wfRel Nat.lt_wfRel).wf).induction with
  | _ a ih =>
    cases ha : step a with
    | none => exact ⟨0, a, .stop ha⟩
    | some b =>
      obtain ⟨n, c, hc⟩ := ih b (hstep a b ha)
      exact ⟨n + 1, c, .next ha hc⟩

/-- It is not repeated more often than something can get smaller. -/
theorem le_measure {measure : α → Nat} (hstep : ∀ a b, step a = some b → measure b < measure a)
    (h : Ends step a n b) : n ≤ measure a := by
  induction h with
  | stop => exact Nat.zero_le _
  | next ha _ ih =>
    have := hstep _ _ ha
    omega

/-- What every step preserves holds at the end. -/
theorem preserves {p : α → Prop} (hstep : ∀ a b, step a = some b → p a → p b)
    (h : Ends step a n b) (ha : p a) : p b := by
  induction h with
  | stop => exact ha
  | next hs _ ih => exact ih (hstep _ _ hs ha)

/-- At the end there is no step left. -/
theorem step_eq_none (h : Ends step a n b) : step b = none := by
  induction h with
  | stop ha => exact ha
  | next _ _ ih => exact ih

end Ends

/-! ## Heads -/

section Heads

variable {program : Program}

/-- The searches return that the next step of a machine makes. -/
def Machine.Answered (program : Program) (m : Machine) : Prop :=
  ∀ (h : Head) (k : Nat), m.Runs h k →
    ∀ expression ∈ (program.fetch h.position).expressions, ∀ query : Compiled,
      Query.Library.compile expression = .ok query →
        (Query.Library.search query (m.inst.scope m.world.globals h).toJson).isSome

/-- No step of a machine waits for a search without end, if the searches of its program return. -/
theorem Program.Returns.answered (hp : program.Returns) (m : Machine) : m.Answered program :=
  fun h _ _ expression he query hq => hp h.position expression he query hq _

/-- **A machine stops**, from any heads, if every fork has branches. -/
theorem Machine.ends_run (hforks : ∀ p, program.fetch p ≠ .fork []) (m : Machine) :
    ∃ n ≤ m.measure program, Ends (Machine.step? program) m n (m.run program) := by
  have hstalls (m : Machine) : ¬m.stalls program = true := not_stalls fun h _ => hforks h.position
  have hends : ∃ n, Ends (Machine.step? program) m n (m.run program) := by
    fun_induction run program m with
    | case1 m hstall => exact absurd hstall (hstalls m)
    | case2 m _ hs => exact ⟨0, .stop hs⟩
    | case3 m _ m' hs ih =>
      obtain ⟨n, hn⟩ := ih
      exact ⟨n + 1, .next hs hn⟩
  obtain ⟨n, hn⟩ := hends
  exact ⟨n, hn.le_measure fun m _ hs => measure_lt_of_step? (hstalls m) hs, hn⟩

end Heads

namespace Instance

/-- Abort who waits in vain, unless nobody does so any more. -/
def settleStep? (i : Instance) : Option Instance :=
  if i.heads.any fun h => (vain? i.brokenForks h).isSome then some i.settleOnce else none

theorem joiningCount_lt_of_settleStep? {i j : Instance} (h : i.settleStep? = some j) :
    j.joiningCount < i.joiningCount := by
  rw [settleStep?] at h
  split at h
  · next hvain =>
    cases h
    exact countP_giveUp_lt _ _ hvain
  · cases h

/-- **Settling stops**, when the bases of broken forks have been forgotten one last time. -/
theorem ends_settle (i : Instance) :
    ∃ n ≤ i.joiningCount, ∃ j, Ends settleStep? i n j ∧ i.settle = j.settleOnce := by
  have hends : ∃ n j, Ends settleStep? i n j ∧ i.settle = j.settleOnce := by
    fun_induction settle i with
    | case1 i hvain ih =>
      obtain ⟨n, j, hn, hj⟩ := ih
      exact ⟨n + 1, j, .next (if_pos hvain) hn, hj⟩
    | case2 i hvain => exact ⟨0, i, .stop (if_neg hvain), rfl⟩
  obtain ⟨n, j, hn, hj⟩ := hends
  exact ⟨n, hn.le_measure fun _ _ => joiningCount_lt_of_settleStep?, j, hn, hj⟩

end Instance

namespace Engine

variable (e : Engine)

/-! ## Children -/

/-- The children that are still to be looked at, with the step and what was asked for so far. -/
structure Starting where
  step : Step
  requests : Requests
  children : List Child

/-- Look at the first child: pass over it, refuse it or start it.  Those that it asks for come
behind the others. -/
def startNext? (w : Starting) : Option Starting :=
  match w.children with
  | [] => none
  | c :: rest => some <|
    match e.catalog.find? c.request.flow with
    | none => { w with children := rest }
    | some flow =>
      match e.reserve? w.step (childKey c.request.flow) with
      | none =>
        { w with step := e.refuse w.step flow.id (childKey c.request.flow), children := rest }
      | some s =>
        let id := c.request.instanceId
        let started := e.spawn s flow id (some c.parent) c.request.bindings 0
        ⟨started.1, w.requests ++ [(id, started.2)], rest ++ childrenOf [(id, started.2)]⟩

variable {e}

/-- A child that is started uses up some room, and one that is not shortens the list. -/
theorem lt_of_startNext? {w w' : Starting} (h : e.startNext? w = some w') :
    Prod.Lex (· < ·) (· < ·) (e.room w'.step, w'.children.length)
      (e.room w.step, w.children.length) := by
  obtain ⟨s, requests, _ | ⟨c, rest⟩⟩ := w
  · cases h
  · rw [startNext?] at h
    simp only [Option.some.injEq] at h
    subst h
    split
    · exact .right _ (Nat.lt_succ_self _)
    · next flow hf =>
      have hid : flow.id = c.request.flow := by simpa using List.find?_some hf
      split
      · rw [room_congr (s := s) rfl]
        exact .right _ (Nat.lt_succ_self _)
      · next s' hr =>
        rw [← hid] at hr
        refine .left _ _ ?_
        rw [room_congr (counts_spawn ..)]
        exact room_reserve_lt (List.mem_of_find?_eq_some hf) hr

/-- The children that are started are those that starting them one by one leads to. -/
theorem startChildren_of_startNext? {w w' : Starting} (h : e.startNext? w = some w') :
    e.startChildren w'.step w'.requests w'.children =
      e.startChildren w.step w.requests w.children := by
  obtain ⟨s, requests, _ | ⟨c, rest⟩⟩ := w
  · cases h
  · rw [startNext?] at h
    simp only [Option.some.injEq] at h
    subst h
    have hnext {s' : Step} (heq : e.nextGrant s' rest = e.nextGrant s (c :: rest)) :
        e.startChildren s' requests rest = e.startChildren s requests (c :: rest) := by
      rw [startChildren, startChildren, heq]
    split
    · next hf => exact hnext (by rw [nextGrant, hf])
    · next flow hf =>
      split
      · next hr => exact hnext (by simp only [nextGrant, hf, hr])
      · next s' hr =>
        have hg : e.nextGrant s (c :: rest) = (s', some ⟨flow, c, rest⟩) := by
          simp only [nextGrant, hf, hr]
        refine Eq.symm ?_
        rw [startChildren]
        rw [hg]

variable (e)

/-- **Starting children stops**, even if flows start themselves. -/
theorem ends_startChildren (s : Step) (requests : Requests) (children : List Child) :
    ∃ n, Ends e.startNext? ⟨s, requests, children⟩ n
      ⟨(e.startChildren s requests children).1, (e.startChildren s requests children).2, []⟩ := by
  obtain ⟨n, last, hn⟩ :=
    Ends.exists_of_lex (fun _ _ => lt_of_startNext? (e := e)) ⟨s, requests, children⟩
  refine ⟨n, ?_⟩
  have heq : e.startChildren last.step last.requests last.children =
      e.startChildren s requests children :=
    hn.preserves (p := fun w => e.startChildren w.step w.requests w.children = _)
      (fun _ _ hw => (startChildren_of_startNext? hw).trans) rfl
  have hlast := hn.step_eq_none
  obtain ⟨s', requests', _ | ⟨c, rest⟩⟩ := last
  · have hnone : e.startChildren s' requests' [] = (s', requests') := by rw [startChildren]; rfl
    rw [hnone] at heq
    rwa [← heq]
  · cases hlast

/-! ## Queues -/

/-- A queue that is being worked off, and how many of its events were processed. -/
structure Working where
  processed : Nat
  step : Step

/-- Take an event from the queue: throw it away with all others if the step has processed as many as
it may, drop it if it is a duplicate, and process it otherwise. -/
def workOff? (w : Working) : Option Working :=
  match w.step.queue with
  | [] => none
  | event :: rest => some <|
    if e.config.maxEventsPerStep ≤ w.processed then
      let s := w.step.observe (.budgetExhausted w.step.state.step (rest.length + 1))
      { w with step := { s with queue := [] } }
    else if w.step.seen.contains event.id then
      { w with
        step := { w.step.observe (.duplicateDropped event.id event.name) with queue := rest } }
    else
      ⟨w.processed + 1,
        (e.round { w.step with queue := rest, seen := event.id :: w.step.seen } event).drain⟩

variable {e}

/-- An event that is processed uses up some of the budget, and one that is not shortens the
queue. -/
theorem lt_of_workOff? {w w' : Working} (h : e.workOff? w = some w') :
    Prod.Lex (· < ·) (· < ·) (e.config.maxEventsPerStep - w'.processed, w'.step.queue.length)
      (e.config.maxEventsPerStep - w.processed, w.step.queue.length) := by
  rw [workOff?] at h
  split at h
  · cases h
  · next event rest hq =>
    rw [hq]
    simp only [Option.some.injEq] at h
    subst h
    split
    · exact .right _ (Nat.succ_pos _)
    · next hlt =>
      split
      · exact .right _ (Nat.lt_succ_self _)
      · refine .left _ _ ?_
        simp only
        omega

theorem runQueue_of_nil {s : Step} (hq : s.queue = []) (budget : Nat) :
    e.runQueue budget s = s := by
  cases budget with
  | zero => rw [runQueue, if_pos (by rw [hq]; rfl)]
  | succ budget =>
    rw [runQueue, hq, nextFresh]
    obtain ⟨state, signals, queue, seen, counts, outputs⟩ := s
    subst hq
    rfl

theorem nextFresh_queue (s : Step) (queue events : List Event) :
    nextFresh { s with queue } events = nextFresh s events := by
  induction events generalizing s with
  | nil => rfl
  | cons event rest ih =>
    rw [nextFresh, nextFresh]
    split
    · exact ih (s.observe (.duplicateDropped event.id event.name))
    · rfl

/-- A queue is worked off by taking its events one by one. -/
theorem runQueue_of_workOff? {w w' : Working} (h : e.workOff? w = some w')
    (hle : w.processed ≤ e.config.maxEventsPerStep) :
    w'.processed ≤ e.config.maxEventsPerStep ∧
      e.runQueue (e.config.maxEventsPerStep - w'.processed) w'.step =
        e.runQueue (e.config.maxEventsPerStep - w.processed) w.step := by
  obtain ⟨processed, s⟩ := w
  rw [workOff?] at h
  split at h
  · cases h
  · next event rest hq =>
    simp only [Option.some.injEq] at h hq hle
    subst h
    split
    · next hmax =>
      refine ⟨hle, ?_⟩
      simp only at hmax ⊢
      rw [Nat.sub_eq_zero_of_le hmax, runQueue, runQueue, hq]
      rfl
    · next hmax =>
      obtain ⟨budget, hb⟩ : ∃ budget, e.config.maxEventsPerStep - processed = budget + 1 :=
        Nat.exists_eq_add_of_le' (by omega)
      split
      · next hseen =>
        refine ⟨hle, ?_⟩
        simp only at hseen ⊢
        rw [hb, runQueue, runQueue, hq, nextFresh_queue]
        conv => rhs; rw [nextFresh, if_pos hseen]
      · next hseen =>
        refine ⟨by simp only; omega, ?_⟩
        simp only at hseen ⊢
        rw [hb, show e.config.maxEventsPerStep - (processed + 1) = budget by omega]
        conv => rhs; rw [runQueue, hq, nextFresh, if_neg hseen]

variable (e)

/-- **Working off a queue stops**, even if flows trigger themselves; no more events are processed
than a step may. -/
theorem ends_runQueue (s : Step) :
    ∃ n last, Ends e.workOff? ⟨0, s⟩ n last ∧
      last.step = e.runQueue e.config.maxEventsPerStep s ∧ last.step.queue = [] ∧
      last.processed ≤ e.config.maxEventsPerStep := by
  obtain ⟨n, last, hn⟩ := Ends.exists_of_lex (fun _ _ => lt_of_workOff? (e := e)) ⟨0, s⟩
  obtain ⟨hle, heq⟩ : last.processed ≤ e.config.maxEventsPerStep ∧
      e.runQueue (e.config.maxEventsPerStep - last.processed) last.step =
        e.runQueue e.config.maxEventsPerStep s :=
    hn.preserves (p := fun w => w.processed ≤ e.config.maxEventsPerStep ∧
      e.runQueue (e.config.maxEventsPerStep - w.processed) w.step = _)
      (fun _ _ hw hp => (runQueue_of_workOff? hw hp.1).imp id (·.trans hp.2))
      ⟨Nat.zero_le _, by rw [Nat.sub_zero]⟩
  have hqueue : last.step.queue = [] := by
    have hnone := hn.step_eq_none
    rw [workOff?] at hnone
    split at hnone
    · assumption
    · cases hnone
  exact ⟨n, last, hn, (runQueue_of_nil hqueue _).symm.trans heq, hqueue, hle⟩

/-! ## Requests -/

/-- How a request comes to its end: it is refused, there is nothing to do for it, or a queue is
worked off, after which it has its answer. -/
inductive Concludes (s : State) (r : Request) : Prop
  | refused (err : Error) (opening : e.opening? s r = none)
      (outcome : (e.respond s r).outcome = .error err)
  | idle (opening : e.opening? s r = none) (outcome : (e.respond s r).outcome = .ok [])
  | worked (start : Step) (n : Nat) (last : Working) (opening : e.opening? s r = some start)
      (ends : Ends e.workOff? ⟨0, start⟩ n last) (empty : last.step.queue = [])
      (within : last.processed ≤ e.config.maxEventsPerStep)
      (outcome : (e.respond s r).outcome = .ok last.step.outputs)

variable {e}

/-- A request that sets no queue going is refused or has no answer. -/
theorem outcome_of_opening?_none {s : State} {r : Request} (h : e.opening? s r = none) :
    (∃ err, (e.respond s r).outcome = .error err) ∨ (e.respond s r).outcome = .ok [] := by
  have hevent {s : State} {event : Event} (h : e.openingOf? s event = none) :
      (∃ err, (e.handle s event).outcome = .error err) ∨ (e.handle s event).outcome = .ok [] := by
    have ht := e.takes s event
    rw [h] at ht
    generalize e.handle s event = reply at ht ⊢
    cases ht with
    | refused err => exact .inl ⟨err, rfl⟩
    | idle => exact .inr (congrArg Except.ok (e.retracts_beginStep s).outputs)
    | late => exact .inr (congrArg Except.ok (e.retracts_beginStep s).outputs)
  cases r with
  | named name payload => exact hevent h
  | event event => exact hevent h
  | abort id reason =>
    have hg := e.givesUp s id reason
    rw [h] at hg
    rw [respond]
    generalize e.abort s id reason = reply at hg ⊢
    cases hg with
    | refused => exact .inl ⟨_, rfl⟩

/-- A request that sets a queue going is answered by the events for the outside that working off the
queue leads to. -/
theorem outcome_of_opening?_some {s : State} {r : Request} {start : Step}
    (h : e.opening? s r = some start) :
    (e.respond s r).outcome = .ok (e.runQueue e.config.maxEventsPerStep start).outputs := by
  have hevent {s : State} {event : Event} (h : e.openingOf? s event = some start) :
      (e.handle s event).outcome = .ok (e.runQueue e.config.maxEventsPerStep start).outputs := by
    have ht := e.takes s event
    rw [h] at ht
    generalize e.handle s event = reply at ht ⊢
    cases ht <;> rfl
  cases r with
  | named name payload => exact hevent h
  | event event => exact hevent h
  | abort id reason =>
    have hg := e.givesUp s id reason
    rw [h] at hg
    rw [respond]
    generalize e.abort s id reason = reply at hg ⊢
    cases hg with
    | aborted => rfl

variable (e)

/-- Every request comes to its end in one of these ways. -/
theorem concludes (s : State) (r : Request) : e.Concludes s r := by
  cases ho : e.opening? s r with
  | none =>
    obtain ⟨err, herr⟩ | hok := outcome_of_opening?_none ho
    · exact .refused err ho herr
    · exact .idle ho hok
  | some start =>
    obtain ⟨n, last, hn, hlast, hempty, hle⟩ := e.ends_runQueue start
    exact .worked start n last ho hn hempty hle (by rw [outcome_of_opening?_some ho, hlast])

variable {e}

/-- **Every request comes to its end**, in any state, for any flows and under any configuration, if
the queries of the flows can be searched for: so do each of the loops on the way, from wherever they
begin, and they come to what the functions of the engine give.  Heads run till they wait, and no
instance makes more turns than its machine weighs; no turn waits for a search without end; settling
ends; the children of children are all started or refused, even if flows start themselves; and a
queue is worked off, even if flows trigger themselves.  The reply to a request is the same whatever
one supposes of searches that do not return, since it makes none of them. -/
theorem every_request_ends {flows : List Flow} {config : Config}
    (he : create flows config = .ok e)
    (returns : ∀ l ∈ e.catalog.flows, l.program.Returns) :
    (∀ l ∈ e.catalog.flows, ∀ m : Machine, m.Answered l.program ∧
      ∃ n ≤ m.measure l.program, Ends (Machine.step? l.program) m n (m.run l.program)) ∧
    (∀ i : Instance,
      ∃ n ≤ i.joiningCount, ∃ j, Ends Instance.settleStep? i n j ∧ i.settle = j.settleOnce) ∧
    (∀ (s : Step) (requests : Requests) (children : List Child),
      ∃ n, Ends e.startNext? ⟨s, requests, children⟩ n
        ⟨(e.startChildren s requests children).1, (e.startChildren s requests children).2, []⟩) ∧
    (∀ s : Step, ∃ n last, Ends e.workOff? ⟨0, s⟩ n last ∧
      last.step = e.runQueue e.config.maxEventsPerStep s ∧ last.step.queue = [] ∧
      last.processed ≤ e.config.maxEventsPerStep) ∧
    ∀ (s : State) (r : Request), e.Concludes s r ∧
      ∀ guess : Compiled → Json → Except String Found,
        @respond _ _ (Query.supposing guess) e s r = e.respond s r := by
  refine ⟨fun l hl m => ⟨(returns l hl).answered m, ?_⟩, Instance.ends_settle,
    e.ends_startChildren, e.ends_runQueue,
    fun s r => ⟨e.concludes s r, fun guess => respond_supposing guess returns s r⟩⟩
  exact Machine.ends_run (fun p => (valid_of_load (load_of_create he hl) p).branches) m

end Engine

end

namespace Engine

/-- A flow that triggers and starts itself, as long as nothing that it evaluates is true. -/
def tireless : Flow where
  id := ⟨"tireless"⟩
  description := none
  priority := none
  activation := some ⟨"go", []⟩
  body := [.branch "enough" [.abort "enough"] [], .send ⟨"go", [], .internal, .exempt⟩,
    .startFlow ⟨"tireless"⟩ none]

/-- An engine with nothing else. -/
def restless : Engine := ⟨⟨[⟨tireless, .ofBody tireless.body⟩]⟩, .default⟩

theorem returns_tireless : (Program.ofBody tireless.body).Returns := by
  have hname : ∀ x ∈ (Program.ofBody tireless.body).instructions.flatMap Instruction.expressions,
      x = "enough" := by decide
  intro p x hx query hq value
  obtain rfl : x = "enough" := by
    cases hi : (Program.ofBody tireless.body).instructions[p]? with
    | none =>
      rw [Program.fetch, hi] at hx
      cases hx
    | some instr =>
      rw [Program.fetch, hi] at hx
      exact hname x (List.mem_flatMap.2 ⟨instr, List.mem_of_getElem? hi, hx⟩)
  have hcompile : Query.Library.compile "enough" = .ok (Query.Expr.field 0 "enough") := by cbv
  obtain rfl := Except.ok.inj (hq.symm.trans hcompile)
  rfl

/-- It starts itself as often as a step allows, and then its request is over. -/
theorem every_request_ends_tireless :
    create [tireless] .default = .ok restless ∧
      (∀ l ∈ restless.catalog.flows, l.program.Returns) ∧
      restless.Concludes (.initial (.seeded 0)) (.event ⟨⟨"1"⟩, "go", [], .external⟩) ∧
      ∀ m : Machine, ∃ n, Ends (Machine.step? (.ofBody tireless.body)) m n
        (m.run (.ofBody tireless.body)) := by
  have he : create [tireless] .default = .ok restless := by cbv
  have hreturns : ∀ l ∈ restless.catalog.flows, l.program.Returns :=
    List.forall_mem_singleton.2 returns_tireless
  obtain ⟨hmachines, -, -, -, hrequests⟩ := every_request_ends he hreturns
  refine ⟨he, hreturns, (hrequests _ _).1, fun m => ?_⟩
  obtain ⟨-, n, -, hn⟩ := hmachines _ (List.mem_singleton_self _) m
  exact ⟨n, hn⟩

end Engine

end EventFlow

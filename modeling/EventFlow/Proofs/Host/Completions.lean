import EventFlow.Host
import EventFlow.Proofs.Engine.Refusal
import EventFlow.Proofs.Engine.Settled
import EventFlow.Proofs.Host.Accounts
import EventFlow.Proofs.Host.Lawful
import EventFlow.Query.Eval

/-!
# What a host takes back

Whatever a host is asked to do, its executor is driven by moves.  So what the host takes from the
channel are completions, which its engine accepts; and a host that processes completions until none
arrives has put out all that its engine makes of those that it took.

## What is here

* `Host.Reached` are the hosts that are made and asked for something, one request after the other.
* `Engine.Consumes` is what an engine makes of some events.
* `Host.Delivers` says what becomes of the completions of a host.
* **`completions_are_delivered`**: each call that is not cancelled completes once, with an outcome
  that is its own, and what completes is processed.
-/

set_option autoImplicit false

namespace EventFlow

section

variable {Compiled Found : Type} [Query.Library Compiled Found]

/-- What an engine puts out when it handles some events, one after the other, and the state that it
is in afterwards. -/
inductive Engine.Consumes (engine : Engine) : State → List Event → List Event → State → Prop
  | nil (s : State) : Consumes engine s [] [] s
  | cons {s s' : State} {e : Event} {es outputs more : List Event}
      (hfirst : (engine.handle s e).outcome = .ok outputs)
      (hrest : Consumes engine (engine.handle s e).state es more s') :
      Consumes engine s (e :: es) (outputs ++ more) s'

namespace Host

variable {X : Type} [Executor X]

/-- The backend of a host. -/
def backend (h : Host X) : Backend := Executor.backend h.executor

/-- The hosts that are made and asked for something, one request after the other.  Between requests
tasks go on. -/
inductive Reached : Host X → Prop
  | create (engine : Engine) (state : State) {actions : Actions} {x : X}
      (hx : Executor.backend x = .idle actions) (persistent : Bool) :
      Reached (create engine state x persistent)
  | replace {h : Host X} (hh : Reached h) (engine : Engine) (state : State) {actions : Actions}
      {x : X} (hx : Executor.backend x = .idle actions) (persistent : Bool) :
      Reached (h.replace engine state x persistent)
  | wait {h : Host X} (hh : Reached h) {x : X} (hx : h.backend.Leads [] (Executor.backend x)) :
      Reached { h with executor := x }
  | process {h : Host X} (hh : Reached h) (name : String) (payload : Dict String Json) :
      Reached (h.process name payload).2
  | handle {h : Host X} (hh : Reached h) (e : Event) : Reached (h.handle e).2
  | abort {h : Host X} (hh : Reached h) (id : InstanceId) (reason : String) :
      Reached (h.abort id reason).2
  | nextCompletion {h : Host X} (hh : Reached h) (patience : Nat) :
      Reached (h.nextCompletion patience).2
  | runUntilIdle {h : Host X} (hh : Reached h) (patience limit : Nat) :
      Reached (h.runUntilIdle patience limit).2
  | setGlobal {h : Host X} (hh : Reached h) (path : String) (value : Json) :
      Reached (h.setGlobal path value)
  | snapshot {h : Host X} (hh : Reached h) : Reached h.snapshot.2
  | checkpoint {h h' : Host X} {key : String} (hh : Reached h)
      (hkept : h.checkpoint key = .ok h') : Reached h'
  | resume {h : Host X} (hh : Reached h) (key : String) : Reached (h.resume key).2
  | restore {h : Host X} (hh : Reached h) (state : State) : Reached (h.restore state).2

section Backend

variable [LawfulExecutor X] {h g : Host X}

/-! ## The backend of a host -/

theorem proceeds_reach (h : Host X) : h.backend.Proceeds h.reach.backend :=
  (LawfulExecutor.reach h.executor).proceeds nofun

theorem proceeds_obey (h : Host X) (signal : Signal) :
    h.backend.Proceeds (h.obey signal).backend := by
  cases signal with
  | observed o => exact .refl _
  | dispatched d =>
    exact (LawfulExecutor.dispatch h.executor d).proceeds (by simp [Backend.starting])
  | cancelled n => exact (LawfulExecutor.cancel h.executor n).proceeds (by simp)
  | scheduled t duration =>
    exact (LawfulExecutor.schedule h.executor t duration).proceeds (by simp [Backend.starting])
  | timerCancelled t => exact (LawfulExecutor.cancelTimer h.executor t).proceeds (by simp)

/-- A request takes nothing from the channel, and changes the state as the engine does. -/
theorem accept_spec (h : Host X) (request : State → Reply) :
    h.backend.Proceeds (h.accept request).2.backend ∧
      (h.accept request).2.engine = h.engine ∧
        (h.accept request).2.state = (request h.state).state := by
  have hobey : ∀ (signals : List Signal) (g : Host X),
      g.backend.Proceeds (signals.foldl obey g).backend ∧
        (signals.foldl obey g).engine = g.engine ∧ (signals.foldl obey g).state = g.state := by
    intro signals
    induction signals with
    | nil => exact fun g => ⟨.refl _, rfl, rfl⟩
    | cons signal signals ih =>
      intro g
      obtain ⟨hbackend, hengine, hstate⟩ := ih (g.obey signal)
      exact ⟨(proceeds_obey g signal).trans hbackend, hengine.trans (by cases signal <;> rfl),
        hstate.trans (by cases signal <;> rfl)⟩
  obtain ⟨hbackend, hengine, hstate⟩ := hobey (request h.state).signals
    { h.reach with state := (request h.state).state }
  exact ⟨(proceeds_reach h).trans hbackend, hengine, hstate⟩

/-- Nothing has arrived. -/
theorem nextOf_none {patience : Nat} (hnext : h.nextOf patience = (none, g)) :
    Executor.receive h.executor patience = (none, g.executor) ∧
      h.backend.Proceeds g.backend ∧ g.state = h.state := by
  rw [nextOf] at hnext
  split at hnext
  · next x hreceive =>
    cases hnext
    exact ⟨hreceive, (LawfulExecutor.receive_none hreceive).proceeds nofun, rfl⟩
  · cases hnext

/-- A completion is taken from the channel, and the engine accepts it. -/
theorem nextOf_some (hb : h.backend.IsRun) {patience : Nat} {reply : Except Error (List Event)}
    (hnext : h.nextOf patience = (some reply, g)) :
    g.backend.IsRun ∧ g.engine = h.engine ∧
      ∃ e outputs, g.backend.received = h.backend.received ++ [e] ∧ reply = .ok outputs ∧
        (h.engine.handle h.state e).outcome = .ok outputs ∧
          g.state = (h.engine.handle h.state e).state := by
  rw [nextOf] at hnext
  split at hnext
  · cases hnext
  · next e x hreceive =>
    cases hnext
    obtain ⟨b, hwait, hhead, htaken⟩ := LawfulExecutor.receive_some hreceive
    have hbrun : b.IsRun := hb.leads hwait
    have htake : (b.make .take).IsRun := hbrun.leads ⟨[.take], rfl, rfl⟩
    have hbx : (b.make .take).Proceeds (Executor.backend x) := htaken.proceeds nofun
    obtain ⟨hprocess, hengine, hstate⟩ :=
      accept_spec { h with executor := x } fun s => h.engine.handle s e
    have hall := hbx.trans hprocess
    have hcheck : e.check = .ok () := by
      obtain ⟨actions, moves, rfl⟩ := hbrun
      exact Backend.check_of_mem_sent actions moves e
        (List.mem_of_mem_drop (List.mem_of_mem_head? hhead))
    obtain ⟨outputs, houtputs⟩ := Engine.handle_of_ok hcheck
    refine ⟨htake.proceeds hall, hengine, e, outputs, (hall.received_eq htake).trans ?_, houtputs,
      houtputs, hstate⟩
    rw [Backend.received_take hhead, (hwait.proceeds nofun).received_eq hb]
    rfl

/-- What is put out is what the engine makes of the completions that were taken, and no more are
taken only if there were enough or none has arrived. -/
theorem processCompletions_spec (patience : Nat) : ∀ (limit : Nat) (outputs : List Event)
    {h : Host X}, h.backend.IsRun →
      let r := processCompletions patience limit outputs h
      r.2.backend.IsRun ∧ ∃ es more, r.2.backend.received = h.backend.received ++ es ∧
        h.engine.Consumes h.state es more r.2.state ∧ r.1 = .ok (outputs ++ more) ∧
          (es.length = limit ∨ ∃ x, Executor.receive x patience = (none, r.2.executor))
  | 0, outputs, h, hb =>
    ⟨hb, [], [], (List.append_nil _).symm, .nil _, congrArg Except.ok (List.append_nil _).symm,
      .inl rfl⟩
  | limit + 1, outputs, h, hb => by
    rw [processCompletions]
    rcases hnext : h.nextOf patience with ⟨_ | reply, g⟩
    · obtain ⟨hreceive, hbackend, hstate⟩ := nextOf_none hnext
      refine ⟨hb.proceeds hbackend, [], [], ?_, ?_, congrArg Except.ok (List.append_nil _).symm,
        .inr ⟨_, hreceive⟩⟩
      · rw [List.append_nil]
        exact hbackend.received_eq hb
      · exact hstate ▸ .nil _
    · obtain ⟨hg, hengine, e, more, hreceived, rfl, houtcome, hstate⟩ := nextOf_some hb hnext
      obtain ⟨hrun, es, others, hes, hconsumes, hresult, hend⟩ :=
        processCompletions_spec patience limit (outputs ++ more) hg
      refine ⟨hrun, e :: es, more ++ others, ?_, ?_, ?_, hend.imp_left (congrArg (· + 1))⟩
      · rw [hes, hreceived, List.append_assoc]
        rfl
      · rw [hengine, hstate] at hconsumes
        exact .cons houtcome hconsumes
      · rw [← List.append_assoc]
        exact hresult

/-- The backend of a host is driven by moves. -/
theorem Reached.isRun (hh : h.Reached) : h.backend.IsRun := by
  induction hh with
  | create _ _ hx _ => exact ⟨_, [], hx⟩
  | replace _ _ _ hx _ _ => exact ⟨_, [], hx⟩
  | wait _ hx ih => exact ih.leads hx
  | process _ _ _ ih => exact ih.proceeds (accept_spec _ _).1
  | handle _ _ ih => exact ih.proceeds (accept_spec _ _).1
  | abort _ _ _ ih => exact ih.proceeds (accept_spec _ _).1
  | @nextCompletion h _ patience ih =>
    have hreach := ih.proceeds (proceeds_reach h)
    rw [Host.nextCompletion]
    rcases hnext : h.reach.nextOf patience with ⟨_ | reply, g⟩
    · exact hreach.proceeds (nextOf_none hnext).2.1
    · exact (nextOf_some hreach hnext).1
  | @runUntilIdle h _ patience limit ih =>
    exact (processCompletions_spec patience limit [] (ih.proceeds (proceeds_reach h))).1
  | @setGlobal h _ _ _ ih => exact ih.proceeds (proceeds_reach h)
  | @snapshot h _ ih => exact ih.proceeds (proceeds_reach h)
  | @checkpoint h _ _ _ hkept ih =>
    rw [Host.checkpoint] at hkept
    split at hkept <;> cases hkept
    exact ih.proceeds (proceeds_reach h)
  | @resume h _ key ih =>
    have hreach := ih.proceeds (proceeds_reach h)
    rw [Host.resume]
    split
    · split
      · exact ih
      · split <;> exact hreach
    · exact ih
  | @restore h _ state ih =>
    have hreach := ih.proceeds (proceeds_reach h)
    rw [Host.restore]
    split <;> exact hreach

/-- What becomes of the completions of a host. -/
structure Delivers (h : Host X) : Prop where
  /-- Its backend comes out of a run. -/
  isRun : h.backend.IsRun
  /-- No engine refuses what the backend has sent. -/
  accepted : ∀ e ∈ h.backend.sent, ∀ (engine : Engine) (s : State),
    ∃ outputs, (engine.handle s e).outcome = .ok outputs
  /-- A host that processes completions puts out all that its engine makes of those that are taken
  from the channel, and takes them until none arrives or there were as many as it may process. -/
  idle : ∀ patience limit,
    let r := h.runUntilIdle patience limit
    ∃ es outputs, r.2.backend.received = h.backend.received ++ es ∧
      h.engine.Consumes h.state es outputs r.2.state ∧ r.1 = .ok outputs ∧
        (es.length = limit ∨ ∃ x, Executor.receive x patience = (none, r.2.executor))

/-- **Hosts deliver.** -/
theorem Reached.delivers (hh : h.Reached) : h.Delivers where
  isRun := hh.isRun
  accepted e he engine s := by
    obtain ⟨actions, moves, hmoves⟩ := hh.isRun
    rw [hmoves] at he
    exact engine.handle_of_ok (Backend.check_of_mem_sent actions moves e he)
  idle patience limit := by
    have hreach := proceeds_reach h
    obtain ⟨-, es, outputs, hreceived, hrest⟩ :=
      processCompletions_spec patience limit [] (hh.isRun.proceeds hreach)
    exact ⟨es, outputs, hreach.received_eq hh.isRun ▸ hreceived, hrest⟩

end Backend

end Host

/-- **Completions are delivered.**  Whatever actions there are, and whatever moves are made, each
call that is handed to a backend is one of three things: it has been reported, once; its task is not
over; or it was cancelled.  A task belongs to one call and ends once, and no task is ever stuck.  So
when a call is not cancelled and no task is left that was started for it, then its result has been
sent, once.  The result tells that nobody knows the action, that an argument is missing or that the
action broke down, or else what the action returned or failed with.

The result of any call passes the check for events, and if the call is in flight, the outcome that
is entered is the one that the result was made from.  So no engine ever refuses what a backend has
sent.  A host that processes completions until none arrives, or until there were as many as it may
process, puts out all that its engine makes of those that were taken from the channel. -/
theorem completions_are_delivered :
    (∀ (actions : Actions) (moves : List Move), Backend.Accounted actions moves) ∧
    (∀ (n : InvocationId) (action : String) (o : Outcome),
      (Event.actionResult n action o).check = .ok () ∧
        ∀ (calls : Calls) (call : PendingCall), Dict.get? calls n = some call →
          call.isInFlight = true → calls.accept? (.actionResult n action o) =
            some (Dict.put calls n { call with status := .ofOutcome o, result := some o })) ∧
    ∀ (X : Type) [Executor X] [LawfulExecutor X] (h : Host X), h.Reached → h.Delivers := by
  refine ⟨Backend.accounted, fun n action o => ?_, fun X _ _ h hh => hh.delivers⟩
  exact ⟨Event.check_actionResult n action o, fun _ _ => Calls.accept?_actionResult⟩

end

open Engine (askers ask asked)

/-- A host that has no actions, and whose engine has dispatched a call. -/
def actionless : Host Clockwork :=
  ((Host.create askers (.initial (.seeded 0)) (.idle []) false).handle ask).2

/-- A call of an action that needs nothing. -/
def oneJob : Job := ⟨⟨asked, "act", []⟩, true, some 0⟩

/-- The moves by which the call is run, and the action returns nothing. -/
def oneCall : List Move :=
  [.call oneJob.dispatch true, .register 0, .arm 0, .finish 0 (.returned .null), .clear 0, .send 0]

/-- A backend on which the call is run sends its result once.  A call is in flight whose result
stands in the channel of a host without actions; so the result is entered, and the host takes it
from the channel when it processes completions. -/
theorem completions_are_delivered_actionless :
    (∃ done, [oneJob].Perm done ∧
      List.Forall₂ (Backend.Reports [("act", ⟨"act", []⟩)] [(0, .returned .null)]) done
        [.actionResult asked "act" (.completed .null)]) ∧
      (∃ call, Dict.get? actionless.state.calls asked = some call ∧ ∀ (action : String)
        (o : Outcome), actionless.state.calls.accept? (.actionResult asked action o) =
          some (Dict.put actionless.state.calls asked
            { call with status := .ofOutcome o, result := some o })) ∧
      actionless.backend.sent.map Event.invocation? = [some asked] ∧
      (∀ e ∈ actionless.backend.sent, ∀ (engine : Engine) (s : State),
        ∃ outputs, (engine.handle s e).outcome = .ok outputs) ∧
      ∃ es outputs, es.map Event.invocation? = [some asked] ∧
        actionless.engine.Consumes actionless.state es outputs
            (actionless.runUntilIdle 0 1).2.state ∧
          (actionless.runUntilIdle 0 1).1 = .ok outputs := by
  obtain ⟨hruns, hresults, hhosts⟩ := completions_are_delivered
  have hdelivers := hhosts Clockwork actionless (.handle (.create _ _ rfl _) ask)
  have hcall : ∃ call, Dict.get? actionless.state.calls asked = some call ∧
      call.isInFlight = true := by
    have hflight : (Dict.get? actionless.state.calls asked).map PendingCall.isInFlight =
        some true := by
      decide +kernel
    exact Option.map_eq_some_iff.1 hflight
  refine ⟨?_, ?_, by decide +kernel, hdelivers.accepted, ?_⟩
  · have hkept : Move.cancel (.inl asked) ∉ oneCall := by simp [oneCall]
    exact (hruns [("act", ⟨"act", []⟩)] oneCall).delivered asked hkept nofun
  · obtain ⟨call, hcall, hflight⟩ := hcall
    exact ⟨call, hcall, fun action o => (hresults asked action o).2 _ call hcall hflight⟩
  · obtain ⟨es, outputs, hreceived, hconsumes, hresult, -⟩ := hdelivers.idle 0 1
    refine ⟨es, outputs, ?_, hconsumes, hresult⟩
    have hone : (actionless.runUntilIdle 0 1).2.backend.received.map Event.invocation? =
        [some asked] := by
      decide +kernel
    have hnone : actionless.backend.received.map Event.invocation? = [] := by decide +kernel
    rwa [hreceived, List.map_append, hnone] at hone

end EventFlow

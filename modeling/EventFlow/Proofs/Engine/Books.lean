import EventFlow.Proofs.Dict
import EventFlow.Proofs.Engine.Apply
import EventFlow.Proofs.Engine.Invariant

/-!
# The books of a step

Calls are entered in the table when they are dispatched, and leave it when their results are
accepted, when their instances are aborted or when these are let go.  This file keeps the books
while events are processed: of every invocation it counts how often it was dispatched and how often
it was cancelled, and whether it is in flight.

## What is here

* `Tallied` says how an operation changes the books; operations compose (`Tallied.trans`).
* `Engine.requestedIn`, `wonIn` and `overriddenIn` are the calls that heads ask for in a round, and
  what becomes of them.
* **`tallied_runQueue`**: while a queue is worked off, the calls are dispatched that win.

The books balance for invocations that are asked for only once; without this proviso a second
dispatch would overwrite the entry of the first.
-/

set_option autoImplicit false

namespace EventFlow

variable {Compiled Found : Type} [Query.Library Compiled Found]

/-- The call an emission asks for. -/
def Emission.call? (m : Emission) : Option InvocationId :=
  match m.intent with
  | .send _ _ => none
  | .call r => some r.invocation

namespace Signal

/-- The invocations that were dispatched, in order. -/
def dispatchesIn (signals : List Signal) : List InvocationId :=
  signals.filterMap fun x => x.dispatch?.map Dispatch.invocation

/-- The invocations that were cancelled, in order. -/
def cancellationsIn (signals : List Signal) : List InvocationId :=
  signals.filterMap cancellation?

/-- A signal is about no call. -/
def Aside (x : Signal) : Prop := x.dispatch? = none ∧ x.cancellation? = none

theorem dispatchesIn_append (signals more : List Signal) :
    dispatchesIn (signals ++ more) = dispatchesIn signals ++ dispatchesIn more :=
  List.filterMap_append

theorem cancellationsIn_append (signals more : List Signal) :
    cancellationsIn (signals ++ more) = cancellationsIn signals ++ cancellationsIn more :=
  List.filterMap_append

theorem dispatchesIn_aside {signals : List Signal} (h : ∀ x ∈ signals, x.Aside) :
    dispatchesIn signals = [] :=
  List.filterMap_eq_nil_iff.2 fun x hx => by rw [(h x hx).1]; rfl

theorem cancellationsIn_aside {signals : List Signal} (h : ∀ x ∈ signals, x.Aside) :
    cancellationsIn signals = [] :=
  List.filterMap_eq_nil_iff.2 fun x hx => (h x hx).2

end Signal

namespace Calls

/-- Whether an invocation is in flight. -/
def carries (calls : Calls) (n : InvocationId) : Bool :=
  (Dict.get? calls n).any PendingCall.isInFlight

/-- A table of calls is in order: every call is entered under its invocation, and only once. -/
structure Filed (calls : Calls) : Prop where
  sorted : Dict.Sorted calls
  own : ∀ c ∈ calls, c.2.invocation = c.1

theorem has_of_carries {calls : Calls} {n : InvocationId} (h : calls.carries n = true) :
    Dict.has calls n = true := by
  rw [carries] at h
  rw [Dict.has]
  cases hc : Dict.get? calls n with
  | none =>
    rw [hc] at h
    cases h
  | some c => rfl

end Calls

/-! ## The books of a step -/

/-- Some calls were dispatched between two steps, and none else; whatever was in flight before is so
afterwards, unless it was cancelled. -/
structure Tallied (won : List InvocationId) (s s' : Step) : Prop where
  dispatched : Signal.dispatchesIn s'.signals = Signal.dispatchesIn s.signals ++ won
  cancelled : ∃ more,
    Signal.cancellationsIn s'.signals = Signal.cancellationsIn s.signals ++ more
  known : ∀ n, Dict.has s'.state.calls n = true → Dict.has s.state.calls n = true ∨ n ∈ won
  filed : s.state.calls.Filed → s'.state.calls.Filed
  balance : ∀ n, won.count n + (Dict.has s.state.calls n).toNat ≤ 1 →
    won.count n + (s.state.calls.carries n).toNat +
        (Signal.cancellationsIn s.signals).count n =
      (s'.state.calls.carries n).toNat + (Signal.cancellationsIn s'.signals).count n

section Books

variable {e : Engine} {s s' s'' : Step} {won won' : List InvocationId}

/-- Nothing that concerns calls has changed between two steps. -/
def Step.Quiet (s s' : Step) : Prop :=
  s'.state.calls = s.state.calls ∧ ∃ more, s'.signals = s.signals ++ more ∧ ∀ x ∈ more, x.Aside

theorem Step.quiet_of_eq (hcalls : s'.state.calls = s.state.calls) (hs : s'.signals = s.signals) :
    s.Quiet s' := ⟨hcalls, [], by rw [hs, List.append_nil], nofun⟩

theorem Step.quiet_emit {x : Signal} (hcalls : s'.state.calls = s.state.calls)
    (hs : s'.signals = s.signals ++ [x]) (hx : x.Aside) : s.Quiet s' :=
  ⟨hcalls, [x], hs, List.forall_mem_singleton.2 hx⟩

theorem Step.quiet_observe (s : Step) (o : Observation) : s.Quiet (s.observe o) :=
  Step.quiet_emit rfl rfl ⟨rfl, rfl⟩

theorem Step.Quiet.trans (h : s.Quiet s') (h' : s'.Quiet s'') : s.Quiet s'' := by
  obtain ⟨hcalls, more, hs, hmore⟩ := h
  obtain ⟨hcalls', more', hs', hmore'⟩ := h'
  refine ⟨hcalls'.trans hcalls, more ++ more', by rw [hs', hs, List.append_assoc], fun x hx => ?_⟩
  exact (List.mem_append.1 hx).elim (hmore x) (hmore' x)

theorem Step.Quiet.dispatches (h : s.Quiet s') :
    Signal.dispatchesIn s'.signals = Signal.dispatchesIn s.signals := by
  obtain ⟨-, more, hs, hmore⟩ := h
  rw [hs, Signal.dispatchesIn_append, Signal.dispatchesIn_aside hmore, List.append_nil]

theorem Step.Quiet.cancellations (h : s.Quiet s') :
    Signal.cancellationsIn s'.signals = Signal.cancellationsIn s.signals := by
  obtain ⟨-, more, hs, hmore⟩ := h
  rw [hs, Signal.cancellationsIn_append, Signal.cancellationsIn_aside hmore, List.append_nil]

theorem tallied_of_quiet (h : s.Quiet s') : Tallied [] s s' := by
  refine ⟨by rw [h.dispatches, List.append_nil], ⟨[], by rw [h.cancellations, List.append_nil]⟩,
    fun n hn => ?_, ?_, fun n _ => ?_⟩
  · exact .inl (h.1 ▸ hn)
  · rw [h.1]
    exact id
  · rw [h.1, h.cancellations, List.count_nil, Nat.zero_add]

theorem Tallied.trans (h : Tallied won s s') (h' : Tallied won' s' s'') :
    Tallied (won ++ won') s s'' := by
  obtain ⟨more, hmore⟩ := h.cancelled
  obtain ⟨more', hmore'⟩ := h'.cancelled
  refine ⟨by rw [h'.dispatched, h.dispatched, List.append_assoc],
    ⟨more ++ more', by rw [hmore', hmore, List.append_assoc]⟩, fun n hn => ?_,
    h'.filed ∘ h.filed, fun n hle => ?_⟩
  · rcases h'.known n hn with hn | hn
    · exact (h.known n hn).imp_right (List.mem_append_left _)
    · exact .inr (List.mem_append_right _ hn)
  · rw [List.count_append] at hle ⊢
    -- the second operation finds an entry only if there was one or the first one has made it
    have hle' : won'.count n + (Dict.has s'.state.calls n).toNat ≤ 1 := by
      cases hn : Dict.has s'.state.calls n with
      | false => exact Nat.le_trans (Nat.le_add_left _ _) (Nat.le_of_add_right_le hle)
      | true =>
        rcases h.known n hn with hold | hnew
        · rw [hold] at hle
          simp only [Bool.toNat_true] at hle ⊢
          omega
        · have := List.count_pos_iff.2 hnew
          simp only [Bool.toNat_true]
          omega
    have hfirst := h.balance n (by omega)
    have hsecond := h'.balance n hle'
    omega

theorem tallied_foldl {α : Type} {f : Step → α → Step} (won : α → List InvocationId)
    (hf : ∀ s a, Tallied (won a) s (f s a)) (as : List α) (s : Step) :
    Tallied (as.flatMap won) s (as.foldl f s) := by
  induction as generalizing s with
  | nil => exact tallied_of_quiet (Step.quiet_of_eq rfl rfl)
  | cons a as ih => exact (hf s a).trans (ih (f s a))

theorem tallied_foldl_nil {α : Type} {f : Step → α → Step} (hf : ∀ s a, Tallied [] s (f s a))
    (as : List α) (s : Step) : Tallied [] s (as.foldl f s) := by
  have h := tallied_foldl (fun _ => []) hf as s
  rwa [List.flatMap_eq_nil_iff.2 fun _ _ => rfl] at h

/-! ## Operations -/

theorem filed_remove {calls : Calls} (h : calls.Filed) (n : InvocationId) :
    Calls.Filed (Dict.remove calls n) :=
  ⟨h.sorted.sublist (List.filter_sublist.map _), fun c hc => h.own c (List.mem_filter.1 hc).1⟩

theorem filed_put {calls : Calls} (h : calls.Filed) {n : InvocationId} {c : PendingCall}
    (hc : c.invocation = n) : Calls.Filed (Dict.put calls n c) := by
  refine ⟨Dict.sorted_put h.sorted n c, fun x hx => ?_⟩
  rcases Dict.mem_put hx with rfl | hx
  · exact hc
  · exact h.own x hx

theorem carries_remove_self (calls : Calls) (n : InvocationId) :
    Calls.carries (Dict.remove calls n) n = false := by
  rw [Calls.carries, Dict.get?_remove_self]
  rfl

theorem carries_remove_of_ne {n m : InvocationId} (hne : m ≠ n) (calls : Calls) :
    Calls.carries (Dict.remove calls n) m = calls.carries m := by
  rw [Calls.carries, Dict.get?_remove_of_ne hne, Calls.carries]

theorem has_of_has_remove {calls : Calls} {n m : InvocationId}
    (h : Dict.has (Dict.remove calls n) m = true) : Dict.has calls m = true := by
  by_cases hmn : m = n
  · rw [hmn, Dict.has, Dict.get?_remove_self] at h
    cases h
  · rwa [Dict.has, Dict.get?_remove_of_ne hmn] at h

/-- A call leaves the table with a signal if it is in flight. -/
theorem tallied_remove {n : InvocationId} {more : List Signal}
    (hcalls : s'.state.calls = Dict.remove s.state.calls n) (hs : s'.signals = s.signals ++ more)
    (hd : Signal.dispatchesIn more = [])
    (hc : Signal.cancellationsIn more = if s.state.calls.carries n then [n] else []) :
    Tallied [] s s' := by
  refine ⟨by rw [hs, Signal.dispatchesIn_append, hd], ⟨_, by
    rw [hs, Signal.cancellationsIn_append]⟩, fun m hm => ?_, fun hf => ?_, fun m _ => ?_⟩
  · rw [hcalls] at hm
    exact .inl (has_of_has_remove hm)
  · rw [hcalls]
    exact filed_remove hf n
  · rw [hs, Signal.cancellationsIn_append, hc, hcalls, List.count_append, List.count_nil]
    by_cases hmn : m = n
    · subst hmn
      rw [carries_remove_self]
      cases s.state.calls.carries m with
      | false => rfl
      | true =>
        simp only [if_true, List.count_singleton_self, Bool.toNat_true, Bool.toNat_false]
        omega
    · rw [carries_remove_of_ne hmn]
      have hnot : List.count m (if s.state.calls.carries n = true then [n] else []) = 0 := by
        refine List.count_eq_zero.2 fun hmem => hmn ?_
        split at hmem
        · exact List.mem_singleton.1 hmem
        · cases hmem
      rw [hnot, Nat.zero_add, Nat.add_zero]

theorem tallied_cancelCall (s : Step) (n : InvocationId) : Tallied [] s (s.cancelCall n) := by
  rw [Step.cancelCall]
  split
  · exact tallied_of_quiet (Step.quiet_of_eq rfl rfl)
  · next call hcall =>
    have hcarries : s.state.calls.carries n = call.isInFlight := by
      rw [Calls.carries, hcall]
      rfl
    simp only
    split
    · next hflight =>
      refine @tallied_remove s _ n [.cancelled n,
        .observed (.actionCancelled call.invocation call.action)] rfl ?_ rfl ?_
      · exact List.append_assoc ..
      · rw [hcarries, hflight]
        rfl
    · next hflight =>
      refine @tallied_remove s _ n [.observed (.actionCancelled call.invocation call.action)]
        rfl rfl rfl ?_
      rw [hcarries, if_neg hflight]
      rfl

theorem tallied_cancelCallsOf (s : Step) (id : InstanceId) : Tallied [] s (s.cancelCallsOf id) :=
  tallied_foldl_nil tallied_cancelCall _ s

/-- A call that is dispatched is entered in the table. -/
theorem tallied_dispatch (s : Step) (id : InstanceId) (r : CallRequest) :
    Tallied [r.invocation] s (s.dispatch id r) := by
  have hsignals : (s.dispatch id r).signals = s.signals ++ [.dispatched r.dispatch,
      .observed (.actionDispatched id r.invocation r.action)] := List.append_assoc ..
  have hget (n : InvocationId) : Dict.get? (s.dispatch id r).state.calls n =
      if n = r.invocation then
        some ⟨r.invocation, r.action, r.arguments, id, r.head, .inFlight, none⟩
      else Dict.get? s.state.calls n := Dict.get?_put ..
  have hc : Signal.cancellationsIn (s.dispatch id r).signals =
      Signal.cancellationsIn s.signals := by
    rw [hsignals, Signal.cancellationsIn_append]
    exact List.append_nil _
  refine ⟨by rw [hsignals, Signal.dispatchesIn_append]; rfl, ⟨[], by rw [hc, List.append_nil]⟩,
    fun n hn => ?_, fun hf => filed_put hf rfl, fun n hle => ?_⟩
  · rw [Dict.has, hget] at hn
    split at hn
    · next heq => exact .inr (List.mem_singleton.2 heq)
    · exact .inl hn
  · rw [hc, Calls.carries, Calls.carries, hget]
    by_cases hn : n = r.invocation
    · -- nothing was entered under this invocation before
      have hnone : Dict.get? s.state.calls n = none := by
        rw [hn, List.count_singleton_self] at hle
        cases hold : Dict.get? s.state.calls n with
        | none => rfl
        | some c =>
          rw [← hn, Dict.has, hold] at hle
          exact absurd hle (Nat.not_succ_le_self 1)
      rw [hnone, if_pos hn, hn, List.count_singleton_self]
      rfl
    · rw [if_neg hn, List.count_singleton, if_neg (by simpa using Ne.symm hn), Nat.zero_add]

/-! ## Rounds -/

namespace Engine

/-- What becomes of the emissions of a round. -/
def resolutionOf (e : Engine) (round : Step × Event) : Resolution :=
  Conflict.resolve e.config.tieBreak (emissionsOf (e.gather round.2 round.1).2)

/-- The calls that heads ask for in a round. -/
def requestedIn (e : Engine) (round : Step × Event) : List InvocationId :=
  (emissionsOf (e.gather round.2 round.1).2).filterMap Emission.call?

/-- The calls that win in a round. -/
def wonIn (e : Engine) (round : Step × Event) : List InvocationId :=
  (e.resolutionOf round).winners.filterMap Emission.call?

/-- The calls that lose in a round. -/
def overriddenIn (e : Engine) (round : Step × Event) : List InvocationId :=
  ((e.resolutionOf round).overridden.map Overridden.emission).filterMap Emission.call?

end Engine

open Engine

theorem quiet_moves (e : Engine) (event : Event) (s : Step) :
    e.MovesKeep event fun s' _ => s.Quiet s' where
  abort _ h := h.trans (Step.quiet_of_eq rfl rfl)
  advance _ _ _ h := h.trans (Step.quiet_of_eq rfl rfl)

theorem quiet_starts (e : Engine) (s : Step) : e.StartsKeep fun s' _ => s.Quiet s' where
  refuse _ _ h := h.trans (Step.quiet_observe _ _)
  count _ h := h.trans (Step.quiet_of_eq rfl rfl)
  identify h := h.trans (Step.quiet_of_eq rfl rfl)
  spawn _ _ _ _ h := h.trans (Step.quiet_of_eq rfl rfl)

theorem quiet_gather (e : Engine) (event : Event) (s : Step) : s.Quiet (e.gather event s).1 :=
  (quiet_starts e s).gather ((quiet_moves e event s).moveHeads (Step.quiet_of_eq rfl rfl))

theorem tallied_deliver (s : Step) (m : Emission) :
    Tallied m.call?.toList s (deliver s m) := by
  rw [deliver, Emission.call?]
  cases m.intent with
  | send ev d => cases d <;> exact tallied_of_quiet (Step.quiet_of_eq rfl rfl)
  | call r => exact tallied_dispatch s m.instanceId r

theorem quiet_announce (s : Step) (name : String) (payload : Dict String Json) :
    s.Quiet (s.announce name payload) := Step.quiet_of_eq rfl rfl

theorem quiet_suppress (s : Step) (lost : Overridden) : s.Quiet (suppress s lost) := by
  have hnote : s.Quiet (s.updateInstance lost.emission.instanceId
      (·.noteOverridden lost.emission.id)) := by
    rw [Step.updateInstance]
    split <;> exact Step.quiet_of_eq rfl rfl
  rw [suppress]
  refine (hnote.trans ?_).trans (quiet_announce _ _ _)
  split <;> exact Step.quiet_emit rfl rfl ⟨rfl, rfl⟩

theorem tallied_apply (e : Engine) (s : Step) (requests : Requests) :
    Tallied ((Conflict.resolve e.config.tieBreak (emissionsOf requests)).winners.filterMap
      Emission.call?) s (e.apply s requests) := by
  have hties := tallied_foldl_nil (f := fun (s : Step) (t : Tie) =>
    s.observe (.tieBroken t.key t.winner t.runnerUp t.unresolvable))
    fun s t => tallied_of_quiet (Step.quiet_observe s _)
  have hwon := tallied_foldl (fun m : Emission => m.call?.toList) tallied_deliver
  have hlost := tallied_foldl_nil fun s l => tallied_of_quiet (quiet_suppress s l)
  have htimers := tallied_foldl_nil (f := fun (s : Step) (t : InstanceId × TimerRequest) =>
    s.schedule t.1 t.2) fun s t => tallied_of_quiet (Step.quiet_emit rfl rfl ⟨rfl, rfl⟩)
  have hall (r : Resolution) (timers : List (InstanceId × TimerRequest)) :=
    (((hties r.ties s).trans (hwon r.winners _)).trans (hlost r.overridden _)).trans
      (htimers timers _)
  simp only [List.nil_append, List.append_nil, ← List.filterMap_eq_flatMap_toList] at hall
  exact hall (Conflict.resolve e.config.tieBreak (emissionsOf requests))
    (requests.flatMap fun r => r.2.timers.map (r.1, ·))

theorem tallied_stopTimersOf (s : Step) (id : InstanceId) : Tallied [] s (s.stopTimersOf id) :=
  tallied_foldl_nil (f := fun (s : Step) (t : TimerId) =>
    (s.update fun s => { s with timers := Dict.remove s.timers t }).emit (.timerCancelled t))
    (fun _ _ => tallied_of_quiet (Step.quiet_emit rfl rfl ⟨rfl, rfl⟩)) _ s

theorem tallied_windUp (s : Step) (k : Nat) : Tallied [] s (windUp s k) :=
  windUp_preserves (tallied_of_quiet (Step.quiet_of_eq rfl rfl))
    (fun _ _ => tallied_of_quiet (Step.quiet_of_eq rfl rfl))
    (fun i _ _ hs => hs.trans (tallied_cancelCallsOf _ i.id))
    (fun s' id hs => hs.trans (tallied_stopTimersOf s' id))
    fun s' name payload hs => hs.trans (tallied_of_quiet (quiet_announce s' name payload))

theorem tallied_windUpEnded (s : Step) : Tallied [] s (windUpEnded s) :=
  tallied_foldl_nil tallied_windUp _ s

/-- In a round the calls are dispatched that win. -/
theorem tallied_round (e : Engine) (s : Step) (event : Event) :
    Tallied (e.wonIn (s, event)) s (e.round s event) := by
  have h := ((tallied_of_quiet (quiet_gather e event s)).trans
    (tallied_apply e _ (e.gather event s).2)).trans (tallied_windUpEnded _)
  rwa [List.nil_append, List.append_nil] at h

theorem quiet_drain (s : Step) : s.Quiet s.drain := by
  refine ⟨rfl, _, rfl, fun x hx => ?_⟩
  obtain ⟨o, -, rfl⟩ := List.mem_map.1 hx
  exact ⟨rfl, rfl⟩

theorem quiet_nextFresh {queue : List Event} {o : Option Event}
    (hn : nextFresh s queue = (s', o)) : s.Quiet s' := by
  fun_induction nextFresh s queue with
  | case1 s =>
    cases hn
    exact Step.quiet_of_eq rfl rfl
  | case2 s ev rest _ ih => exact (s.quiet_observe _).trans (ih hn)
  | case3 s ev rest =>
    cases hn
    exact Step.quiet_of_eq rfl rfl

/-- **While a queue is worked off, the calls are dispatched that win in its rounds.** -/
theorem tallied_runQueue (e : Engine) (budget : Nat) (s : Step) :
    Tallied ((e.roundsFrom budget s).flatMap e.wonIn) s (e.runQueue budget s) := by
  induction budget generalizing s with
  | zero =>
    rw [runQueue]
    split
    · exact tallied_of_quiet (Step.quiet_of_eq rfl rfl)
    · exact tallied_of_quiet (s.quiet_observe _)
  | succ budget ih =>
    rw [runQueue, roundsFrom]
    generalize hn : nextFresh s s.queue = r
    obtain ⟨s', _ | event⟩ := r
    · exact tallied_of_quiet (quiet_nextFresh hn)
    · have hround := (tallied_of_quiet (quiet_nextFresh hn)).trans (tallied_round e s' event)
      have h := (hround.trans (tallied_of_quiet (quiet_drain _))).trans (ih _)
      rwa [List.nil_append, List.append_nil] at h

end Books

end EventFlow

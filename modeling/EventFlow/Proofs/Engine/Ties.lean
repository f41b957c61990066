import EventFlow.Proofs.Engine.Yields

/-!
# The ties that are reported

Ties are reported when emissions compete, and at no other time.  So what the reply to a request
reports of ties are those of its rounds.

## What is here

* `Signal.tie?` is the tie that a signal reports, and `Step.ties` are those that a step reported.
* `ties_apply` says which ties are reported when emissions compete, and `ties_runQueue` adds them up
  over the rounds in which a queue is worked off.

**`ties_respond`** is the result.
-/

set_option autoImplicit false

namespace EventFlow

variable {Compiled Found : Type} [Query.Library Compiled Found]

/-- The tie that is reported. -/
def Signal.tie? : Signal → Option Tie
  | .observed (.tieBroken key winner runnerUp unresolvable) =>
    some ⟨key, winner, runnerUp, unresolvable⟩
  | _ => none

/-- The ties that a step has reported. -/
def Step.ties (s : Step) : List Tie := s.signals.filterMap Signal.tie?

/-- The ties that a reply reports. -/
def Reply.ties (r : Reply) : List Tie := r.signals.filterMap Signal.tie?

section Ties

open Engine

variable {e : Engine} {s s' : Step} {t : State}

/-- A signal that reports no tie changes nothing. -/
theorem ties_emit_same {x : Signal} (hx : x.tie? = none) (s : Step) : (s.emit x).ties = s.ties := by
  rw [Step.ties, Step.emit, List.filterMap_append, List.filterMap_cons, hx]
  exact List.append_nil _

theorem ties_foldl_same {α : Type} {f : Step → α → Step} (hf : ∀ s a, (f s a).ties = s.ties)
    (as : List α) (s : Step) : (as.foldl f s).ties = s.ties :=
  List.foldlRecOn as f (motive := fun s' => s'.ties = s.ties) rfl
    fun s' hs a _ => (hf s' a).trans hs

theorem ties_cancelCall (s : Step) (n : InvocationId) : (s.cancelCall n).ties = s.ties := by
  rw [Step.cancelCall]
  split
  · rfl
  · simp only
    split
    · exact (ties_emit_same rfl _).trans (ties_emit_same rfl _)
    · exact ties_emit_same rfl _

theorem ties_cancelCallsOf (s : Step) (id : InstanceId) : (s.cancelCallsOf id).ties = s.ties :=
  ties_foldl_same ties_cancelCall _ s

theorem ties_beginStep (e : Engine) (t : State) : (e.beginStep t).ties = [] := by
  have hevict (s : Step) (i : Instance) : (evict s i).ties = s.ties :=
    (ties_emit_same rfl _).trans (ties_cancelCallsOf s i.id)
  exact ties_foldl_same hevict _ _

/-! ## Rounds -/

theorem ties_moves (e : Engine) (event : Event) (s : Step) :
    e.MovesKeep event fun s' _ => s'.ties = s.ties where
  abort _ h := h
  advance _ _ _ h := h

theorem ties_starts (e : Engine) (s : Step) : e.StartsKeep fun s' _ => s'.ties = s.ties where
  refuse _ _ h := (ties_emit_same rfl _).trans h
  count _ h := h
  identify h := h
  spawn _ _ _ _ h := h

theorem ties_gather (e : Engine) (event : Event) (s : Step) : (e.gather event s).1.ties = s.ties :=
  (ties_starts e s).gather ((ties_moves e event s).moveHeads rfl)

theorem ties_deliver (s : Step) (m : Emission) : (deliver s m).ties = s.ties := by
  rw [deliver]
  cases m.intent with
  | send ev d => cases d <;> rfl
  | call r => exact (ties_emit_same rfl _).trans (ties_emit_same rfl _)

theorem ties_suppress (s : Step) (l : Overridden) : (suppress s l).ties = s.ties := by
  have hnoted : (s.updateInstance l.emission.instanceId
      (·.noteOverridden l.emission.id)).ties = s.ties := by
    rw [Step.updateInstance]
    split <;> rfl
  have hreported := ties_emit_same (x := .observed l.report) rfl
    (s.updateInstance l.emission.instanceId (·.noteOverridden l.emission.id))
  rw [hnoted] at hreported
  rw [suppress]
  split <;> exact hreported

theorem ties_observe (ties : List Tie) (s : Step) :
    (ties.foldl (fun s t =>
      s.observe (.tieBroken t.key t.winner t.runnerUp t.unresolvable)) s).ties =
        s.ties ++ ties := by
  induction ties generalizing s with
  | nil => exact (List.append_nil _).symm
  | cons t ties ih =>
    have hone : (s.observe (.tieBroken t.key t.winner t.runnerUp t.unresolvable)).ties =
        s.ties ++ [t] := List.filterMap_append
    rw [List.foldl_cons, ih, hone, List.append_assoc]
    rfl

/-- When emissions compete, the ties of their groups are reported. -/
theorem ties_apply (e : Engine) (s : Step) (requests : Requests) :
    (e.apply s requests).ties = s.ties ++
      (Conflict.resolve e.config.tieBreak (emissionsOf requests)).ties := by
  have htimers := ties_foldl_same (f := fun (s : Step) (t : InstanceId × TimerRequest) =>
    s.schedule t.1 t.2) fun s t => ties_emit_same rfl _
  have hall (r : Resolution) (timers : List (InstanceId × TimerRequest)) :=
    (htimers timers _).trans ((ties_foldl_same ties_suppress r.overridden _).trans
      ((ties_foldl_same ties_deliver r.winners _).trans (ties_observe r.ties s)))
  exact hall (Conflict.resolve e.config.tieBreak (emissionsOf requests))
    (requests.flatMap fun r => r.2.timers.map (r.1, ·))

theorem ties_stopTimersOf (s : Step) (id : InstanceId) : (s.stopTimersOf id).ties = s.ties :=
  ties_foldl_same (f := fun (s : Step) (t : TimerId) =>
    (s.update fun s => { s with timers := Dict.remove s.timers t }).emit (.timerCancelled t))
    (fun _ _ => ties_emit_same rfl _) _ s

theorem ties_windUp (s : Step) (k : Nat) : (windUp s k).ties = s.ties :=
  windUp_preserves (P := fun s' => s'.ties = s.ties) rfl (fun _ _ => rfl)
    (fun i _ _ hs => (ties_cancelCallsOf _ i.id).trans hs)
    (fun s' id hs => (ties_stopTimersOf s' id).trans hs) fun _ _ _ hs => hs

theorem ties_windUpEnded (s : Step) : (windUpEnded s).ties = s.ties :=
  ties_foldl_same ties_windUp _ s

theorem ties_round (e : Engine) (s : Step) (event : Event) :
    (e.round s event).ties = s.ties ++ (e.resolutionOf (s, event)).ties := by
  rw [round_eq, ties_windUpEnded, compete, ties_apply, ties_gather]
  rfl

/-- What instances observe themselves are no ties. -/
theorem ties_drain (hp : ∀ i ∈ s.state.instances, i.Personal) : s.drain.ties = s.ties := by
  have hnone : ((s.state.instances.flatMap Instance.observations).map
      Signal.observed).filterMap Signal.tie? = [] := by
    rw [List.filterMap_eq_nil_iff]
    intro x hx
    obtain ⟨o, ho, rfl⟩ := List.mem_map.1 hx
    obtain ⟨i, hi, ho⟩ := List.mem_flatMap.1 ho
    have hpersonal := hp i hi o ho
    cases o <;> first | rfl | cases hpersonal
  rw [Step.ties, Step.drain, List.filterMap_append, hnone]
  exact List.append_nil _

theorem ties_nextFresh {queue : List Event} {o : Option Event}
    (hn : nextFresh s queue = (s', o)) : s'.ties = s.ties := by
  fun_induction nextFresh s queue with
  | case1 s =>
    cases hn
    rfl
  | case2 s ev rest _ ih => exact (ih hn).trans (ties_emit_same rfl s)
  | case3 s ev rest =>
    cases hn
    rfl

/-! ## Requests -/

/-- **While a queue is worked off, the ties of its rounds are reported.** -/
theorem ties_runQueue (e : Engine) (budget : Nat) (hp : ∀ i ∈ s.state.instances, i.Personal) :
    (e.runQueue budget s).ties = s.ties ++
      (e.roundsFrom budget s).flatMap fun round => (e.resolutionOf round).ties := by
  induction budget generalizing s with
  | zero =>
    rw [runQueue, roundsFrom, List.flatMap_nil, List.append_nil]
    split
    · rfl
    · exact ties_emit_same rfl s
  | succ budget ih =>
    rw [runQueue, roundsFrom]
    generalize hn : nextFresh s s.queue = r
    obtain ⟨s', _ | event⟩ := r
    · exact (ties_nextFresh hn).trans (List.append_nil _).symm
    · rw [← state_nextFresh hn] at hp
      have hp' := (personal_keep e).round hp event
      rw [ih ((personal_keep e).drained hp'), ties_drain hp', ties_round, ties_nextFresh hn,
        List.flatMap_cons, List.append_assoc]

theorem ties_ofStep (hp : ∀ i ∈ s.state.instances, i.Personal) :
    (Reply.ofStep s).ties = s.ties := ties_drain hp

theorem ties_handle (e : Engine) (ht : ∀ i ∈ t.instances, i.Personal) (event : Event) :
    (e.handle t event).ties = ((e.openingOf? t event).elim []
      (e.roundsFrom e.config.maxEventsPerStep)).flatMap fun round =>
        (e.resolutionOf round).ties := by
  have hbegun := InstancesKeep.begun (e := e) ht
  have hbegin := ties_beginStep e t
  have htakes := e.takes t event
  generalize e.handle t event = reply at htakes ⊢
  generalize e.openingOf? t event = o at htakes ⊢
  have hrun (f change : State → State) (hf : ∀ t, (f t).instances = t.instances)
      (hchange : ∀ t, (change t).instances = t.instances) :
      (Reply.ofStep ((e.runQueue e.config.maxEventsPerStep (e.opened t event f)).update
          change)).ties =
        (e.roundsFrom e.config.maxEventsPerStep (e.opened t event f)).flatMap
          fun round => (e.resolutionOf round).ties := by
    have hopened : ∀ i ∈ (e.opened t event f).state.instances, i.Personal := by
      rw [show (e.opened t event f).state = f (e.beginStep t).state from rfl, hf]
      exact hbegun
    have hends := ((personal_keep e).runQueue hopened e.config.maxEventsPerStep).1
    rw [ties_ofStep (by rw [Step.update, hchange]; exact hends)]
    refine (ties_runQueue e _ hopened).trans ?_
    rw [show (e.opened t event f).ties = (e.beginStep t).ties from rfl, hbegin, List.nil_append]
  cases htakes with
  | refused => rfl
  | idle => exact (ties_ofStep hbegun).trans hbegin
  | late n =>
    exact (ties_ofStep (s := (e.beginStep t).observe (.lateResult n)) hbegun).trans
      ((ties_emit_same rfl _).trans hbegin)
  | accepted n calls =>
    exact hrun (fun t => { t with calls }) (fun t => { t with calls := Dict.remove t.calls n })
      (fun _ => rfl) fun _ => rfl
  | fired timer =>
    exact hrun (fun t => { t with timers := Dict.remove t.timers timer }) id (fun _ => rfl)
      fun _ => rfl
  | processed => exact hrun id id (fun _ => rfl) fun _ => rfl

/-- **The reply to a request reports the ties of its rounds**, and no others. -/
theorem ties_respond (e : Engine) (ht : ∀ i ∈ t.instances, i.Personal) (r : Request) :
    (e.respond t r).ties = (e.roundsBy t r).flatMap fun round => (e.resolutionOf round).ties := by
  cases r with
  | named name payload => exact ties_handle e (t := { t with ids := t.ids.nextEvent.2 }) ht _
  | event event => exact ties_handle e ht event
  | abort id reason =>
    have hgives := e.givesUp t id reason
    rw [respond, roundsBy]
    generalize e.abort t id reason = reply at hgives ⊢
    generalize e.opening? t (.abort id reason) = o at hgives ⊢
    cases hgives with
    | refused => rfl
    | aborted =>
      have hstart := (personal_keep e).windUpEnded (InstancesKeep.updateInstance
        (InstancesKeep.begun (e := e) ht) (fun _ => (personal_keep e).abort reason) id)
      have hupdated : ((e.beginStep t).updateInstance id (·.abort reason)).ties = [] := by
        rw [← ties_beginStep e t, Step.updateInstance]
        split <;> rfl
      rw [ties_ofStep ((personal_keep e).runQueue hstart _).1, ties_runQueue e _ hstart,
        ties_windUpEnded, hupdated, List.nil_append]
      rfl

end Ties

end EventFlow

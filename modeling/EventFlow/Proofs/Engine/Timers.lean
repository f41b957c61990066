import EventFlow.Proofs.Engine.Yields

/-!
# The books of timers

A timer is entered in its table when it is started, with the instance that has asked for it, and
leaves the table when it fires or when that instance comes to its end.  This file keeps account of
both while requests are worked off.

## What is here

* `State.Endures` says that every instance is still there, with its end as it was.
* `Clocked` says how an operation changes the books; operations compose (`Clocked.trans`).
  **`clocked_runQueue`** does it for a queue.
* `Engine.startedBy` and `Engine.firedBy` are the timers that a request starts, and the one whose
  firing it is.  **`timed_respond`** says how a request changes the books.

As with calls, the books balance for timers that are started only once.
-/

set_option autoImplicit false

namespace EventFlow

variable {Compiled Found : Type} [Query.Library Compiled Found]

namespace Signal

/-- The timers that were started, in order. -/
def startsIn (signals : List Signal) : List TimerId :=
  signals.filterMap fun x => x.timer?.map Prod.fst

/-- The timers that were stopped, in order. -/
def stopsIn (signals : List Signal) : List TimerId := signals.filterMap stoppedTimer?

/-- A signal is about no timer. -/
def Timeless (x : Signal) : Prop := x.timer? = none ∧ x.stoppedTimer? = none

theorem startsIn_append (signals more : List Signal) :
    startsIn (signals ++ more) = startsIn signals ++ startsIn more := List.filterMap_append

theorem stopsIn_append (signals more : List Signal) :
    stopsIn (signals ++ more) = stopsIn signals ++ stopsIn more := List.filterMap_append

theorem startsIn_timeless {signals : List Signal} (h : ∀ x ∈ signals, x.Timeless) :
    startsIn signals = [] :=
  List.filterMap_eq_nil_iff.2 fun x hx => by rw [(h x hx).1]; rfl

theorem stopsIn_timeless {signals : List Signal} (h : ∀ x ∈ signals, x.Timeless) :
    stopsIn signals = [] :=
  List.filterMap_eq_nil_iff.2 fun x hx => (h x hx).2

theorem startsIn_stops (timers : List TimerId) : startsIn (timers.map timerCancelled) = [] := by
  induction timers with
  | nil => rfl
  | cons _ _ ih => exact ih

theorem stopsIn_stops (timers : List TimerId) : stopsIn (timers.map timerCancelled) = timers := by
  induction timers with
  | nil => rfl
  | cons t _ ih => exact congrArg (t :: ·) ih

end Signal

/-! ## What becomes of instances -/

/-- An instance has become another one with the same identity, and if it has ended that has not
changed. -/
structure Instance.Stands (i i' : Instance) : Prop where
  id : i'.id = i.id
  terminatedAt : i'.terminatedAt = i.terminatedAt
  status : i.status.isTerminal = true → i'.status = i.status

namespace State

/-- The timers that are running. -/
def timerIds (s : State) : List TimerId := Dict.keys s.timers

/-- The timers of an instance. -/
def timersFor (s : State) (id : InstanceId) : List TimerId :=
  (s.timers.filter fun t => t.2 = id).map Prod.fst

/-- Every instance is still there. -/
def Endures (s s' : State) : Prop := ∀ i ∈ s.instances, ∃ i' ∈ s'.instances, i.Stands i'

/-- An instance has come to its end in the step that is under way. -/
def Ends (s : State) (id : InstanceId) : Prop :=
  ∃ i ∈ s.instances, i.id = id ∧ i.status.isTerminal = true ∧ i.terminatedAt = some s.step

end State

section Timers

open Engine

variable {e : Engine} {s s' s'' : Step} {t t' t'' : State} {id : InstanceId} {event : Event}

theorem stands_refl (i : Instance) : i.Stands i := ⟨rfl, rfl, fun _ => rfl⟩

theorem Instance.Remains.stands {i i' : Instance} (h : i.Remains i') : i.Stands i' :=
  ⟨h.id, h.terminatedAt, h.status⟩

namespace State

theorem Endures.trans (h : t.Endures t') (h' : t'.Endures t'') : t.Endures t'' := by
  intro i hi
  obtain ⟨x, hx, hix⟩ := h i hi
  obtain ⟨y, hy, hxy⟩ := h' x hx
  refine ⟨y, hy, hxy.id.trans hix.id, hxy.terminatedAt.trans hix.terminatedAt, fun hend => ?_⟩
  have hstatus := hix.status hend
  exact (hxy.status (by rwa [hstatus])).trans hstatus

theorem endures_of_instances (h : t'.instances = t.instances) : t.Endures t' :=
  fun i hi => ⟨i, h ▸ hi, stands_refl i⟩

theorem endures_of_map {f : Instance → Instance} (h : t'.instances = t.instances.map f)
    (hf : ∀ i : Instance, i.Stands (f i)) : t.Endures t' :=
  fun i hi => ⟨f i, h ▸ List.mem_map_of_mem hi, hf i⟩

theorem Ends.endures (h : t.Ends id) (he : t.Endures t') (hstep : t'.step = t.step) :
    t'.Ends id := by
  obtain ⟨i, hi, hid, hend, hat⟩ := h
  obtain ⟨x, hx, hix⟩ := he i hi
  refine ⟨x, hx, hix.id.trans hid, ?_, ?_⟩
  · rwa [hix.status hend]
  · rw [hix.terminatedAt, hat, hstep]

end State

theorem endures_updateInstance (s : Step) (id : InstanceId) {f : Instance → Instance}
    (hf : ∀ i : Instance, i.Stands (f i)) : s.state.Endures (s.updateInstance id f).state := by
  rw [Step.updateInstance]
  split
  · exact State.endures_of_instances rfl
  · next k _ =>
    intro i hi
    obtain ⟨j, hj⟩ := List.mem_iff_getElem?.1 hi
    have hget : (s.state.instances.modify k f)[j]? = some (if k = j then f i else i) := by
      rw [List.getElem?_modify, hj]
      split <;> rfl
    refine ⟨_, List.mem_of_getElem? hget, ?_⟩
    split
    · exact hf i
    · exact stands_refl i

/-- In the first half of a round no instance gets lost. -/
theorem endures_gather (e : Engine) (event : Event) (s : Step) :
    s.state.Endures (e.gather event s).1.state := by
  obtain ⟨hlonger, heach⟩ := descends_gather e event s
  intro i hi
  obtain ⟨k, hk⟩ := List.mem_iff_getElem?.1 hi
  have hlt : k < (e.gather event s).1.state.instances.length :=
    Nat.lt_of_lt_of_le (List.getElem?_eq_some_iff.1 hk).1 hlonger
  refine ⟨_, List.getElem_mem hlt, ?_⟩
  rcases heach k _ (List.getElem?_eq_getElem hlt) with ⟨x, hx, hremains⟩ | ⟨hnone, -⟩
  · rw [hk] at hx
    exact Option.some.inj hx ▸ hremains.stands
  · rw [hk] at hnone
    cases hnone

/-! ## The books of a step -/

/-- Nothing that concerns timers has changed between two steps. -/
structure Step.Still (s s' : Step) : Prop where
  timers : s'.state.timers = s.state.timers
  step : s'.state.step = s.state.step
  signals : ∃ more, s'.signals = s.signals ++ more ∧ ∀ x ∈ more, x.Timeless

/-- Some timers were started between two steps, and others were stopped, those of instances that
have come to their ends. -/
structure Clocked (started : List (TimerId × InstanceId)) (s s' : Step) : Prop where
  starts : Signal.startsIn s'.signals = Signal.startsIn s.signals ++ started.map Prod.fst
  stops : ∃ more, Signal.stopsIn s'.signals = Signal.stopsIn s.signals ++ more ∧
    (∀ n, s.state.timerIds.count n + (started.map Prod.fst).count n ≤ 1 →
      s'.state.timerIds.count n + more.count n =
        s.state.timerIds.count n + (started.map Prod.fst).count n) ∧
    ∀ n ∈ more, ∃ id, ((n, id) ∈ s.state.timers ∨ (n, id) ∈ started) ∧ s'.state.Ends id
  known : ∀ x ∈ s'.state.timers, x ∈ s.state.timers ∨ x ∈ started
  ends : ∀ id, s.state.Ends id → s'.state.Ends id

theorem still_of_eq (ht : s'.state.timers = s.state.timers) (hstep : s'.state.step = s.state.step)
    (hs : s'.signals = s.signals) : s.Still s' :=
  ⟨ht, hstep, [], by rw [hs, List.append_nil], List.forall_mem_nil _⟩

theorem still_emit {x : Signal} (hx : x.Timeless) (s : Step) : s.Still (s.emit x) :=
  ⟨rfl, rfl, [x], rfl, List.forall_mem_singleton.2 hx⟩

theorem Step.Still.trans (h : s.Still s') (h' : s'.Still s'') : s.Still s'' := by
  obtain ⟨more, hs, hmore⟩ := h.signals
  obtain ⟨more', hs', hmore'⟩ := h'.signals
  refine ⟨h'.timers.trans h.timers, h'.step.trans h.step, more ++ more',
    by rw [hs', hs, List.append_assoc], fun x hx => ?_⟩
  exact (List.mem_append.1 hx).elim (hmore x) (hmore' x)

theorem Step.Still.starts (h : s.Still s') :
    Signal.startsIn s'.signals = Signal.startsIn s.signals := by
  obtain ⟨more, hs, hmore⟩ := h.signals
  rw [hs, Signal.startsIn_append, Signal.startsIn_timeless hmore, List.append_nil]

theorem Step.Still.stops (h : s.Still s') :
    Signal.stopsIn s'.signals = Signal.stopsIn s.signals := by
  obtain ⟨more, hs, hmore⟩ := h.signals
  rw [hs, Signal.stopsIn_append, Signal.stopsIn_timeless hmore, List.append_nil]

theorem clocked_of_still (h : s.Still s') (he : s.state.Endures s'.state) : Clocked [] s s' := by
  refine ⟨by rw [h.starts, List.map_nil, List.append_nil],
    ⟨[], by rw [h.stops, List.append_nil], fun n _ => ?_, List.forall_mem_nil _⟩, fun x hx => ?_,
    fun id hends => hends.endures he h.step⟩
  · rw [State.timerIds, State.timerIds, h.timers]
    rfl
  · exact .inl (h.timers ▸ hx)

theorem clocked_of_eq (hi : s'.state.instances = s.state.instances)
    (ht : s'.state.timers = s.state.timers) (hstep : s'.state.step = s.state.step)
    (hs : s'.signals = s.signals) : Clocked [] s s' :=
  clocked_of_still (still_of_eq ht hstep hs) (State.endures_of_instances hi)

theorem Clocked.trans {started started' : List (TimerId × InstanceId)} (h : Clocked started s s')
    (h' : Clocked started' s' s'') : Clocked (started ++ started') s s'' := by
  obtain ⟨more, hs, hbalance, hended⟩ := h.stops
  obtain ⟨more', hs', hbalance', hended'⟩ := h'.stops
  have hleft {x : TimerId × InstanceId} (hx : x ∈ s.state.timers ∨ x ∈ started) :
      x ∈ s.state.timers ∨ x ∈ started ++ started' := hx.imp_right (List.mem_append_left _)
  have hboth {x : TimerId × InstanceId} (hx : x ∈ s'.state.timers ∨ x ∈ started') :
      x ∈ s.state.timers ∨ x ∈ started ++ started' :=
    hx.elim (fun hx => hleft (h.known x hx)) fun hx => .inr (List.mem_append_right _ hx)
  refine ⟨?_, ⟨more ++ more', by rw [hs', hs, List.append_assoc], fun n hle => ?_, fun n hn => ?_⟩,
    fun x hx => hboth (h'.known x hx), fun id hends => h'.ends id (h.ends id hends)⟩
  · rw [h'.starts, h.starts, List.map_append, List.append_assoc]
  · rw [List.map_append, List.count_append] at hle ⊢
    have hfirst := hbalance n (by omega)
    have hsecond := hbalance' n (by omega)
    rw [List.count_append]
    omega
  · rcases List.mem_append.1 hn with hn | hn
    · obtain ⟨id, hid, hends⟩ := hended n hn
      exact ⟨id, hleft hid, h'.ends id hends⟩
    · obtain ⟨id, hid, hends⟩ := hended' n hn
      exact ⟨id, hboth hid, hends⟩

theorem Clocked.idle {started : List (TimerId × InstanceId)} (h : Clocked started s s')
    (h' : Clocked [] s' s'') : Clocked started s s'' := by
  have hboth := h.trans h'
  rwa [List.append_nil] at hboth

theorem clocked_foldl {α : Type} {f : Step → α → Step} (started : α → List (TimerId × InstanceId))
    (hf : ∀ s a, Clocked (started a) s (f s a)) (as : List α) (s : Step) :
    Clocked (as.flatMap started) s (as.foldl f s) := by
  induction as generalizing s with
  | nil => exact clocked_of_eq rfl rfl rfl rfl
  | cons a as ih => exact (hf s a).trans (ih (f s a))

theorem clocked_foldl_nil {α : Type} {f : Step → α → Step} (hf : ∀ s a, Clocked [] s (f s a))
    (as : List α) (s : Step) : Clocked [] s (as.foldl f s) := by
  have h := clocked_foldl (fun _ => []) hf as s
  rwa [List.flatMap_eq_nil_iff.2 fun _ _ => rfl] at h

/-! ## Operations -/

theorem clocked_observe (s : Step) (o : Observation) : Clocked [] s (s.observe o) :=
  clocked_of_still (still_emit ⟨rfl, rfl⟩ s) (State.endures_of_instances rfl)

theorem clocked_deliver (s : Step) (m : Emission) : Clocked [] s (deliver s m) := by
  refine clocked_of_still ?_ (State.endures_of_instances (instances_deliver s m))
  rw [deliver]
  cases m.intent with
  | send ev d => cases d <;> exact still_of_eq rfl rfl rfl
  | call r =>
    have hentered : s.Still (s.update fun t => { t with calls := t.calls.invoke m.instanceId r }) :=
      still_of_eq rfl rfl rfl
    exact (hentered.trans (still_emit ⟨rfl, rfl⟩ _)).trans (still_emit ⟨rfl, rfl⟩ _)

theorem clocked_announce (s : Step) (name : String) (payload : Dict String Json) :
    Clocked [] s (s.announce name payload) :=
  clocked_of_eq rfl rfl rfl rfl

theorem clocked_suppress (s : Step) (l : Overridden) : Clocked [] s (suppress s l) := by
  have hnoted : Clocked [] s (s.updateInstance l.emission.instanceId
      (·.noteOverridden l.emission.id)) := by
    refine clocked_of_still ?_ (endures_updateInstance s _ fun i => ⟨rfl, rfl, fun _ => rfl⟩)
    rw [Step.updateInstance]
    split <;> exact still_of_eq rfl rfl rfl
  have hreported := hnoted.idle (clocked_observe _ (.emissionOverridden l.emission.instanceId
    l.emission.name (l.emission.key.getD "") l.winner))
  rw [suppress]
  split
  · exact hreported.idle (clocked_announce _ _ _)
  · next r _ =>
    have henqueued (s : Step) : Clocked [] s (s.enqueue (lostResult l r)) :=
      clocked_of_eq rfl rfl rfl rfl
    exact (hreported.idle (henqueued _)).idle (clocked_announce _ _ _)

/-- A timer that is started is entered in the table. -/
theorem clocked_schedule (s : Step) (id : InstanceId) (r : TimerRequest) :
    Clocked [(r.timer, id)] s (s.schedule id r) := by
  have hends (j : InstanceId) (h : s.state.Ends j) : (s.schedule id r).state.Ends j :=
    h.endures (State.endures_of_instances rfl) rfl
  refine ⟨?_, ⟨[], ?_, fun n hle => ?_, List.forall_mem_nil _⟩, fun x hx => ?_, hends⟩
  · exact Signal.startsIn_append s.signals [.scheduled r.timer r.duration]
  · rw [List.append_nil]
    exact (Signal.stopsIn_append s.signals [.scheduled r.timer r.duration]).trans
      (List.append_nil _)
  · rw [List.count_nil, Nat.add_zero]
    by_cases hn : n = r.timer
    · -- it was not running before
      subst hn
      have hnew : r.timer ∉ Dict.keys s.state.timers := by
        refine fun hmem => absurd (List.count_pos_iff.2 hmem) ?_
        simp only [List.map_cons, List.map_nil, List.count_singleton_self] at hle
        rw [State.timerIds] at hle
        omega
      have hperm := (Dict.put_perm hnew id).map Prod.fst
      rw [show [(r.timer, id)].map Prod.fst = [r.timer] from rfl, List.count_singleton_self]
      exact (hperm.count_eq r.timer).trans List.count_cons_self
    · rw [show [(r.timer, id)].map Prod.fst = [r.timer] from rfl,
        List.count_singleton, if_neg (by simpa using Ne.symm hn), Nat.add_zero]
      exact Dict.count_keys_put_of_ne hn id
  · exact (Dict.mem_put hx).symm.imp_right fun hx => List.mem_singleton.2 hx

/-! ## Rounds -/

namespace Engine

/-- The timers that some instances ask for, and whose they are. -/
def timersOf (requests : Requests) : List (TimerId × InstanceId) :=
  requests.flatMap fun r => r.2.timers.map fun t => (t.timer, r.1)

/-- The timers that are started in a round. -/
def startedIn (e : Engine) (round : Step × Event) : List (TimerId × InstanceId) :=
  timersOf (e.gather round.2 round.1).2

end Engine

theorem still_gather (e : Engine) (event : Event) (s : Step) : s.Still (e.gather event s).1 := by
  have hstarts : e.StartsKeep fun s' _ => s.Still s' := by
    refine ⟨fun _ _ h => h.trans (still_emit ⟨rfl, rfl⟩ _), fun _ h => ?_, fun h => ?_,
      fun _ _ _ _ h => ?_⟩ <;> exact h.trans (still_of_eq rfl rfl rfl)
  have hmoves : e.MovesKeep event fun s' _ => s.Still s' :=
    ⟨fun _ h => h.trans (still_of_eq rfl rfl rfl), fun _ _ _ h => h.trans (still_of_eq rfl rfl rfl)⟩
  exact hstarts.gather (hmoves.moveHeads (still_of_eq rfl rfl rfl))

theorem clocked_apply (e : Engine) (s : Step) (requests : Requests) :
    Clocked (timersOf requests) s (e.apply s requests) := by
  have hties := clocked_foldl_nil (f := fun (s : Step) (t : Tie) =>
    s.observe (.tieBroken t.key t.winner t.runnerUp t.unresolvable)) fun s t => clocked_observe s _
  have hwon := clocked_foldl_nil clocked_deliver
  have hlost := clocked_foldl_nil clocked_suppress
  have htimers := clocked_foldl (f := fun (s : Step) (t : InstanceId × TimerRequest) =>
    s.schedule t.1 t.2) (fun t => [(t.2.timer, t.1)]) fun s t => clocked_schedule s t.1 t.2
  have hall (r : Resolution) (timers : List (InstanceId × TimerRequest)) :=
    (((hties r.ties s).idle (hwon r.winners _)).idle (hlost r.overridden _)).trans
      (htimers timers _)
  have hsame : (requests.flatMap fun r => r.2.timers.map (r.1, ·)).flatMap
      (fun t => [(t.2.timer, t.1)]) = timersOf requests := by
    rw [timersOf, List.flatMap_assoc]
    refine List.flatMap_congr fun r _ => ?_
    rw [List.flatMap_map, List.map_eq_flatMap]
  have h := hall (Conflict.resolve e.config.tieBreak (emissionsOf requests))
    (requests.flatMap fun r => r.2.timers.map (r.1, ·))
  rwa [List.nil_append, hsame] at h

/-! ## Winding up -/

theorem stopTimersOf_spec (s : Step) (id : InstanceId) :
    (s.stopTimersOf id).state.timers = s.state.timers.filter (fun t => t.1 ∉ s.state.timersFor id) ∧
      (s.stopTimersOf id).signals = s.signals ++ (s.state.timersFor id).map .timerCancelled := by
  have hfold (ns : List TimerId) (s : Step) :
      (ns.foldl (fun s n => (s.update fun t => { t with timers := Dict.remove t.timers n }).emit
        (.timerCancelled n)) s).state.timers = s.state.timers.filter (fun t => t.1 ∉ ns) ∧
      (ns.foldl (fun s n => (s.update fun t => { t with timers := Dict.remove t.timers n }).emit
        (.timerCancelled n)) s).signals = s.signals ++ ns.map .timerCancelled := by
    induction ns generalizing s with
    | nil => exact ⟨(List.filter_eq_self.2 fun _ _ => rfl).symm, (List.append_nil _).symm⟩
    | cons n ns ih =>
      obtain ⟨htimers, hsignals⟩ := ih ((s.update fun t =>
        { t with timers := Dict.remove t.timers n }).emit (.timerCancelled n))
      refine ⟨?_, hsignals.trans (List.append_assoc ..)⟩
      rw [List.foldl_cons, htimers]
      refine (List.filter_filter ..).trans (List.filter_congr fun t _ => ?_)
      simp [Bool.and_comm]
  exact hfold (s.state.timersFor id) s

/-- What becomes of timers and signals when an instance is wound up. -/
theorem windUp_spec {k : Nat} {i : Instance} (hi : s.state.instances[k]? = some i) :
    (windUp s k).state.timers = s.state.timers.filter (fun t => t.1 ∉ s.state.timersFor i.id) ∧
      ∃ more, (∀ x ∈ more, x.Timeless) ∧ (windUp s k).signals =
        s.signals ++ more ++ (s.state.timersFor i.id).map .timerCancelled := by
  obtain ⟨given, hretracts, -, heq⟩ := windUp_eq hi
  obtain ⟨htimers, hsignals⟩ := stopTimersOf_spec given i.id
  obtain ⟨more, hs, hmore⟩ := hretracts.signals
  have hsame : given.state.timers = s.state.timers := by
    rw [hretracts.state]
    rfl
  rw [State.timersFor, hsame] at htimers hsignals
  rw [heq]
  refine ⟨htimers, more, fun x hx => (hmore x hx).2, hsignals.trans ?_⟩
  rw [hs]
  rfl

theorem count_timersFor_le (t : State) (id : InstanceId) (n : TimerId) :
    (t.timersFor id).count n ≤ t.timerIds.count n :=
  (List.filter_sublist.map Prod.fst).count_le n

/-- When an instance that has ended is wound up, its timers are stopped. -/
theorem clocked_windUp {k : Nat} {i : Instance} (hi : s.state.instances[k]? = some i)
    (hend : i.status.isTerminal = true) : Clocked [] s (windUp s k) := by
  obtain ⟨htimers, more, hmore, hsignals⟩ := windUp_spec hi
  have hstarts : Signal.startsIn (windUp s k).signals = Signal.startsIn s.signals := by
    rw [hsignals, Signal.startsIn_append, Signal.startsIn_append, Signal.startsIn_timeless hmore,
      Signal.startsIn_stops, List.append_nil, List.append_nil]
  have hstops : Signal.stopsIn (windUp s k).signals =
      Signal.stopsIn s.signals ++ s.state.timersFor i.id := by
    rw [hsignals, Signal.stopsIn_append, Signal.stopsIn_append, Signal.stopsIn_timeless hmore,
      Signal.stopsIn_stops, List.append_nil]
  have hget (j : Nat) := getElem?_windUp s k j
  have hends : (windUp s k).state.Ends i.id := by
    obtain ⟨hk, hstep⟩ := hget k
    rw [hi, Option.map_some, if_pos rfl] at hk
    exact ⟨_, List.mem_of_getElem? hk, rfl, hend, congrArg some hstep.symm⟩
  refine ⟨by rw [hstarts]; exact (List.append_nil _).symm, ⟨_, hstops, fun n hle => ?_,
    fun n hn => ?_⟩, fun x hx => ?_, ?_⟩
  · have hkeys : (windUp s k).state.timerIds =
        s.state.timerIds.filter fun n => n ∉ s.state.timersFor i.id := by
      rw [State.timerIds, State.timerIds, Dict.keys, Dict.keys, htimers, List.filter_map]
      rfl
    rw [List.map_nil, List.count_nil, Nat.add_zero] at hle ⊢
    by_cases hn : n ∈ s.state.timersFor i.id
    · have hpos := List.count_pos_iff.2 hn
      have hsub := count_timersFor_le s.state i.id n
      have hgone : (windUp s k).state.timerIds.count n = 0 := by
        rw [hkeys]
        refine List.count_eq_zero.2 fun hmem => ?_
        simp [hn] at hmem
      omega
    · rw [hkeys, List.count_filter (by simpa using hn), List.count_eq_zero.2 hn, Nat.add_zero]
  · obtain ⟨x, hx, rfl⟩ := List.mem_map.1 hn
    obtain ⟨hx, hid⟩ := List.mem_filter.1 hx
    rw [decide_eq_true_eq] at hid
    exact ⟨i.id, .inl (hid ▸ hx), hends⟩
  · rw [htimers] at hx
    exact .inl (List.mem_filter.1 hx).1
  · rintro id ⟨x, hx, hid, hterm, hat⟩
    obtain ⟨j, hj⟩ := List.mem_iff_getElem?.1 hx
    obtain ⟨hj', hstep⟩ := hget j
    rw [hj, Option.map_some] at hj'
    refine ⟨_, List.mem_of_getElem? hj', ?_⟩
    rw [hstep]
    split
    · exact ⟨hid, hterm, rfl⟩
    · exact ⟨hid, hterm, hat⟩

theorem clocked_windUpEnded (s : Step) : Clocked [] s (windUpEnded s) := by
  have hall : ∀ ks : List Nat, ∀ s : Step, (∀ k ∈ ks, ∃ i, s.state.instances[k]? = some i ∧
      i.status.isTerminal = true) → Clocked [] s (ks.foldl windUp s) := by
    intro ks
    induction ks with
    | nil =>
      exact fun s _ => clocked_of_eq rfl rfl rfl rfl
    | cons k ks ih =>
      intro s hks
      obtain ⟨⟨i, hi, hend⟩, hks⟩ := List.forall_mem_cons.1 hks
      refine (clocked_windUp hi hend).idle (ih _ fun j hj => ?_)
      obtain ⟨x, hx, hterm⟩ := hks j hj
      rw [(getElem?_windUp s k j).1, hx]
      refine ⟨_, rfl, ?_⟩
      split <;> exact hterm
  refine hall (ended s) s fun k hk => ?_
  obtain ⟨i, hi, hend⟩ := mem_ended.1 hk
  rw [isEnded, Bool.and_eq_true] at hend
  exact ⟨i, hi, hend.1⟩

/-- In a round the timers are started that heads ask for. -/
theorem clocked_round (e : Engine) (s : Step) (event : Event) :
    Clocked (e.startedIn (s, event)) s (e.round s event) := by
  have hgather := clocked_of_still (still_gather e event s) (endures_gather e event s)
  have h := hgather.trans (clocked_apply e _ (e.gather event s).2)
  rw [List.nil_append] at h
  exact h.idle (clocked_windUpEnded _)

theorem clocked_drain (s : Step) : Clocked [] s s.drain := by
  refine clocked_of_still ⟨rfl, rfl, _, rfl, fun x hx => ?_⟩
    (State.endures_of_map rfl fun i => ⟨rfl, rfl, fun _ => rfl⟩)
  obtain ⟨o, -, rfl⟩ := List.mem_map.1 hx
  exact ⟨rfl, rfl⟩

theorem clocked_nextFresh {queue : List Event} {o : Option Event}
    (hn : nextFresh s queue = (s', o)) : Clocked [] s s' := by
  fun_induction nextFresh s queue with
  | case1 s =>
    cases hn
    exact clocked_of_eq rfl rfl rfl rfl
  | case2 s ev rest _ ih => exact (clocked_observe s _).idle (ih hn)
  | case3 s ev rest =>
    cases hn
    exact clocked_of_eq rfl rfl rfl rfl

/-- **While a queue is worked off, the timers are started that heads ask for in its rounds.** -/
theorem clocked_runQueue (e : Engine) (budget : Nat) (s : Step) :
    Clocked ((e.roundsFrom budget s).flatMap e.startedIn) s (e.runQueue budget s) := by
  induction budget generalizing s with
  | zero =>
    rw [runQueue]
    split
    · exact clocked_of_eq rfl rfl rfl rfl
    · exact (clocked_observe s _).idle (clocked_of_eq rfl rfl rfl rfl)
  | succ budget ih =>
    rw [runQueue, roundsFrom]
    generalize hn : nextFresh s s.queue = r
    obtain ⟨s', _ | event⟩ := r
    · exact clocked_nextFresh hn
    · have hround := (clocked_nextFresh hn).trans (clocked_round e s' event)
      rw [List.nil_append] at hround
      exact (hround.idle (clocked_drain _)).trans (ih _)

/-! ## Requests -/

namespace Engine

/-- The timers that are started for a request, and whose they are. -/
def startedBy (e : Engine) (s : State) (r : Request) : List (TimerId × InstanceId) :=
  (e.roundsBy s r).flatMap e.startedIn

/-- The timer whose firing an event is, if the event is valid and the timer is running. -/
def firedOf (s : State) (event : Event) : List TimerId :=
  match event.check with
  | .error _ => []
  | .ok () => (event.timer?.filter fun n => Dict.has s.timers n).toList

/-- The running timer whose firing a request is. -/
def firedBy (s : State) : Request → List TimerId
  | .named name payload => firedOf s ⟨s.ids.nextEvent.1, name, payload, .external⟩
  | .event event => firedOf s event
  | .abort _ _ => []

end Engine

/-- How a request changes the books. -/
structure Timed (started : List (TimerId × InstanceId)) (fired : List TimerId) (s : State)
    (reply : Reply) : Prop where
  starts : Signal.startsIn reply.signals = started.map Prod.fst
  known : ∀ x ∈ reply.state.timers, x ∈ s.timers ∨ x ∈ started
  balance : ∀ n, s.timerIds.count n + (started.map Prod.fst).count n ≤ 1 →
    s.timerIds.count n + (started.map Prod.fst).count n =
      reply.state.timerIds.count n + fired.count n + (Signal.stopsIn reply.signals).count n
  ended : ∀ n ∈ Signal.stopsIn reply.signals,
    ∃ id, ((n, id) ∈ s.timers ∨ (n, id) ∈ started) ∧ reply.state.Ends id

/-- The books of a request are those of what happens once it has begun, and once a timer has fired
if it is a firing. -/
theorem timed_of_clocked {start last : Step} {started : List (TimerId × InstanceId)}
    {fired : List TimerId} (h : Clocked started start last)
    (hstarts : Signal.startsIn start.signals = []) (hstops : Signal.stopsIn start.signals = [])
    (hknown : ∀ x ∈ start.state.timers, x ∈ t.timers)
    (hfired : ∀ n, t.timerIds.count n ≤ 1 →
      start.state.timerIds.count n + fired.count n = t.timerIds.count n) :
    Timed started fired t (.ofStep last) := by
  have h := h.idle (clocked_drain last)
  obtain ⟨more, hs, hbalance, hended⟩ := h.stops
  rw [hstops, List.nil_append] at hs
  have hstopped : Signal.stopsIn (Reply.ofStep last).signals = more := hs
  refine ⟨?_, fun x hx => (h.known x hx).imp_left (hknown x), fun n hle => ?_, fun n hn => ?_⟩
  · have hall := h.starts
    rwa [hstarts, List.nil_append] at hall
  · have hfirst := hfired n (by omega)
    have hsecond := hbalance n (by omega)
    rw [hstopped]
    rw [show (Reply.ofStep last).state = last.drain.state from rfl]
    omega
  · obtain ⟨id, hid, hends⟩ := hended n (hstopped ▸ hn)
    exact ⟨id, hid.imp_left (hknown _), hends⟩

theorem timed_refuse (t : State) (err : Error) : Timed [] [] t (.refuse t err) :=
  ⟨rfl, fun _ hx => .inl hx, fun _ _ => rfl, List.forall_mem_nil _⟩

theorem still_beginStep (e : Engine) (t : State) :
    (Step.begin (e.counted t)).Still (e.beginStep t) := by
  have hretracts := e.retracts_beginStep t
  obtain ⟨more, hs, hmore⟩ := hretracts.signals
  exact ⟨by rw [hretracts.state], by rw [hretracts.state], more, hs, fun x hx => (hmore x hx).2⟩

/-- The books of a request that fires no timer. -/
theorem timed_of_begun {start last : Step} {started : List (TimerId × InstanceId)}
    (hbegin : (e.beginStep t).Still start) (h : Clocked started start last) :
    Timed started [] t (.ofStep last) := by
  have hstill := (still_beginStep e t).trans hbegin
  refine timed_of_clocked h hstill.starts hstill.stops (fun x hx => ?_) fun n _ => ?_
  · rwa [hstill.timers] at hx
  · rw [State.timerIds, hstill.timers]
    rfl

theorem timer?_eq_none {event : Event} (h : event.name ≠ Event.timerFiredName) :
    event.timer? = none := by
  rw [Event.timer?, if_neg h]

/-- An event fires nothing that does not name a running timer. -/
theorem firedOf_eq_nil {event : Event}
    (h : ∀ n, event.timer? = some n → Dict.has t.timers n = false) : firedOf t event = [] := by
  rw [firedOf]
  split
  · rfl
  · cases hn : event.timer? with
    | none => rfl
    | some n => simp [h n hn]

theorem firedOf_of_ne {event : Event} (h : event.name ≠ Event.timerFiredName) :
    firedOf t event = [] :=
  firedOf_eq_nil fun n hn => by simp [timer?_eq_none h] at hn

/-- A timer that fires leaves the books, and no other does. -/
theorem count_timerIds_remove {timer : TimerId} (hruns : Dict.has t.timers timer = true)
    {n : TimerId} (hle : t.timerIds.count n ≤ 1) :
    (Dict.keys (Dict.remove t.timers timer)).count n + [timer].count n = t.timerIds.count n := by
  have hpos := List.count_pos_iff.2 (Dict.mem_keys_of_has hruns)
  rw [State.timerIds] at hle ⊢
  rw [Dict.count_keys_remove]
  by_cases hnt : n = timer
  · subst hnt
    rw [if_pos rfl, List.count_singleton_self]
    omega
  · rw [if_neg hnt, List.count_singleton, if_neg (by simpa using Ne.symm hnt), Nat.add_zero]

theorem timed_handle (e : Engine) (t : State) (event : Event) :
    Timed (((e.openingOf? t event).elim [] (e.roundsFrom e.config.maxEventsPerStep)).flatMap
      e.startedIn) (firedOf t event) t (e.handle t event) := by
  have hbegin := still_beginStep e t
  have hsame : (e.beginStep t).state.timers = t.timers := hbegin.timers
  have htakes := e.takes t event
  have hresult (h : event.name = Event.actionResultName) : firedOf t event = [] :=
    firedOf_of_ne fun hfired => absurd (h.symm.trans hfired) (by decide)
  generalize e.handle t event = reply at htakes ⊢
  generalize e.openingOf? t event = o at htakes ⊢
  cases htakes with
  | refused err hcheck =>
    rw [firedOf, hcheck]
    exact timed_refuse t err
  | idle silent =>
    rw [firedOf_eq_nil fun n hn => ?_]
    · exact timed_of_begun (still_of_eq rfl rfl rfl) (clocked_of_eq rfl rfl rfl rfl)
    · rw [← hsame]
      refine silent ?_ n hn
      by_contra hname
      simp [timer?_eq_none hname] at hn
  | late n hn ha hres =>
    rw [hresult hres]
    exact timed_of_begun (still_of_eq rfl rfl rfl) (clocked_observe _ _)
  | accepted n calls hres hn ha =>
    rw [hresult hres]
    have hopened : (e.beginStep t).Still (e.opened t event fun t => { t with calls }) :=
      still_of_eq rfl rfl rfl
    exact timed_of_begun hopened ((clocked_runQueue e _ _).idle (clocked_of_eq rfl rfl rfl rfl))
  | fired timer _ hcheck _ hn hruns =>
    rw [hsame] at hruns
    have hfired : firedOf t event = [timer] := by
      rw [firedOf, hcheck, hn]
      simp [hruns]
    rw [hfired]
    refine timed_of_clocked (clocked_runQueue e _ _) hbegin.starts hbegin.stops (fun x hx => ?_)
      fun n hle => ?_
    · exact hsame ▸ (List.mem_filter.1 hx).1
    · refine Eq.trans ?_ (count_timerIds_remove hruns hle)
      rw [← hsame]
      rfl
  | processed _ hplain =>
    rw [firedOf_of_ne hplain]
    have hopened : (e.beginStep t).Still (e.opened t event id) := still_of_eq rfl rfl rfl
    exact timed_of_begun hopened (clocked_runQueue e _ _)

/-- **How a request changes the books of timers.** -/
theorem timed_respond (e : Engine) (t : State) (r : Request) :
    Timed (e.startedBy t r) (firedBy t r) t (e.respond t r) := by
  cases r with
  | named name payload =>
    have h := timed_handle e { t with ids := t.ids.nextEvent.2 }
      ⟨t.ids.nextEvent.1, name, payload, .external⟩
    exact ⟨h.starts, h.known, h.balance, h.ended⟩
  | event event => exact timed_handle e t event
  | abort id reason =>
    have hgives := e.givesUp t id reason
    rw [startedBy, roundsBy, respond]
    generalize e.abort t id reason = reply at hgives ⊢
    generalize e.opening? t (.abort id reason) = o at hgives ⊢
    cases hgives with
    | refused => exact timed_refuse t _
    | aborted =>
      have hupdated : Clocked [] (e.beginStep t)
          ((e.beginStep t).updateInstance id (·.abort reason)) := by
        refine clocked_of_still ?_ (endures_updateInstance _ id fun i =>
          (remains_abort i reason).stands)
        rw [Step.updateInstance]
        split <;> exact still_of_eq rfl rfl rfl
      exact timed_of_begun (still_of_eq rfl rfl rfl)
        ((hupdated.idle (clocked_windUpEnded _)).trans (clocked_runQueue e _ _))

end Timers

end EventFlow

import EventFlow.Proofs.Engine.Growth
import EventFlow.Proofs.Engine.Orphans
import Mathlib.Data.List.Chain

/-!
# The end of an instance

An instance that has ended is wound up at the end of the same round: the step is noted, and an event
announces the end.  From then on it is a record that nobody touches, and that is let go after as
many steps as the configuration says.

## What is here

* `Engine.momentsBy` are the states of a request that can be looked at: where a round begins, and
  where the request is answered.
* `Ending` is the announcement of an end.  **`queue_windUpEnded_eq`** says that winding up queues
  exactly the announcements of those that have ended.
* `State.Lived` is what holds of the instances at every moment, given what was announced before, and
  `State.Leads` what happens to them between two moments of a step.
* `Engine.Proceeds` lists the ways a request may go, as far as instances are concerned.

**`ends_are_final`** is the result, for all runs of an engine.
-/

set_option autoImplicit false

namespace EventFlow

variable {Compiled Found : Type} [Query.Library Compiled Found]

/-! ## Announcements -/

/-- The announcement that an instance has ended. -/
structure Ending where
  /-- The number of the instance. -/
  number : Nat
  step : Nat
  event : Event

/-- The event by which the end of an instance is announced. -/
def Instance.ending (i : Instance) (id : EventId) : Event :=
  ⟨id, if i.status = .aborted then Event.abortedName else Event.finishedName, Engine.endNotice i,
    .internal⟩

/-- The announcements of some ends in one step, with identities from a source. -/
def Ending.all (step : Nat) : IdSource → List Instance → List Ending
  | _, [] => []
  | ids, i :: is =>
    ⟨i.createdAt, step, i.ending ids.nextEvent.1⟩ :: Ending.all step ids.nextEvent.2 is

/-- What is announced when the instances are wound up that have ended. -/
def Step.endings (s : Step) : List Ending :=
  Ending.all s.state.step s.state.ids (s.state.instances.filter Engine.isEnded)

/-! ## Moments -/

/-- What holds of the dates of instances between rounds: a date is noted of whoever has ended, and
it is not longer ago than instances are kept. -/
structure State.Dated (g : Nat) (s : State) : Prop extends s.Numbered where
  marked : ∀ i ∈ s.instances, i.terminatedAt.isSome = i.status.isTerminal
  recent : ∀ i ∈ s.instances, ∀ t, i.terminatedAt = some t → t ≤ s.step ∧ s.step ≤ t + g

/-- What holds between rounds, given what was announced so far: every end was announced in its step,
and no number is announced twice. -/
structure State.Lived (g : Nat) (told : List Ending) (s : State) : Prop extends s.Dated g where
  once : (told.map Ending.number).Nodup
  known : ∀ a ∈ told, a.number < s.nextInstance
  silent : ∀ i ∈ s.instances, i.terminatedAt = none → i.createdAt ∉ told.map Ending.number
  announced : ∀ i ∈ s.instances, ∀ t, i.terminatedAt = some t →
    ∃ id, ⟨i.createdAt, t, i.ending id⟩ ∈ told

/-- The instances are the same, but for observations that are handed on. -/
def State.Same (s s' : State) : Prop :=
  ∃ f : Instance → Instance, (∀ i, ∃ observations, f i = { i with observations }) ∧
    s'.instances = s.instances.map f ∧ s'.step = s.step ∧ s'.nextInstance = s.nextInstance

/-- What happens to instances between two moments of a step: all of them last, and whoever has a
date has had it before, or it is that of the step. -/
structure State.Leads (s s' : State) : Prop where
  step : s'.step = s.step
  fresh : s.nextInstance ≤ s'.nextInstance
  stays : ∀ i ∈ s.instances, ∃ i' ∈ s'.instances, i.Lasts i'
  known : ∀ i' ∈ s'.instances, i'.createdAt < s.nextInstance → ∃ i ∈ s.instances, i.Lasts i'
  dates : ∀ i' ∈ s'.instances, ∀ t, i'.terminatedAt = some t →
    t = s'.step ∨ ∃ i ∈ s.instances, i.Lasts i' ∧ i.terminatedAt = some t

section Lifetimes

open Engine

variable {e : Engine} {s c : Step} {t t' t'' : State} {event : Event} {g : Nat}
  {told : List Ending} {i i' : Instance}

/-! ## Winding up -/

theorem windUp_queue {k : Nat} (hi : s.state.instances[k]? = some i) :
    (windUp s k).queue = s.queue ++ [i.ending s.state.ids.nextEvent.1] ∧
      (windUp s k).state.ids = s.state.ids.nextEvent.2 := by
  obtain ⟨given, hretracts, -, heq⟩ := windUp_eq hi
  have hstopped : (given.stopTimersOf i.id).state.ids = given.state.ids :=
    List.foldlRecOn _ _ (motive := fun s' : Step => s'.state.ids = given.state.ids) rfl
      fun _ hs _ _ => hs
  have hids : (given.stopTimersOf i.id).state.ids = s.state.ids := by
    rw [hstopped, hretracts.state]
    rfl
  rw [heq, ← hids]
  exact ⟨congrArg (· ++ [_]) ((queue_stopTimersOf given i.id).1.trans hretracts.queue), rfl⟩

/-- Winding up the instances at some places announces their ends in order. -/
theorem queue_foldl_windUp {ks : List Nat} (hd : ks.Nodup)
    (hks : ∀ k ∈ ks, ∃ i, s.state.instances[k]? = some i) :
    (ks.foldl windUp s).queue = s.queue ++
      (Ending.all s.state.step s.state.ids
        (ks.filterMap (s.state.instances[·]?))).map Ending.event := by
  induction ks generalizing s with
  | nil => exact (List.append_nil _).symm
  | cons k ks ih =>
    obtain ⟨⟨i, hi⟩, hks⟩ := List.forall_mem_cons.1 hks
    obtain ⟨hnot, hd⟩ := List.nodup_cons.1 hd
    obtain ⟨hqueue, hids⟩ := windUp_queue hi
    -- the instances at the other places are still as they were
    have hothers (j : Nat) (hj : j ∈ ks) :
        (windUp s k).state.instances[j]? = s.state.instances[j]? := by
      have hne : j ≠ k := fun heq => hnot (heq ▸ hj)
      rw [(getElem?_windUp s k j).1]
      simp [hne]
    rw [List.foldl_cons, ih hd fun j hj => hothers j hj ▸ hks j hj, List.filterMap_congr hothers,
      hqueue, hids, (getElem?_windUp s k k).2, List.filterMap_cons, hi, List.append_assoc]
    rfl

theorem filterMap_ended (s : Step) :
    (ended s).filterMap (s.state.instances[·]?) = s.state.instances.filter isEnded := by
  have hplaces : ∀ p ∈ s.state.instances.zipIdx.filter fun p => isEnded p.1,
      s.state.instances[p.2]? = some p.1 := fun p hp =>
    List.mem_zipIdx_iff_getElem?.1 (List.mem_filter.1 hp).1
  calc (ended s).filterMap (s.state.instances[·]?)
      = (s.state.instances.zipIdx.filter fun p => isEnded p.1).filterMap
          fun p => s.state.instances[p.2]? := List.filterMap_map
    _ = (s.state.instances.zipIdx.filter fun p => isEnded p.1).map Prod.fst := by
      rw [List.filterMap_congr hplaces, ← List.filterMap_eq_map]
      rfl
    _ = (s.state.instances.zipIdx.map Prod.fst).filter isEnded := by
      rw [List.filter_map]
      rfl
    _ = s.state.instances.filter isEnded := by rw [List.zipIdx_map_fst]

/-- **Winding up announces the ends of all that have ended**, and queues nothing else. -/
theorem queue_windUpEnded_eq (s : Step) :
    (windUpEnded s).queue = s.queue ++ s.endings.map Ending.event := by
  have hd : (ended s).Nodup := by
    refine List.Nodup.sublist (List.filter_sublist.map Prod.snd) ?_
    rw [List.zipIdx_map_snd]
    exact List.nodup_range'
  rw [windUpEnded, queue_foldl_windUp hd fun k hk => ?_, filterMap_ended]
  · rfl
  · obtain ⟨i, hi, -⟩ := mem_ended.1 hk
    exact ⟨i, hi⟩

theorem nextInstance_windUpEnded (s : Step) :
    (windUpEnded s).state.nextInstance = s.state.nextInstance := by
  refine List.foldlRecOn (ended s) windUp
    (motive := fun s' => s'.state.nextInstance = s.state.nextInstance) rfl fun s' hs k _ => ?_
  refine windUp_preserves (P := fun t => t.state.nextInstance = s.state.nextInstance) hs
    (fun _ _ => hs) (fun i _ _ h => ?_) (fun s' id h => ?_) fun _ _ _ h => h
  · rw [(retracts_cancelCallsOf _ i.id).state]
    exact h
  · exact List.foldlRecOn _ _ (motive := fun t : Step =>
      t.state.nextInstance = s.state.nextInstance) h fun _ h _ _ => h

theorem step_windUpEnded (s : Step) : (windUpEnded s).state.step = s.state.step :=
  (getElem?_foldl_windUp (ended s) s 0).2

theorem lasts_noteEnd (step : Nat) (i : Instance) : i.Lasts (noteEnd step i) := by
  rw [noteEnd]
  split
  · next hend =>
    refine ⟨rfl, fun _ => ⟨rfl, rfl, rfl⟩, fun hsome => ?_⟩
    rw [isEnded, Bool.and_eq_true, Option.isNone_iff_eq_none] at hend
    rw [hend.2] at hsome
    cases hsome
  · exact lasts_refl i

/-- An announcement tells nothing that changes when an instance has ended. -/
theorem Instance.Lasts.ending (h : i.Lasts i') (hend : i.status.isTerminal = true) (id : EventId) :
    i'.ending id = i.ending id := by
  obtain ⟨hstatus, -, hreason⟩ := h.ended hend
  have hid : i'.id = i.id := congrArg Instance.Origin.id h.origin
  have hflow : i'.flow = i.flow := congrArg Instance.Origin.flow h.origin
  have hparent : i'.parent = i.parent := congrArg Instance.Origin.parent h.origin
  simp only [Instance.ending, endNotice, hstatus, hreason, hid, hflow, hparent]

theorem mem_windUpEnded (hi : i ∈ (windUpEnded c).state.instances) :
    ∃ x ∈ c.state.instances, isEnded x = true ∧ i = { x with terminatedAt := some c.state.step } ∨
      isEnded x = false ∧ i = x := by
  rw [instances_windUpEnded] at hi
  obtain ⟨x, hx, rfl⟩ := List.mem_map.1 hi
  refine ⟨x, hx, ?_⟩
  rw [noteEnd]
  split
  · next hend => exact .inl ⟨hend, rfl⟩
  · next hnot => exact .inr ⟨by simpa using hnot, rfl⟩

/-! ## What holds at every moment -/

theorem Ending.number_all (step : Nat) (ids : IdSource) (is : List Instance) :
    (Ending.all step ids is).map Ending.number = is.map Instance.createdAt := by
  induction is generalizing ids with
  | nil => rfl
  | cons i is ih => exact congrArg (i.createdAt :: ·) (ih _)

theorem Ending.mem_all (step : Nat) (ids : IdSource) {is : List Instance} (hi : i ∈ is) :
    ∃ id, ⟨i.createdAt, step, i.ending id⟩ ∈ Ending.all step ids is := by
  induction is generalizing ids with
  | nil => cases hi
  | cons x is ih =>
    rcases List.mem_cons.1 hi with rfl | hi
    · exact ⟨_, List.mem_cons_self⟩
    · obtain ⟨id, hmem⟩ := ih ids.nextEvent.2 hi
      exact ⟨id, List.mem_cons_of_mem _ hmem⟩

namespace State

theorem Numbered.congr (h : t.Numbered) (hnumbers : t'.numbers = t.numbers)
    (hnext : t'.nextInstance = t.nextInstance) : t'.Numbered :=
  ⟨hnumbers ▸ h.sorted, fun n hn => hnext ▸ h.below n (hnumbers ▸ hn)⟩

/-- Whoever has a date when instances have grown had it before, as it was. -/
theorem Dated.old (h : t.Dated g) (hg : t.Grows t') (hi' : i' ∈ t'.instances) {n : Nat}
    (hat : i'.terminatedAt = some n) : ∃ i ∈ t.instances, i.Lasts i' ∧
      i.status.isTerminal = true ∧ i.terminatedAt = some n := by
  rcases hg.old_or_new hi' with ⟨i, hi, hlasts, hsame⟩ | ⟨-, hnone⟩
  · have hdate := hsame.symm.trans hat
    exact ⟨i, hi, hlasts, by rw [← h.marked i hi, hdate]; rfl, hdate⟩
  · rw [hnone] at hat
    cases hat

theorem Dated.windUpEnded (h : t.Dated g) (hg : t.Grows c.state) :
    (windUpEnded c).state.Dated g := by
  refine ⟨(h.toNumbered.grows hg).congr ?_ (nextInstance_windUpEnded c), fun i hi => ?_,
    fun i hi n hat => ?_⟩
  · rw [State.numbers, instances_windUpEnded, List.map_map]
    exact List.map_congr_left fun i _ => (lasts_noteEnd _ i).createdAt
  · rw [instances_windUpEnded] at hi
    obtain ⟨x, hx, rfl⟩ := List.mem_map.1 hi
    refine marked_noteEnd _ fun hat => ?_
    obtain ⟨n, hn⟩ := Option.isSome_iff_exists.1 hat
    obtain ⟨y, -, hlasts, hterm, -⟩ := h.old hg hx hn
    rw [(hlasts.ended hterm).1, hterm]
  · rw [step_windUpEnded, hg.step]
    obtain ⟨x, hx, ⟨-, rfl⟩ | ⟨-, rfl⟩⟩ := mem_windUpEnded hi
    · cases hat
      rw [hg.step]
      omega
    · obtain ⟨y, hy, -, -, hdate⟩ := h.old hg hx hat
      exact h.recent y hy n hdate

/-- Winding up after instances have grown announces every end, and none of them twice. -/
theorem Lived.windUpEnded (h : t.Lived g told) (hg : t.Grows c.state) :
    (windUpEnded c).state.Lived g (told ++ c.endings) := by
  have hnumbered := h.toNumbered.grows hg
  have hends : c.endings.map Ending.number =
      (c.state.instances.filter isEnded).map Instance.createdAt := Ending.number_all ..
  have hsilent {x : Instance} (hx : x ∈ c.state.instances) (hat : x.terminatedAt = none) :
      x.createdAt ∉ told.map Ending.number := by
    intro hmem
    rcases hg.old_or_new hx with ⟨i, hi, hlasts, hsame⟩ | ⟨hfree, -⟩
    · exact h.silent i hi (hsame.symm.trans hat) (hlasts.createdAt ▸ hmem)
    · obtain ⟨a, ha, hnumber⟩ := List.mem_map.1 hmem
      have := h.known a ha
      omega
  refine ⟨h.toDated.windUpEnded hg, ?_, fun a ha => ?_, fun i hi hnone => ?_,
    fun i hi n hat => ?_⟩
  · rw [List.map_append, List.nodup_append]
    refine ⟨h.once, ?_, fun a ha b hb hab => ?_⟩
    · rw [hends]
      exact (hnumbered.sorted.imp Nat.ne_of_lt).sublist (List.filter_sublist.map _)
    · rw [hends] at hb
      obtain ⟨x, hx, rfl⟩ := List.mem_map.1 hb
      obtain ⟨hx, hend⟩ := List.mem_filter.1 hx
      rw [isEnded, Bool.and_eq_true, Option.isNone_iff_eq_none] at hend
      exact hsilent hx hend.2 (hab ▸ ha)
  · rw [nextInstance_windUpEnded]
    rcases List.mem_append.1 ha with ha | ha
    · exact Nat.lt_of_lt_of_le (h.known a ha) hg.nextInstance_le
    · have hmem := List.mem_map_of_mem (f := Ending.number) ha
      rw [hends] at hmem
      obtain ⟨x, hx, hnumber⟩ := List.mem_map.1 hmem
      exact hnumbered.below _ (hnumber ▸ List.mem_map_of_mem (List.mem_filter.1 hx).1)
  · obtain ⟨x, hx, ⟨-, rfl⟩ | ⟨hnot, rfl⟩⟩ := mem_windUpEnded hi
    · cases hnone
    · rw [List.map_append, List.mem_append, not_or]
      refine ⟨hsilent hx hnone, fun hmem => ?_⟩
      rw [hends] at hmem
      obtain ⟨y, hy, hnumber⟩ := List.mem_map.1 hmem
      obtain ⟨hy, hend⟩ := List.mem_filter.1 hy
      rw [hnumbered.eq_of_createdAt hy hx hnumber, hnot] at hend
      cases hend
  · obtain ⟨x, hx, ⟨hend, rfl⟩ | ⟨-, rfl⟩⟩ := mem_windUpEnded hi
    · cases hat
      obtain ⟨id, hmem⟩ := Ending.mem_all c.state.step c.state.ids
        (List.mem_filter.2 ⟨hx, hend⟩)
      exact ⟨id, List.mem_append_right _ hmem⟩
    · obtain ⟨y, hy, hlasts, hterm, hdate⟩ := h.old hg hx hat
      obtain ⟨id, hmem⟩ := h.announced y hy n hdate
      refine ⟨id, List.mem_append_left _ ?_⟩
      rwa [hlasts.createdAt, hlasts.ending hterm]

/-- Observations do not matter. -/
theorem Lived.same (h : t.Lived g told) (hsame : t.Same t') : t'.Lived g told := by
  obtain ⟨f, hf, hinst, hstep, hnext⟩ := hsame
  have hmem {i' : Instance} (hi' : i' ∈ t'.instances) : ∃ i ∈ t.instances,
      ∃ observations, i' = { i with observations } := by
    rw [hinst] at hi'
    obtain ⟨i, hi, rfl⟩ := List.mem_map.1 hi'
    exact ⟨i, hi, hf i⟩
  have hnumbers : t'.numbers = t.numbers := by
    rw [State.numbers, hinst, List.map_map]
    refine List.map_congr_left fun i _ => ?_
    obtain ⟨observations, hi⟩ := hf i
    rw [Function.comp, hi]
  refine ⟨⟨h.toNumbered.congr hnumbers hnext, fun i' hi' => ?_, fun i' hi' => ?_⟩, h.once, ?_,
    fun i' hi' => ?_, fun i' hi' => ?_⟩
  · obtain ⟨i, hi, -, rfl⟩ := hmem hi'
    exact h.marked i hi
  · obtain ⟨i, hi, -, rfl⟩ := hmem hi'
    rw [hstep]
    exact h.recent i hi
  · rw [hnext]
    exact h.known
  · obtain ⟨i, hi, -, rfl⟩ := hmem hi'
    exact h.silent i hi
  · obtain ⟨i, hi, -, rfl⟩ := hmem hi'
    exact h.announced i hi

/-- Letting go of those that ended long ago keeps the others recent. -/
theorem Lived.counted (e : Engine) (h : t.Lived e.config.graceSteps told) :
    (e.counted t).Lived e.config.graceSteps told := by
  have hmem {i : Instance} (hi : i ∈ (e.counted t).instances) :
      i ∈ t.instances ∧ e.isStale (t.step + 1) i = false := by
    obtain ⟨hi, hfresh⟩ := List.mem_filter.1 hi
    exact ⟨hi, by simpa using hfresh⟩
  have hsub : (e.counted t).numbers.Sublist t.numbers := List.filter_sublist.map _
  refine ⟨⟨⟨h.sorted.sublist hsub, fun n hn => h.below n (hsub.subset hn)⟩,
    fun i hi => h.marked i (hmem hi).1, fun i hi n hat => ?_⟩, h.once, h.known,
    fun i hi => h.silent i (hmem hi).1, fun i hi => h.announced i (hmem hi).1⟩
  obtain ⟨hi, hfresh⟩ := hmem hi
  have hrecent := h.recent i hi n hat
  rw [isStale, hat, decide_eq_false_iff_not] at hfresh
  have hstep : (e.counted t).step = t.step + 1 := rfl
  omega

/-! ## From one moment to the next -/

theorem Leads.trans (h : t.Leads t') (h' : t'.Leads t'') : t.Leads t'' where
  step := h'.step.trans h.step
  fresh := Nat.le_trans h.fresh h'.fresh
  stays i hi := by
    obtain ⟨x, hx, hlasts⟩ := h.stays i hi
    obtain ⟨y, hy, hlasts'⟩ := h'.stays x hx
    exact ⟨y, hy, hlasts.trans hlasts'⟩
  known y hy hold := by
    obtain ⟨x, hx, hlasts'⟩ := h'.known y hy (Nat.lt_of_lt_of_le hold h.fresh)
    obtain ⟨i, hi, hlasts⟩ := h.known x hx (hlasts'.createdAt ▸ hold)
    exact ⟨i, hi, hlasts.trans hlasts'⟩
  dates y hy n hat := by
    rcases h'.dates y hy n hat with rfl | ⟨x, hx, hlasts', hat'⟩
    · exact .inl rfl
    · rcases h.dates x hx n hat' with rfl | ⟨i, hi, hlasts, hdate⟩
      · exact .inl h'.step.symm
      · exact .inr ⟨i, hi, hlasts.trans hlasts', hdate⟩

theorem Grows.leads (h : t.Grows t') : t.Leads t' where
  step := h.step
  fresh := h.nextInstance_le
  stays i hi := by
    obtain ⟨k, hk⟩ := List.mem_iff_getElem?.1 hi
    obtain ⟨i', hi', hlasts, -⟩ := h.old k i hk
    exact ⟨i', List.mem_of_getElem? hi', hlasts⟩
  known i' hi' hold := by
    rcases h.old_or_new hi' with ⟨i, hi, hlasts, -⟩ | ⟨hfree, -⟩
    · exact ⟨i, hi, hlasts⟩
    · omega
  dates i' hi' n hat := by
    rcases h.old_or_new hi' with ⟨i, hi, hlasts, hsame⟩ | ⟨-, hnone⟩
    · exact .inr ⟨i, hi, hlasts, hsame.symm.trans hat⟩
    · rw [hnone] at hat
      cases hat

theorem leads_windUpEnded (s : Step) : s.state.Leads (windUpEnded s).state where
  step := step_windUpEnded s
  fresh := Nat.le_of_eq (nextInstance_windUpEnded s).symm
  stays i hi := by
    refine ⟨_, ?_, lasts_noteEnd s.state.step i⟩
    rw [instances_windUpEnded]
    exact List.mem_map_of_mem hi
  known i' hi' _ := by
    rw [instances_windUpEnded] at hi'
    obtain ⟨i, hi, rfl⟩ := List.mem_map.1 hi'
    exact ⟨i, hi, lasts_noteEnd _ i⟩
  dates i' hi' n hat := by
    obtain ⟨i, hi, ⟨-, rfl⟩ | ⟨-, rfl⟩⟩ := mem_windUpEnded hi'
    · cases hat
      exact .inl (step_windUpEnded s).symm
    · exact .inr ⟨i', hi, lasts_refl i', hat⟩

theorem Same.grows (h : t.Same t') : t.Grows t' := by
  obtain ⟨f, hf, hinst, hstep, hnext⟩ := h
  refine grows_of_getElem? (f := fun _ => f) (fun k => by rw [hinst, List.getElem?_map])
    (fun _ i _ => ?_) hstep hnext
  obtain ⟨observations, hi⟩ := hf i
  rw [hi]
  exact ⟨⟨rfl, fun _ => ⟨rfl, rfl, rfl⟩, fun _ => rfl⟩, rfl⟩

theorem same_of_instances (hi : t'.instances = t.instances) (hstep : t'.step = t.step)
    (hnext : t'.nextInstance = t.nextInstance) : t.Same t' :=
  ⟨id, fun i => ⟨i.observations, rfl⟩, hi.trans (List.map_id _).symm, hstep, hnext⟩

theorem Same.trans (h : t.Same t') (h' : t'.Same t'') : t.Same t'' := by
  obtain ⟨f, hf, hinst, hstep, hnext⟩ := h
  obtain ⟨f', hf', hinst', hstep', hnext'⟩ := h'
  refine ⟨f' ∘ f, fun i => ?_, by rw [hinst', hinst, List.map_map], hstep'.trans hstep,
    hnext'.trans hnext⟩
  obtain ⟨observations, hi⟩ := hf i
  obtain ⟨observations', hi'⟩ := hf' (f i)
  exact ⟨observations', by rw [Function.comp, hi', hi]⟩

theorem same_drain (s : Step) : s.state.Same s.drain.state :=
  ⟨fun i => { i with observations := [] }, fun _ => ⟨[], rfl⟩, rfl, rfl, rfl⟩

end State

/-! ## Requests -/

namespace Engine

variable (e)

/-- The step in which a request winds up instances before its queue is worked off. -/
def closing? (s : State) : Request → Option Step
  | .abort id reason =>
    (s.instance? id).bind fun i =>
      if i.status.isTerminal then none
      else some ((e.beginStep s).updateInstance id (·.abort reason))
  | _ => none

/-- The steps of a request in which instances are about to be wound up. -/
def closingsBy (s : State) (r : Request) : List Step :=
  (e.closing? s r).toList ++ (e.roundsBy s r).map fun round => e.compete round.2 round.1

/-- The states of a request that can be looked at: where its rounds begin, and how it leaves the
engine. -/
def momentsBy (s : State) (r : Request) : List State :=
  (e.roundsBy s r).map (·.1.state) ++ [(e.respond s r).state]

/-- How a request proceeds, as far as instances are concerned: nothing happens to them, but that
some may be let go; or a queue is worked off, before which instances may be wound up. -/
inductive Proceeds (s : State) : Option Step → Option Step → State → Prop
  | rests {t t' : State} (counts : t = s ∨ t = e.counted s) (same : t.Same t') :
      Proceeds s none none t'
  | opens {o : Step} {t' : State} (begins : (e.counted s).Same o.state)
      (ends : (e.runQueue e.config.maxEventsPerStep o).state.Same t') : Proceeds s none (some o) t'
  | closes {c : Step} {t' : State} (begins : (e.counted s).Grows c.state)
      (ends : (e.runQueue e.config.maxEventsPerStep (windUpEnded c)).state.Same t') :
      Proceeds s (some c) (some (windUpEnded c)) t'

/-- Two moments follow each other, within a step or across the beginning of one. -/
def Passes (s s' : State) : Prop := s.Leads s' ∨ (e.counted s).Leads s'

variable {e}

theorem same_beginStep (e : Engine) (s : State) : (e.counted s).Same (e.beginStep s).state := by
  rw [(e.retracts_beginStep s).state]
  exact State.same_of_instances rfl rfl rfl

theorem proceeds_handle (e : Engine) (s : State) (event : Event) :
    e.Proceeds s none (e.openingOf? s event) (e.handle s event).state := by
  have hbegin := same_beginStep e s
  have hopened {change : State → State} (hchange : ∀ t : State, t.Same (change t)) :
      (e.counted s).Same (e.opened s event change).state := hbegin.trans (hchange _)
  have hsame {t t' : State} (hi : t'.instances = t.instances) (hstep : t'.step = t.step)
      (hnext : t'.nextInstance = t.nextInstance) : t.Same t' :=
    State.same_of_instances hi hstep hnext
  have htakes := e.takes s event
  generalize e.handle s event = reply at htakes ⊢
  generalize e.openingOf? s event = o at htakes ⊢
  cases htakes with
  | refused => exact .rests (.inl rfl) (hsame rfl rfl rfl)
  | idle => exact .rests (.inr rfl) (hbegin.trans (State.same_drain _))
  | late n =>
    exact .rests (.inr rfl)
      (hbegin.trans (State.same_drain ((e.beginStep s).observe (.lateResult n))))
  | accepted n calls =>
    exact .opens (hopened fun _ => hsame rfl rfl rfl) (State.same_drain (Step.update _ _))
  | fired timer => exact .opens (hopened fun _ => hsame rfl rfl rfl) (State.same_drain _)
  | processed => exact .opens (hopened fun _ => hsame rfl rfl rfl) (State.same_drain _)

theorem Proceeds.congr {s s' t : State} {o : Option Step} (h : e.Proceeds s' none o t)
    (hinst : s'.instances = s.instances) (hstep : s'.step = s.step)
    (hnext : s'.nextInstance = s.nextInstance) : e.Proceeds s none o t := by
  have hcounted : (e.counted s).Same (e.counted s') :=
    State.same_of_instances (by rw [counted, counted, hinst, hstep])
      (congrArg (· + 1) hstep) hnext
  cases h with
  | rests hcounts hsame =>
    rcases hcounts with rfl | rfl
    · exact .rests (.inl rfl) ((State.same_of_instances hinst hstep hnext).trans hsame)
    · exact .rests (.inr rfl) (hcounted.trans hsame)
  | opens hbegins hends => exact .opens (hcounted.trans hbegins) hends

/-- **How requests proceed.** -/
theorem proceeds (e : Engine) (s : State) (r : Request) :
    e.Proceeds s (e.closing? s r) (e.opening? s r) (e.respond s r).state := by
  cases r with
  | named name payload => exact (proceeds_handle e _ _).congr rfl rfl rfl
  | event event => exact proceeds_handle e s event
  | abort id reason =>
    have hgrows := (same_beginStep e s).grows.trans
      (grows_updateInstance (e.beginStep s) id (f := (·.abort reason)) fun i =>
        ⟨lasts_abort i reason, (remains_abort i reason).terminatedAt⟩)
    rw [closing?, opening?, respond, Engine.abort]
    cases s.instance? id with
    | none => exact .rests (.inl rfl) (State.same_of_instances rfl rfl rfl)
    | some i =>
      simp only [Option.bind_some]
      split
      · exact .rests (.inl rfl) (State.same_of_instances rfl rfl rfl)
      · exact .closes hgrows (State.same_drain _)

/-! ## What requests leave -/

theorem lived_round (e : Engine) (event : Event) (h : s.state.Lived g told) :
    (e.round s event).drain.state.Lived g (told ++ (e.compete event s).endings) :=
  (h.windUpEnded (grows_compete e event s)).same (State.same_drain _)

theorem lived_runQueue (e : Engine) (budget : Nat) (h : s.state.Lived g told) :
    (e.runQueue budget s).state.Lived g
      (told ++ ((e.roundsFrom budget s).map fun round => e.compete round.2 round.1).flatMap
        Step.endings) := by
  induction budget generalizing s told with
  | zero =>
    rw [runQueue, roundsFrom, List.map_nil, List.flatMap_nil, List.append_nil]
    split <;> exact h
  | succ budget ih =>
    rw [runQueue, roundsFrom]
    generalize hn : nextFresh s s.queue = r
    obtain ⟨s', _ | event⟩ := r
    · rw [← state_nextFresh hn] at h
      rwa [List.map_nil, List.flatMap_nil, List.append_nil]
    · rw [← state_nextFresh hn] at h
      rw [List.map_cons, List.flatMap_cons, ← List.append_assoc]
      exact ih (lived_round e event h)

/-- **What holds of the ends of instances before a request holds after it**, with what was announced
meanwhile. -/
theorem lived_respond (e : Engine) (h : t.Lived e.config.graceSteps told) (r : Request) :
    (e.respond t r).state.Lived e.config.graceSteps
      (told ++ (e.closingsBy t r).flatMap Step.endings) := by
  have hproceeds := e.proceeds t r
  rw [closingsBy, roundsBy]
  generalize (e.respond t r).state = t' at hproceeds ⊢
  generalize e.opening? t r = o at hproceeds ⊢
  generalize e.closing? t r = c at hproceeds ⊢
  cases hproceeds with
  | rests hcounts hsame =>
    rw [Option.toList_none, Option.elim_none, List.map_nil, List.append_nil, List.flatMap_nil,
      List.append_nil]
    rcases hcounts with rfl | rfl
    · exact h.same hsame
    · exact (h.counted e).same hsame
  | opens hbegins hends =>
    rw [Option.toList_none, Option.elim_some, List.nil_append]
    exact (lived_runQueue e _ ((h.counted e).same hbegins)).same hends
  | closes hbegins hends =>
    rw [Option.toList_some, Option.elim_some, List.flatMap_append, List.flatMap_singleton,
      ← List.append_assoc]
    exact (lived_runQueue e _ ((h.counted e).windUpEnded hbegins)).same hends

theorem lived_moments (e : Engine) (h : t.Lived e.config.graceSteps told) (r : Request) :
    ∀ m ∈ e.momentsBy t r, ∃ told, m.Lived e.config.graceSteps told := by
  have hlast := lived_respond e h r
  have hproceeds := e.proceeds t r
  rw [momentsBy, roundsBy]
  generalize (e.respond t r).state = t' at hproceeds hlast ⊢
  generalize e.opening? t r = o at hproceeds ⊢
  generalize e.closing? t r = c at hproceeds
  have hrounds {o : Step} {told : List Ending} (ho : o.state.Lived e.config.graceSteps told) :
      ∀ m ∈ (e.roundsFrom e.config.maxEventsPerStep o).map (·.1.state),
        ∃ told, m.Lived e.config.graceSteps told := by
    rw [List.forall_mem_map]
    exact (runQueue_preserves (P := fun m => ∃ told, m.Lived e.config.graceSteps told)
      (fun _ event hs => hs.elim fun _ hs => ⟨_, lived_round e event hs⟩) _ ⟨told, ho⟩).2
  refine List.forall_mem_append.2 ⟨?_, List.forall_mem_singleton.2 ⟨_, hlast⟩⟩
  cases hproceeds with
  | rests => exact List.forall_mem_nil _
  | opens hbegins => exact hrounds ((h.counted e).same hbegins)
  | closes hbegins => exact hrounds ((h.counted e).windUpEnded hbegins)

/-! ## From one moment to the next -/

theorem Passes.trans (h : e.Passes t t') (h' : t'.Leads t'') : e.Passes t t'' :=
  h.imp (·.trans h') (·.trans h')

theorem leads_round (e : Engine) (s : Step) (event : Event) :
    s.state.Leads (e.round s event).drain.state :=
  ((grows_compete e event s).leads.trans (State.leads_windUpEnded _)).trans
    (State.same_drain _).grows.leads

/-- The moments of a queue follow each other, from one before it to one after it. -/
theorem passes_runQueue {budget : Nat} (h : e.Passes t s.state)
    (h' : (e.runQueue budget s).state.Leads t') :
    (t :: ((e.roundsFrom budget s).map (·.1.state) ++ [t'])).IsChain e.Passes := by
  induction budget generalizing s t with
  | zero =>
    have hend : (e.runQueue 0 s).state = s.state := by
      rw [runQueue]
      split <;> rfl
    rw [hend] at h'
    exact List.isChain_pair.2 (h.trans h')
  | succ budget ih =>
    rw [runQueue] at h'
    rw [roundsFrom]
    generalize hn : nextFresh s s.queue = r at h' ⊢
    rw [← state_nextFresh hn] at h
    obtain ⟨s', _ | event⟩ := r
    · exact List.isChain_pair.2 (h.trans h')
    · exact List.isChain_cons_cons.2 ⟨h, ih (.inl (leads_round e s' event)) h'⟩

/-- **The moments of a request follow each other.** -/
theorem passes_respond (e : Engine) (t : State) (r : Request) :
    (t :: e.momentsBy t r).IsChain e.Passes := by
  have hproceeds := e.proceeds t r
  rw [momentsBy, roundsBy]
  generalize (e.respond t r).state = t' at hproceeds ⊢
  generalize e.opening? t r = o at hproceeds ⊢
  generalize e.closing? t r = c at hproceeds
  cases hproceeds with
  | rests hcounts hsame =>
    refine List.isChain_pair.2 ?_
    rcases hcounts with rfl | rfl
    · exact .inl hsame.grows.leads
    · exact .inr hsame.grows.leads
  | opens hbegins hends => exact passes_runQueue (.inr hbegins.grows.leads) hends.grows.leads
  | closes hbegins hends =>
    exact passes_runQueue (.inr (hbegins.leads.trans (State.leads_windUpEnded _)))
      hends.grows.leads

end Engine

end Lifetimes

end EventFlow

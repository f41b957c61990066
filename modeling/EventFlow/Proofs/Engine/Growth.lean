import EventFlow.Proofs.Engine.Invariant
import EventFlow.Proofs.Instance.Origin

/-!
# How the list of instances grows

Within a step instances keep their places.  New ones come after them, numbered in the order in which
they are started, and one that has ended is left alone until it is wound up.

## What is here

* `State.Numbered` says that instances are listed in the order of their numbers, and that later
  numbers are free.
* `State.Grows` is what happens to instances when heads move, instances are started, and emissions
  compete; it composes.  **`grows_compete`** says it of a round before instances are wound up.
-/

set_option autoImplicit false

namespace EventFlow

variable {Compiled Found : Type} [Query.Library Compiled Found]

/-- The numbers of the instances. -/
def State.numbers (s : State) : List Nat := s.instances.map Instance.createdAt

/-- Instances are listed in the order of creation, and numbers from the next one on are free. -/
structure State.Numbered (s : State) : Prop where
  sorted : s.numbers.Pairwise (· < ·)
  below : ∀ n ∈ s.numbers, n < s.nextInstance

/-- Instances keep their places and last, new ones are numbered from the next number on, and nobody
is wound up. -/
structure State.Grows (s s' : State) : Prop where
  step : s'.step = s.step
  numbers : ∃ n, s'.numbers = s.numbers ++ List.range' s.nextInstance n ∧
    s'.nextInstance = s.nextInstance + n
  old : ∀ (k : Nat) (i : Instance), s.instances[k]? = some i →
    ∃ i', s'.instances[k]? = some i' ∧ i.Lasts i' ∧ i'.terminatedAt = i.terminatedAt
  new : ∀ (k : Nat) (i' : Instance), s.instances[k]? = none → s'.instances[k]? = some i' →
    i'.terminatedAt = none

section Growing

open Engine

variable {e : Engine} {s s' : Step} {t t' t'' : State} {event : Event} {i i' : Instance}

/-! ## Numbers -/

/-- An instance is found by its number. -/
theorem State.Numbered.eq_of_createdAt (h : t.Numbered) (hi : i ∈ t.instances)
    (hi' : i' ∈ t.instances) (hnumber : i.createdAt = i'.createdAt) : i = i' :=
  List.inj_on_of_nodup_map (h.sorted.imp Nat.ne_of_lt) hi hi' hnumber

theorem State.Numbered.grows (h : t.Numbered) (hg : t.Grows t') : t'.Numbered := by
  obtain ⟨n, hnumbers, hnext⟩ := hg.numbers
  have hbelow : ∀ a ∈ t'.numbers, a ∈ t.numbers ∨ t.nextInstance ≤ a ∧ a < t'.nextInstance := by
    intro a ha
    rw [hnumbers, List.mem_append, List.mem_range'_1] at ha
    rwa [hnext]
  refine ⟨?_, fun a ha => (hbelow a ha).elim (fun hold => ?_) And.right⟩
  · rw [hnumbers, List.pairwise_append]
    refine ⟨h.sorted, List.pairwise_lt_range', fun a ha b hb => ?_⟩
    exact Nat.lt_of_lt_of_le (h.below a ha) (List.mem_range'_1.1 hb).1
  · have := h.below a hold
    omega

/-! ## Growing -/

namespace State

/-- What changes instances only in ways that last, and starts none, lets instances grow. -/
theorem grows_of_getElem? {f : Nat → Instance → Instance}
    (hget : ∀ k, t'.instances[k]? = (t.instances[k]?).map (f k))
    (hf : ∀ k i, t.instances[k]? = some i →
      i.Lasts (f k i) ∧ (f k i).terminatedAt = i.terminatedAt)
    (hstep : t'.step = t.step) (hnext : t'.nextInstance = t.nextInstance) : t.Grows t' where
  step := hstep
  numbers := by
    refine ⟨0, ?_, hnext⟩
    refine (List.ext_getElem? fun k => ?_).trans (List.append_nil _).symm
    rw [State.numbers, State.numbers, List.getElem?_map, List.getElem?_map, hget]
    cases hk : t.instances[k]? with
    | none => rfl
    | some i => exact congrArg some (hf k i hk).1.createdAt
  old k i hi := ⟨f k i, by rw [hget, hi]; rfl, hf k i hi⟩
  new k i' hnone hsome := by
    rw [hget, hnone] at hsome
    cases hsome

theorem grows_of_instances (hi : t'.instances = t.instances) (hstep : t'.step = t.step)
    (hnext : t'.nextInstance = t.nextInstance) : t.Grows t' :=
  grows_of_getElem? (f := fun _ => id) (fun k => by rw [hi, Option.map_id]; rfl)
    (fun _ i _ => ⟨lasts_refl i, rfl⟩) hstep hnext

theorem grows_refl (t : State) : t.Grows t := grows_of_instances rfl rfl rfl

theorem Grows.trans (h : t.Grows t') (h' : t'.Grows t'') : t.Grows t'' where
  step := h'.step.trans h.step
  numbers := by
    obtain ⟨n, hnumbers, hnext⟩ := h.numbers
    obtain ⟨m, hnumbers', hnext'⟩ := h'.numbers
    refine ⟨n + m, ?_, by omega⟩
    rw [hnumbers', hnumbers, hnext, List.append_assoc, ← List.range'_append_1]
  old k i hi := by
    obtain ⟨x, hx, hlasts, hat⟩ := h.old k i hi
    obtain ⟨y, hy, hlasts', hat'⟩ := h'.old k x hx
    exact ⟨y, hy, hlasts.trans hlasts', hat'.trans hat⟩
  new k y hnone hy := by
    cases hk : t'.instances[k]? with
    | none => exact h'.new k y hk hy
    | some x =>
      obtain ⟨z, hz, -, hat⟩ := h'.old k x hk
      rw [hy] at hz
      exact Option.some.inj hz ▸ hat.trans (h.new k x hnone hk)

theorem Grows.nextInstance_le (h : t.Grows t') : t.nextInstance ≤ t'.nextInstance := by
  obtain ⟨n, -, hnext⟩ := h.numbers
  omega

/-- Whoever is there afterwards was there before, or has a number that was free. -/
theorem Grows.old_or_new (h : t.Grows t') (hi' : i' ∈ t'.instances) :
    (∃ i ∈ t.instances, i.Lasts i' ∧ i'.terminatedAt = i.terminatedAt) ∨
      t.nextInstance ≤ i'.createdAt ∧ i'.terminatedAt = none := by
  obtain ⟨k, hk⟩ := List.mem_iff_getElem?.1 hi'
  cases hold : t.instances[k]? with
  | some i =>
    obtain ⟨y, hy, hlasts⟩ := h.old k i hold
    rw [hk] at hy
    exact .inl ⟨i, List.mem_of_getElem? hold, Option.some.inj hy ▸ hlasts⟩
  | none =>
    obtain ⟨n, hnumbers, -⟩ := h.numbers
    have hnumber : t'.numbers[k]? = some i'.createdAt := by
      rw [State.numbers, List.getElem?_map, hk]
      rfl
    have hlen : t.numbers.length ≤ k := by
      rw [State.numbers, List.length_map]
      exact List.getElem?_eq_none_iff.1 hold
    rw [hnumbers, List.getElem?_append_right hlen] at hnumber
    exact .inr ⟨(List.mem_range'_1.1 (List.mem_of_getElem? hnumber)).1, h.new k i' hold hk⟩

end State

theorem grows_set {k : Nat} (hi : t.instances[k]? = some i) (hlasts : i.Lasts i')
    (hat : i'.terminatedAt = i.terminatedAt) (w : World) :
    t.Grows { t.setWorld w with instances := t.instances.set k i' } := by
  refine State.grows_of_getElem? (f := fun j x => if j = k then i' else x) (fun j => ?_)
    (fun j x hx => ?_) rfl rfl
  · simp only [List.getElem?_set]
    by_cases hj : j = k
    · subst hj
      simp [(List.getElem?_eq_some_iff.1 hi).1]
    · simp [hj, Ne.symm hj]
  · by_cases hj : j = k
    · subst hj
      rw [hi] at hx
      rw [if_pos rfl]
      exact Option.some.inj hx ▸ ⟨hlasts, hat⟩
    · rw [if_neg hj]
      exact ⟨lasts_refl x, rfl⟩

theorem grows_updateInstance (s : Step) (id : InstanceId) {f : Instance → Instance}
    (hf : ∀ i : Instance, i.Lasts (f i) ∧ (f i).terminatedAt = i.terminatedAt) :
    s.state.Grows (s.updateInstance id f).state := by
  rw [Step.updateInstance]
  split
  · exact State.grows_refl _
  · next k _ =>
    refine State.grows_of_getElem? (f := fun j x => if k = j then f x else x) (fun j => ?_)
      (fun j i _ => ?_) rfl rfl
    · exact List.getElem?_modify ..
    · split
      · exact hf i
      · exact ⟨lasts_refl i, rfl⟩

/-! ## Rounds -/

theorem grows_moves (e : Engine) (event : Event) (t : State) :
    e.MovesKeep event fun s _ => t.Grows s.state where
  abort {s _ _ _} hi h :=
    h.trans (grows_set hi (lasts_abort ..) (remains_abort ..).terminatedAt s.state.world)
  advance hi _ hadv h :=
    h.trans (grows_set hi (lasts_advance? hadv) (remains_advance? hadv).1.terminatedAt _)

theorem grows_spawn (e : Engine) (s : Step) (flow : LoadedFlow) (id : InstanceId)
    (parent : Option InstanceId) (bindings : Bindings) (specificity : Nat) :
    s.state.Grows (e.spawn s flow id parent bindings specificity).1.state := by
  have hnew (i : Instance) (hat : i.terminatedAt = none)
      (hnumber : i.createdAt = s.state.nextInstance) (w : World) :
      s.state.Grows { s.state.setWorld w with
        instances := s.state.instances ++ [i], nextInstance := s.state.nextInstance + 1 } := by
    refine ⟨rfl, ⟨1, ?_, rfl⟩, fun k x hx => ⟨x, ?_, lasts_refl x, rfl⟩, fun k x hnone hx => ?_⟩
    · rw [State.numbers, List.map_append]
      exact congrArg (s.state.numbers ++ [·]) hnumber
    · rw [List.getElem?_append_left (List.getElem?_eq_some_iff.1 hx).1, hx]
    · rw [List.getElem?_append_right (List.getElem?_eq_none_iff.1 hnone)] at hx
      rw [List.mem_singleton.1 (List.mem_of_getElem? hx), hat]
  refine hnew _ ?_ ?_ _
  · exact ((remains_observe rfl _).trans (remains_start ..).1).terminatedAt
  · exact congrArg Instance.Origin.createdAt (origin_start ..)

theorem grows_gather (e : Engine) (event : Event) (s : Step) :
    s.state.Grows (e.gather event s).1.state := by
  have hstarts : e.StartsKeep fun s' _ => s.state.Grows s'.state :=
    ⟨fun _ _ h => h, fun _ h => h, fun h => h.trans (State.grows_of_instances rfl rfl rfl),
      fun _ _ _ _ h => h.trans (grows_spawn ..)⟩
  exact hstarts.gather ((grows_moves e event s.state).moveHeads (State.grows_refl _))

theorem grows_apply (e : Engine) (s : Step) (requests : Requests) :
    s.state.Grows (e.apply s requests).state := by
  refine e.apply_preserves (P := fun s' => s.state.Grows s'.state) requests (fun _ _ _ h => h)
    (fun s' m _ h => h.trans ?_) (fun s' l _ h => h.trans ?_)
    (fun _ _ _ h => h.trans (State.grows_of_instances rfl rfl rfl)) (State.grows_refl _)
  · rw [deliver]
    split <;> exact State.grows_of_instances rfl rfl rfl
  · refine (grows_updateInstance s' l.emission.instanceId (f := (·.noteOverridden l.emission.id))
      fun i => ⟨⟨rfl, fun _ => ⟨rfl, rfl, rfl⟩, fun _ => rfl⟩, rfl⟩).trans ?_
    rw [suppress]
    cases l.emission.intent <;> exact State.grows_of_instances rfl rfl rfl

/-- **In a round instances grow until they are wound up.** -/
theorem grows_compete (e : Engine) (event : Event) (s : Step) :
    s.state.Grows (e.compete event s).state :=
  (grows_gather e event s).trans (grows_apply e _ _)

end Growing

end EventFlow

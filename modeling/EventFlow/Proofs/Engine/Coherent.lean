import EventFlow.Proofs.Engine.Narrated
import EventFlow.Query.Eval

/-!
# Whoever watches is told a coherent story

Of every instance it is told once that it was started, then which heads it has lost, then at most
once that it has finished or was aborted, and after that, at most once, that it was let go.  What
the engine itself has to say of the instance comes after the start as well, except in the round in
which the instance is started: then it comes before.

## What is here

* `State.stageOf` says how far an instance has come that was started at some time.
* `Engine.Coherent` is what is told over a run, and **`observations_are_coherent`** is the result.
* `Engine.StartsFirst` says that the start of an instance comes before everything else without
  exception; `dispatch_before_start` is a run in which it does not.
-/

set_option autoImplicit false

namespace EventFlow

section

variable {Compiled Found : Type} [Query.Library Compiled Found]

/-- How far an instance has come that was started at some time: if it is not there, it is gone. -/
def State.stageOf (s : State) (id : InstanceId) : Stage :=
  match s.instance? id with
  | some i => i.stage
  | none => .gone

namespace Engine

/-- What is told over a run that has led to a state is coherent. -/
structure Coherent (e : Engine) (past : List (State × Request)) (s : State) : Prop where
  /-- Nobody else is named but instances that were started. -/
  known : ∀ x ∈ e.observedOver past, ∀ c ∈ x.mentions, ∃ o ∈ e.bornOver past, o.id = c
  /-- What is told of an instance is its life up to the stage it has come to. -/
  lives : ∀ o ∈ e.bornOver past, Life o (s.stageOf o.id) (lifeIn o.id (e.observedOver past))
  /-- The start of an instance is told once, its end at most once, and at most once that it was let
  go. -/
  once : ∀ o ∈ e.bornOver past,
    (lifeIn o.id (e.observedOver past)).countP Observation.isSpawn = 1 ∧
    (lifeIn o.id (e.observedOver past)).countP Observation.isClosing ≤ 1 ∧
    (lifeIn o.id (e.observedOver past)).countP Observation.isEviction ≤ 1
  /-- The start of an instance is told before everything else that names it, except for what the
  engine itself observes in the round in which the instance is started. -/
  first : ∀ o ∈ e.bornOver past, ∀ pre x post, e.observedOver past = pre ++ x :: post →
    o.id ∈ x.mentions → x = o.spawned ∨ o.spawned ∈ pre ∨
      x.subject? = none ∧ e.Premature past pre x o.id
  /-- That an instance was let go is told after its end. -/
  last : ∀ pre x post, e.observedOver past = pre ++ x :: post → x.isEviction = true →
    ∃ y ∈ pre, y.isClosing = true ∧ y.subject? = x.subject?

/-- The start of an instance is told before everything else that names it. -/
def StartsFirst (e : Engine) (past : List (State × Request)) : Prop :=
  ∀ o ∈ e.bornOver past, ∀ pre x post, e.observedOver past = pre ++ x :: post →
    o.id ∈ x.mentions → x = o.spawned ∨ o.spawned ∈ pre

end Engine

section Coherence

open Engine

variable {e : Engine} {ids : IdSource} {past : List (State × Request)} {s : State}
  {gone : List Instance.Origin} {x : Observation} {c : InstanceId}

/-- An observation that is part of a life names nobody else. -/
theorem mentions_of_subject (h : x.subject? = some c) : x.mentions = [c] := by
  cases x <;> first | (obtain rfl := Option.some.inj h; rfl) | cases h

theorem instance?_eq_some {i : Instance} (hd : s.instanceIds.Nodup) (hi : i ∈ s.instances) :
    s.instance? i.id = some i := by
  rw [State.instance?]
  cases hfound : s.instances.find? fun j => j.id = i.id with
  | none => exact absurd (decide_eq_true rfl) (List.find?_eq_none.1 hfound i hi)
  | some j =>
    have hid : j.id = i.id := of_decide_eq_true (List.find?_some hfound :)
    exact congrArg some (List.inj_on_of_nodup_map hd (List.mem_of_find?_eq_some hfound) hi hid)

/-- A run tells the lives of all instances that were started, up to where they are. -/
theorem Engine.Annals.lives (h : e.Annals past s gone)
    (hdrained : ∀ i ∈ s.instances, i.observations = []) {o : Instance.Origin}
    (ho : o ∈ e.bornOver past) : Life o (s.stageOf o.id) (lifeIn o.id (e.observedOver past)) := by
  rcases List.mem_append.1 (h.origins.mem_iff.2 ho) with hgone | hpresent
  · have hnone : s.instance? o.id = none := List.find?_eq_none.2 fun i hi heq =>
      h.narrates.id_notMem hgone (of_decide_eq_true heq ▸ List.mem_map_of_mem hi)
    rw [State.stageOf, hnone]
    exact h.narrates.gone o hgone
  · obtain ⟨i, hi, rfl⟩ := List.mem_map.1 hpresent
    rw [State.stageOf, show i.origin.id = i.id from rfl,
      instance?_eq_some h.narrates.distinct_present hi]
    exact h.narrates.life hi (hdrained i hi)

/-- Everybody who has a part in an observation was started. -/
theorem Engine.Annals.exists_born (h : e.Annals past s gone) (hx : x ∈ e.observedOver past)
    (hc : x.subject? = some c) : ∃ o ∈ e.bornOver past, o.id = c := by
  have hknown := h.narrates.known x hx c hc
  have hids : identities gone s.instances = (gone ++ s.origins).map Instance.Origin.id := by
    rw [List.map_append, ids_of_origins]
    rfl
  rw [hids, (h.origins.map Instance.Origin.id).mem_iff] at hknown
  exact List.mem_map.1 hknown

theorem Engine.Premature.exists_born {pre : List Observation} (h : e.Premature past pre x c) :
    ∃ o ∈ e.bornOver past, o.id = c := by
  obtain ⟨before, t, r, after, rfl, _, -, round, hround, hc, -⟩ := h
  obtain ⟨i, hi, rfl⟩ := List.mem_map.1 hc
  refine ⟨i.origin, List.mem_flatMap.2 ⟨(t, r), by simp, ?_⟩, rfl⟩
  exact List.mem_flatMap.2 ⟨round, hround, List.mem_map_of_mem hi⟩

/-- Nobody is named who was not started. -/
theorem Engine.Annals.known (h : e.Annals past s gone) (hx : x ∈ e.observedOver past)
    (hc : c ∈ x.mentions) : ∃ o ∈ e.bornOver past, o.id = c := by
  cases hsubject : x.subject? with
  | some c' =>
    rw [mentions_of_subject hsubject, List.mem_singleton] at hc
    exact h.exists_born hx (hc ▸ hsubject)
  | none =>
    obtain ⟨pre, post, hsplit⟩ := List.append_of_mem hx
    rcases h.heralded pre x post hsplit hsubject c hc with ⟨flow, parent, hmem⟩ | hpremature
    · exact h.exists_born (hsplit ▸ List.mem_append_left _ hmem) rfl
    · exact hpremature.exists_born

/-- **The start is told before everything else**, apart from verdicts of the same round. -/
theorem Engine.Annals.first (h : e.Annals past s gone)
    (hdrained : ∀ i ∈ s.instances, i.observations = []) {o : Instance.Origin}
    (ho : o ∈ e.bornOver past) {pre post : List Observation}
    (hsplit : e.observedOver past = pre ++ x :: post) (hx : o.id ∈ x.mentions) :
    x = o.spawned ∨ o.spawned ∈ pre ∨ x.subject? = none ∧ e.Premature past pre x o.id := by
  have hlife := h.lives hdrained ho
  cases hsubject : x.subject? with
  | some c =>
    obtain rfl : o.id = c := by rwa [mentions_of_subject hsubject, List.mem_singleton] at hx
    rw [hsplit, lifeIn_append_cons hsubject] at hlife
    exact hlife.spawned_first.imp_right fun hmem => .inl (mem_lifeIn.1 hmem).1
  | none =>
    rcases h.heralded pre x post hsplit hsubject o.id hx with ⟨flow, parent, hmem⟩ | hpremature
    · have hmem' : .instanceSpawned o.id flow parent ∈ lifeIn o.id (e.observedOver past) :=
        mem_lifeIn.2 ⟨hsplit ▸ List.mem_append_left _ hmem, rfl⟩
      exact .inr (.inl (hlife.eq_spawned hmem' rfl ▸ hmem))
    · exact .inr (.inr ⟨rfl, hpremature⟩)

/-- That an instance was let go is told after its end. -/
theorem Engine.Annals.last (h : e.Annals past s gone)
    (hdrained : ∀ i ∈ s.instances, i.observations = []) {pre post : List Observation}
    (hsplit : e.observedOver past = pre ++ x :: post) (hx : x.isEviction = true) :
    ∃ y ∈ pre, y.isClosing = true ∧ y.subject? = x.subject? := by
  obtain ⟨c, hc⟩ := Observation.exists_subject (.inr (.inr hx))
  obtain ⟨o, ho, rfl⟩ := h.exists_born (hsplit ▸ List.mem_append_right _ List.mem_cons_self) hc
  have hlife := h.lives hdrained ho
  rw [hsplit, lifeIn_append_cons hc] at hlife
  obtain ⟨y, hy, hclosing⟩ := hlife.closing_first hx
  obtain ⟨hy, hsubject⟩ := mem_lifeIn.1 hy
  exact ⟨y, hy, hclosing, hsubject.trans hc.symm⟩

namespace Engine

/-- **Observations are coherent**, if the identities that are handed out are distinct. -/
theorem observations_are_coherent (h : e.History ids past s) (hissued : (e.issuedOver past).Nodup) :
    e.Coherent past s := by
  obtain ⟨gone, hannals⟩ := h.annals hissued
  have hdrained := drained_reachable h.reachable
  refine ⟨fun x hx c hc => hannals.known hx hc, fun o ho => hannals.lives hdrained ho,
    fun o ho => ?_, fun o ho pre x post hsplit hx => hannals.first hdrained ho hsplit hx,
    fun pre x post hsplit hx => hannals.last hdrained hsplit hx⟩
  obtain ⟨hspawn, hclosing, heviction⟩ := (hannals.lives hdrained ho).counts
  refine ⟨hspawn, ?_, ?_⟩
  · rw [hclosing]
    split <;> decide
  · rw [heviction]
    split <;> decide

end Engine

end Coherence

end

namespace Engine

/-! ## What is told of a call -/

/-- The first instance that is started. -/
def firstAsker : InstanceId := ⟨"e220a839-7b1d-4daf-8821-8226ff3cd4bf"⟩

/-- A call is answered, twice, and then both flows start once more. -/
def consultation : List Request :=
  [.event ask, .event answer, .event answer, .event { ask with id := ⟨"again"⟩ }]

/-- Those requests, each with the state in which it is made. -/
def consulted : List (State × Request) :=
  askers.along (fun s r => [(s, r)]) (.initial (.seeded 0)) consultation

/-- The life of the first instance is told to its end. -/
theorem observations_are_coherent_askers :
    lifeIn firstAsker (askers.observedOver consulted) = [.instanceSpawned firstAsker ⟨"a"⟩ none,
      .instanceFinished firstAsker ⟨"a"⟩, .instanceEvicted firstAsker ⟨"a"⟩] ∧
    askers.Coherent consulted (askers.after (.initial (.seeded 0)) consultation) := by
  have hpast := (@History.initial _ _ _ askers (.seeded 0)).along consultation
  rw [List.nil_append] at hpast
  have hissued : (askers.issuedOver consulted).Nodup := by decide +kernel
  exact ⟨by decide +kernel, observations_are_coherent hpast hissued⟩

/-- An engine with a single flow that calls an action. -/
def asking : Engine where
  catalog := ⟨[⟨asker "a", .ofBody (asker "a").body⟩]⟩
  config := Config.default

/-- That flow is started. -/
def askedOnce : List (State × Request) := [(.initial (.seeded 0), .event ask)]

/-- It is told that the call was dispatched, and only then that the instance was started. -/
theorem dispatch_before_start :
    asking.History (.seeded 0) askedOnce
      (asking.respond (.initial (.seeded 0)) (.event ask)).state ∧
    (asking.issuedOver askedOnce).Nodup ∧ ¬ asking.StartsFirst askedOnce := by
  refine ⟨History.initial.respond (.event ask), by decide +kernel, fun hfirst => ?_⟩
  have htold : asking.observedOver askedOnce =
      [.actionDispatched firstAsker asked "act", .instanceSpawned firstAsker ⟨"a"⟩ none] := by
    decide +kernel
  have hborn : firstAsker ∈ (asking.bornOver askedOnce).map Instance.Origin.id := by decide +kernel
  obtain ⟨o, ho, hid⟩ := List.mem_map.1 hborn
  rcases hfirst o ho [] _ _ htold (List.mem_singleton.2 hid) with hself | hbefore
  · exact Observation.noConfusion hself
  · cases hbefore

end Engine

end EventFlow

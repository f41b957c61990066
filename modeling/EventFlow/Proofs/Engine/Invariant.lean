import EventFlow.Proofs.Engine.Rounds

/-!
# What holds of all instances

There are few things that can happen to an instance: it is started, a head of it moves, it is
aborted from outside, it notes that an emission has lost, it is wound up, and its observations are
collected.  What all of these preserve holds of every instance in every state that an engine can
reach, and whenever a round begins.

## What is here

* `Engine.Reachable` are the states that requests lead to, with variables of the conversation
  written in between.
* `Engine.Bequeaths` is what a property of instances has to satisfy, along with a property of the
  bindings that instances are started with; `Engine.InstancesKeep` is the case where any bindings
  will do.

**`Bequeaths.reachable`** says what they get for it.  Observations are the exception, since they
are collected at the end of every request (`drained_reachable`).
-/

set_option autoImplicit false

namespace EventFlow

variable {Compiled Found : Type} [Query.Library Compiled Found]

namespace Engine

variable (e : Engine)

/-- The states that an engine can reach, from any source of identities. -/
inductive Reachable : State → Prop
  | initial (ids : IdSource) : Reachable (.initial ids)
  | respond {s : State} (before : Reachable s) (r : Request) : Reachable (e.respond s r).state
  | setGlobal {s : State} (before : Reachable s) (path : String) (value : Json) :
      Reachable (s.setGlobal path value)

/-- Whatever happens to an instance preserves a property, and all bindings that instances are
started with have another one, which is enough to start with the first. -/
structure Bequeaths (Q : Instance → Prop) (B : Bindings → Prop) : Prop where
  capture {flow : LoadedFlow} {p : Pattern} {event : Event} {bindings : Bindings}
    (loaded : flow ∈ e.catalog.flows) : flow.flow.activation = some p →
      p.match? event [] = some bindings → B bindings
  start {flow : LoadedFlow} {bindings : Bindings} {r : Instance × World × Effects}
    (loaded : flow ∈ e.catalog.flows) (id : InstanceId) (priority : Int) (createdAt : Nat)
    (parent : Option InstanceId) (specificity : Nat) (w : World) : B bindings →
      ((Instance.spawn id flow.id priority createdAt parent bindings specificity).observe
        (.instanceSpawned id flow.id parent)).start flow.program w = r →
      Q r.1 ∧ ∀ c ∈ r.2.2.children, B c.bindings
  advance {i : Instance} {flow : LoadedFlow} {w : World} {head : HeadId} {event : Event}
    {r : Instance × World × Effects} : Q i → e.catalog.find? i.flow = some flow →
      i.advance? flow.program w head event = some r → Q r.1 ∧ ∀ c ∈ r.2.2.children, B c.bindings
  abort {i : Instance} (reason : String) : Q i → Q (i.abort reason)
  note {i : Instance} (id : String) : Q i → Q (i.noteOverridden id)
  windUp {i : Instance} (at' : Nat) : i.status.isTerminal = true → Q i →
    Q { i with terminatedAt := some at' }
  drain {i : Instance} : Q i → Q { i with observations := [] }

/-- Whatever happens to an instance preserves a property, whatever instances are started with. -/
def InstancesKeep (Q : Instance → Prop) : Prop := e.Bequeaths Q fun _ => True

variable {e} {Q : Instance → Prop} {B : Bindings → Prop} {s : Step} {requests : Requests}
  {event : Event}

/-! ## Operations that leave instances alone -/

theorem instances_deliver (s : Step) (m : Emission) :
    (deliver s m).state.instances = s.state.instances := by
  rw [deliver]
  split <;> rfl

theorem instances_stopTimersOf (s : Step) (id : InstanceId) :
    (s.stopTimersOf id).state.instances = s.state.instances ∧
      (s.stopTimersOf id).state.step = s.state.step :=
  List.foldlRecOn _ _ (motive := fun s' : Step =>
    s'.state.instances = s.state.instances ∧ s'.state.step = s.state.step) ⟨rfl, rfl⟩
    fun _ hs _ _ => hs

/-! ## Winding up -/

theorem getElem?_windUp (s : Step) (k j : Nat) :
    (windUp s k).state.instances[j]? = (s.state.instances[j]?).map (fun i =>
        if j = k then { i with terminatedAt := some s.state.step } else i) ∧
      (windUp s k).state.step = s.state.step := by
  cases hi : s.state.instances[k]? with
  | none =>
    rw [windUp, hi]
    refine ⟨?_, rfl⟩
    by_cases hj : j = k
    · rw [hj, hi]
      rfl
    · simp [hj]
  | some i =>
    obtain ⟨given, hretracts, -, heq⟩ := windUp_eq hi
    obtain ⟨hinstances, hstep⟩ := instances_stopTimersOf given i.id
    rw [hretracts.state] at hinstances hstep
    rw [heq]
    refine ⟨(congrArg (·[j]?) hinstances).trans ?_, hstep⟩
    have hlt := (List.getElem?_eq_some_iff.1 hi).1
    simp only [noteEndOf, Step.update, List.getElem?_set]
    by_cases hj : j = k
    · rw [hj, if_pos rfl, if_pos hlt, hi]
      simp
    · simp [hj, Ne.symm hj]

/-- The step is noted at the places where instances are wound up, and nothing else is. -/
theorem getElem?_foldl_windUp (ks : List Nat) (s : Step) (j : Nat) :
    (ks.foldl windUp s).state.instances[j]? = (s.state.instances[j]?).map (fun i =>
        if j ∈ ks then { i with terminatedAt := some s.state.step } else i) ∧
      (ks.foldl windUp s).state.step = s.state.step := by
  induction ks generalizing s with
  | nil => exact ⟨by simp, rfl⟩
  | cons k ks ih =>
    obtain ⟨hfirst, hstep⟩ := getElem?_windUp s k j
    obtain ⟨hrest, hstep'⟩ := ih (windUp s k)
    refine ⟨?_, hstep'.trans hstep⟩
    rw [List.foldl_cons, hrest, hfirst, hstep, Option.map_map]
    refine congrArg (Option.map · _) (funext fun i => ?_)
    by_cases hj : j = k
    · simp [hj]
    · simp [hj]

/-- An instance has ended, and was not wound up. -/
def isEnded (i : Instance) : Bool := i.status.isTerminal && i.terminatedAt.isNone

/-- An instance, with a step noted in which it is wound up if it has ended. -/
def noteEnd (step : Nat) (i : Instance) : Instance :=
  if isEnded i then { i with terminatedAt := some step } else i

@[simp]
theorem noteEnd_id (step : Nat) (i : Instance) : (noteEnd step i).id = i.id := by
  rw [noteEnd]
  split <;> rfl

@[simp]
theorem noteEnd_status (step : Nat) (i : Instance) : (noteEnd step i).status = i.status := by
  rw [noteEnd]
  split <;> rfl

@[simp]
theorem noteEnd_overridden (step : Nat) (i : Instance) :
    (noteEnd step i).overridden = i.overridden := by
  rw [noteEnd]
  split <;> rfl

theorem mem_ended {s : Step} {k : Nat} :
    k ∈ ended s ↔ ∃ i, s.state.instances[k]? = some i ∧ isEnded i = true := by
  rw [ended, List.mem_map]
  constructor
  · rintro ⟨p, hp, rfl⟩
    obtain ⟨hp, hend⟩ := List.mem_filter.1 hp
    exact ⟨p.1, List.mem_zipIdx_iff_getElem?.1 hp, hend⟩
  · rintro ⟨i, hi, hend⟩
    exact ⟨(i, k), List.mem_filter.2 ⟨List.mem_zipIdx_iff_getElem?.2 hi, hend⟩, rfl⟩

/-- **Winding up notes the step in all instances that have ended.** -/
theorem instances_windUpEnded (s : Step) :
    (windUpEnded s).state.instances = s.state.instances.map (noteEnd s.state.step) := by
  refine List.ext_getElem? fun j => ?_
  rw [windUpEnded, (getElem?_foldl_windUp (ended s) s j).1, List.getElem?_map]
  cases hi : s.state.instances[j]? with
  | none => rfl
  | some i =>
    have hj : j ∈ ended s ↔ isEnded i = true := by
      rw [mem_ended, hi]
      exact ⟨fun ⟨x, hx, hend⟩ => Option.some.inj hx ▸ hend, fun hend => ⟨i, rfl, hend⟩⟩
    simp [noteEnd, hj]

namespace InstancesKeep

/-! ## Rounds -/

theorem updateInstance (hs : ∀ i ∈ s.state.instances, Q i) {f : Instance → Instance}
    (hf : ∀ i, Q i → Q (f i)) (id : InstanceId) :
    ∀ i ∈ (s.updateInstance id f).state.instances, Q i := by
  rw [Step.updateInstance]
  split
  · exact hs
  · intro i hi
    obtain ⟨k, hk⟩ := List.mem_iff_getElem?.1 hi
    simp only [Step.update, List.getElem?_modify] at hk
    obtain ⟨x, hx, rfl⟩ := Option.map_eq_some_iff.1 hk
    have hq := hs x (List.mem_of_getElem? hx)
    split
    · exact hf x hq
    · exact hq

theorem put (hs : ∀ i ∈ s.state.instances, Q i) {i : Instance} (hi : Q i) (k : Nat) :
    ∀ x ∈ s.state.instances.set k i, Q x := by
  intro x hx
  rcases List.mem_or_eq_of_mem_set hx with hx | rfl
  · exact hs x hx
  · exact hi

theorem begun {t : State} (ht : ∀ i ∈ t.instances, Q i) :
    ∀ i ∈ (e.beginStep t).state.instances, Q i := by
  intro i hi
  rw [(e.retracts_beginStep t).state] at hi
  exact ht i (List.mem_filter.1 hi).1

end InstancesKeep

/-- All instances have a property, and all children are asked for with bindings that have another
one. -/
def Endowed (Q : Instance → Prop) (B : Bindings → Prop) (s : Step) (requests : Requests) : Prop :=
  (∀ i ∈ s.state.instances, Q i) ∧ ∀ c ∈ childrenOf requests, B c.request.bindings

namespace Bequeaths

theorem append {i : InstanceId} {f : Effects}
    (hr : ∀ c ∈ childrenOf requests, B c.request.bindings) (hf : ∀ r ∈ f.children, B r.bindings) :
    ∀ c ∈ childrenOf (requests ++ [(i, f)]), B c.request.bindings := by
  rw [childrenOf_append]
  refine List.forall_mem_append.2 ⟨hr, fun c hc => ?_⟩
  obtain ⟨r, hmem, rfl⟩ := mem_childrenOf_singleton.1 hc
  exact hf r hmem

theorem movesKeep (hk : e.Bequeaths Q B) : e.MovesKeep event (Endowed Q B) where
  abort {_ _ k i} hi h :=
    ⟨InstancesKeep.put h.1 (hk.abort _ (h.1 i (List.mem_of_getElem? hi))) k, h.2⟩
  advance {_ _ k i _ _ _ _ _} hi hflow hadv h := by
    obtain ⟨hq', hb⟩ := hk.advance (h.1 i (List.mem_of_getElem? hi)) hflow hadv
    exact ⟨InstancesKeep.put h.1 hq' k, append h.2 hb⟩

theorem startsKeep (hk : e.Bequeaths Q B) : e.StartsKeep (Endowed Q B) where
  refuse _ _ h := h
  count _ h := h
  identify h := h
  spawn {_ _ _ _ bindings} hloaded id specificity given h := by
    have hb : B bindings := by
      cases given with
      | activation hpattern hcaptured => exact hk.capture hloaded hpattern hcaptured
      | child hasked => exact h.2 _ hasked
    obtain ⟨hq, hchildren⟩ := hk.start hloaded id _ _ _ specificity _ hb rfl
    refine ⟨fun i hi => ?_, append h.2 hchildren⟩
    rcases List.mem_append.1 hi with hi | hi
    · exact h.1 i hi
    · rw [List.mem_singleton.1 hi]
      exact hq

theorem gather (hk : e.Bequeaths Q B) (hs : ∀ i ∈ s.state.instances, Q i) :
    ∀ i ∈ (e.gather event s).1.state.instances, Q i :=
  (hk.startsKeep.gather (hk.movesKeep.moveHeads ⟨hs, nofun⟩)).1

theorem suppress (hk : e.Bequeaths Q B) (hs : ∀ i ∈ s.state.instances, Q i)
    (lost : Overridden) : ∀ i ∈ (suppress s lost).state.instances, Q i := by
  have hnoted := InstancesKeep.updateInstance hs (fun _ => hk.note lost.emission.id)
    lost.emission.instanceId
  rw [Engine.suppress]
  cases lost.emission.intent <;> exact hnoted

theorem apply (hk : e.Bequeaths Q B) (hs : ∀ i ∈ s.state.instances, Q i)
    (requests : Requests) : ∀ i ∈ (e.apply s requests).state.instances, Q i := by
  refine e.apply_preserves (P := fun s => ∀ i ∈ s.state.instances, Q i) requests
    (fun _ _ _ hs => hs) (fun s m _ hs => ?_) (fun s l _ hs => hk.suppress hs l)
    (fun _ _ _ hs => hs) hs
  rwa [instances_deliver]

theorem windUpEnded (hk : e.Bequeaths Q B) (hs : ∀ i ∈ s.state.instances, Q i) :
    ∀ i ∈ (windUpEnded s).state.instances, Q i := by
  rw [instances_windUpEnded]
  intro i hi
  obtain ⟨x, hx, rfl⟩ := List.mem_map.1 hi
  rw [noteEnd]
  split
  · next hend =>
    rw [isEnded, Bool.and_eq_true] at hend
    exact hk.windUp _ hend.1 (hs x hx)
  · exact hs x hx

theorem round (hk : e.Bequeaths Q B) (hs : ∀ i ∈ s.state.instances, Q i) (event : Event) :
    ∀ i ∈ (e.round s event).state.instances, Q i :=
  hk.windUpEnded (hk.apply (hk.gather hs) _)

theorem drained (hk : e.Bequeaths Q B) (hs : ∀ i ∈ s.state.instances, Q i) :
    ∀ i ∈ s.drain.state.instances, Q i := by
  intro i hi
  obtain ⟨x, hx, rfl⟩ := List.mem_map.1 hi
  exact hk.drain (hs x hx)

/-! ## Requests -/

theorem runQueue (hk : e.Bequeaths Q B) (hs : ∀ i ∈ s.state.instances, Q i) (budget : Nat) :
    (∀ i ∈ (e.runQueue budget s).state.instances, Q i) ∧
      ∀ t ∈ e.roundsFrom budget s, ∀ i ∈ t.1.state.instances, Q i :=
  runQueue_preserves (P := fun t => ∀ i ∈ t.instances, Q i)
    (fun _ event hs => hk.drained (hk.round hs event)) budget hs

theorem handle (hk : e.Bequeaths Q B) {t : State} (ht : ∀ i ∈ t.instances, Q i)
    (event : Event) : (∀ i ∈ (e.handle t event).state.instances, Q i) ∧
      ∀ round ∈ (e.openingOf? t event).elim [] (e.roundsFrom e.config.maxEventsPerStep),
        ∀ i ∈ round.1.state.instances, Q i := by
  have hbegun := InstancesKeep.begun (e := e) ht
  have htakes := e.takes t event
  generalize e.handle t event = reply at htakes ⊢
  generalize e.openingOf? t event = o at htakes ⊢
  have hrun (f : State → State) (hf : ∀ t, (f t).instances = t.instances) :=
    hk.runQueue (s := e.opened t event f) (by
      rw [show (e.opened t event f).state = f (e.beginStep t).state from rfl, hf]
      exact hbegun) e.config.maxEventsPerStep
  cases htakes with
  | refused => exact ⟨ht, List.forall_mem_nil _⟩
  | idle => exact ⟨hk.drained hbegun, List.forall_mem_nil _⟩
  | late => exact ⟨hk.drained (s := (e.beginStep t).observe _) hbegun, List.forall_mem_nil _⟩
  | accepted =>
    refine ⟨hk.drained (s := Step.update _ _) (hrun _ ?_).1, (hrun _ ?_).2⟩ <;> exact fun _ => rfl
  | fired => refine ⟨hk.drained (hrun _ ?_).1, (hrun _ ?_).2⟩ <;> exact fun _ => rfl
  | processed => refine ⟨hk.drained (hrun _ ?_).1, (hrun _ ?_).2⟩ <;> exact fun _ => rfl

/-- What holds of all instances before a request holds of them afterwards, and whenever a round
begins. -/
theorem respond (hk : e.Bequeaths Q B) {t : State} (ht : ∀ i ∈ t.instances, Q i)
    (r : Request) : (∀ i ∈ (e.respond t r).state.instances, Q i) ∧
      ∀ round ∈ e.roundsBy t r, ∀ i ∈ round.1.state.instances, Q i := by
  cases r with
  | named name payload => exact hk.handle (t := { t with ids := t.ids.nextEvent.2 }) ht _
  | event event => exact hk.handle ht event
  | abort id reason =>
    have hgives := e.givesUp t id reason
    rw [Engine.respond, roundsBy]
    generalize e.abort t id reason = reply at hgives ⊢
    generalize e.opening? t (.abort id reason) = o at hgives ⊢
    cases hgives with
    | refused => exact ⟨ht, List.forall_mem_nil _⟩
    | aborted =>
      have hstart := hk.windUpEnded
        (InstancesKeep.updateInstance (InstancesKeep.begun (e := e) ht)
          (fun _ => hk.abort reason) id)
      obtain ⟨hend, hrounds⟩ := hk.runQueue hstart e.config.maxEventsPerStep
      exact ⟨hk.drained hend, hrounds⟩

/-- **What everything preserves that happens to instances holds of all of them.** -/
theorem reachable (hk : e.Bequeaths Q B) {t : State} (ht : e.Reachable t) :
    ∀ i ∈ t.instances, Q i := by
  induction ht with
  | initial ids => exact nofun
  | respond before r ih => exact (hk.respond ih r).1
  | setGlobal before path value ih => exact ih

end Bequeaths

theorem InstancesKeep.moveHead (hk : e.InstancesKeep Q) {acc : Step × Requests}
    (hs : ∀ i ∈ acc.1.state.instances, Q i) (mover : Nat × HeadId) :
    ∀ i ∈ (e.moveHead event acc mover).1.state.instances, Q i :=
  (hk.movesKeep.moveHead ⟨hs, fun _ _ => trivial⟩ mover).1

/-! ## Observations -/

/-- Between requests nothing is left that an instance has observed. -/
theorem drained_respond (e : Engine) {s : State} (hd : ∀ i ∈ s.instances, i.observations = [])
    (r : Request) : ∀ i ∈ (e.respond s r).state.instances, i.observations = [] := by
  have hstep (step : Step) : ∀ i ∈ (Reply.ofStep step).state.instances, i.observations = [] := by
    intro i hi
    obtain ⟨x, -, rfl⟩ := List.mem_map.1 hi
    rfl
  have hevent {s : State} (hd : ∀ i ∈ s.instances, i.observations = []) (event : Event) :
      ∀ i ∈ (e.handle s event).state.instances, i.observations = [] := by
    have ht := e.takes s event
    generalize e.handle s event = reply at ht ⊢
    generalize e.openingOf? s event = o at ht
    cases ht with
    | refused => exact hd
    | _ => exact hstep _
  cases r with
  | named name payload => exact hevent (s := { s with ids := s.ids.nextEvent.2 }) hd _
  | event event => exact hevent hd event
  | abort id reason =>
    have hg := e.givesUp s id reason
    rw [respond]
    generalize e.abort s id reason = reply at hg ⊢
    generalize e.opening? s (.abort id reason) = o at hg
    cases hg with
    | refused => exact hd
    | aborted => exact hstep _

/-- Whatever instances have observed has been handed on in every state that can be reached. -/
theorem drained_reachable {t : State} (ht : e.Reachable t) :
    ∀ i ∈ t.instances, i.observations = [] := by
  induction ht with
  | initial ids => exact nofun
  | respond before r ih => exact e.drained_respond ih r
  | setGlobal before path value ih => exact ih

end Engine

end EventFlow

import EventFlow.Proofs.Engine.History
import EventFlow.Proofs.Instance.Asking

/-!
# Who waits after a round

In the first half of a round heads move, flows are activated and children are started.  Nothing is
dispatched or queued yet; so all that matters here is which heads wait afterwards, and what was
asked for.

## What is here

* `State.Waits` and `Engine.Asked` lift waiting and asking from one instance to all of them.
* `Engine.Moved` is the invariant while heads move, `Engine.Gathered` the one after that.

**`Engine.gather_spec`** says that a head which waits after the first half of a round has just asked
for the call, or did wait before and was not answered.
-/

set_option autoImplicit false

namespace EventFlow

variable {Compiled Found : Type} [Query.Library Compiled Found]

/-- A head of an instance waits for the result of a call. -/
def State.Waits (s : State) (i : InstanceId) (h : HeadId) (n : InvocationId) : Prop :=
  ∃ x ∈ s.instances, x.id = i ∧ x.WaitsOn h n

/-- The identities of the instances, in the order of creation. -/
def State.instanceIds (s : State) : List InstanceId := s.instances.map Instance.id

namespace Engine

/-- A call of a head is among what was asked for. -/
def Asked (requests : Requests) (i : InstanceId) (h : HeadId) (n : InvocationId) : Prop :=
  ∃ m ∈ emissionsOf requests, m.Asks i h n

section Gathering

variable {e : Engine} {event : Event} {s₀ s s' : Step} {requests : Requests} {i : InstanceId}
  {h : HeadId} {n : InvocationId} {f : Effects}

theorem emissionsOf_append (requests : Requests) (i : InstanceId) (f : Effects) :
    emissionsOf (requests ++ [(i, f)]) = emissionsOf requests ++ f.emissions := by
  simp [emissionsOf]

theorem Asked.append (ha : Asked requests i h n) (j : InstanceId) (f : Effects) :
    Asked (requests ++ [(j, f)]) i h n := by
  obtain ⟨m, hm, hasks⟩ := ha
  exact ⟨m, by rw [emissionsOf_append]; exact List.mem_append_left _ hm, hasks⟩

theorem asked_of_asks (ha : f.Asks i h n) (requests : Requests) (j : InstanceId) :
    Asked (requests ++ [(j, f)]) i h n := by
  obtain ⟨m, hm, hasks⟩ := ha
  exact ⟨m, by rw [emissionsOf_append]; exact List.mem_append_right _ hm, hasks⟩

/-- What was asked for has identities of its own. -/
def Stamped (requests : Requests) : Prop := ∀ m ∈ emissionsOf requests, m.id.length = idLength

theorem Stamped.append (hr : Stamped requests) (hf : f.Stamped i) (j : InstanceId) :
    Stamped (requests ++ [(j, f)]) := by
  intro m hm
  rw [emissionsOf_append, List.mem_append] at hm
  rcases hm with hm | hm
  · exact hr m hm
  · exact (hf m hm).2

/-! ## Moving heads -/

/-- Some of the heads that an event moves have moved.  Instances keep their places, by which the
heads to move were noted. -/
structure Moved (event : Event) (s₀ s : Step) (requests : Requests)
    (done : List (Nat × HeadId)) : Prop where
  agrees : s₀.Agrees s
  ids : s.state.instanceIds = s₀.state.instanceIds
  regular : ∀ x ∈ s.state.instances, x.Regular
  /-- Who waits has asked, or did so before and was not told. -/
  waits : ∀ k x, s.state.instances[k]? = some x → ∀ h n, x.WaitsOn h n →
    (∃ y, s₀.state.instances[k]? = some y ∧ y.WaitsOn h n ∧ ((k, h) ∈ done → ¬event.Answers n)) ∨
      Asked requests x.id h n
  stamped : Stamped requests

/-- A head counts as moved if it does not wait for what the event answers. -/
theorem Moved.pass {done : List (Nat × HeadId)} {mover : Nat × HeadId}
    (hm : Moved event s₀ s requests done)
    (hdeaf : ∀ x, s.state.instances[mover.1]? = some x → ∀ n, x.WaitsOn mover.2 n →
      ¬event.Answers n) :
    Moved event s₀ s requests (done ++ [mover]) := by
  refine ⟨hm.agrees, hm.ids, hm.regular, fun k x hx h n hw => ?_, hm.stamped⟩
  refine (hm.waits k x hx h n hw).imp_left ?_
  rintro ⟨y, hy, hyw, hdone⟩
  refine ⟨y, hy, hyw, fun hmem => ?_⟩
  rcases List.mem_append.1 hmem with hmem | hmem
  · exact hdone hmem
  · obtain rfl := List.mem_singleton.1 hmem
    exact hdeaf x hx n hw

/-- The instance of a head that moves is exchanged. -/
theorem Moved.replace {done : List (Nat × HeadId)} {mover : Nat × HeadId} {x x' : Instance}
    {requests' : Requests} (hm : Moved event s₀ s requests done)
    (hx : s.state.instances[mover.1]? = some x) (hagrees : s.Agrees s')
    (hset : s'.state.instances = s.state.instances.set mover.1 x') (hreg : x'.Regular)
    (hid : x'.id = x.id) (hmore : ∀ i h n, Asked requests i h n → Asked requests' i h n)
    (hwaits : ∀ h n, x'.WaitsOn h n → x.WaitsOn h n ∧ h ≠ mover.2 ∨ Asked requests' x.id h n)
    (hst : Stamped requests') :
    Moved event s₀ s' requests' (done ++ [mover]) := by
  have hlt := (List.getElem?_eq_some_iff.1 hx).1
  refine ⟨⟨hagrees.calls.trans hm.agrees.calls, hagrees.queue.trans hm.agrees.queue,
    hagrees.seen.trans hm.agrees.seen⟩, ?_, ?_, ?_, hst⟩
  · rw [← hm.ids, State.instanceIds, State.instanceIds, hset]
    exact map_set_of_eq hx hid
  · intro y hy
    rw [hset] at hy
    rcases List.mem_or_eq_of_mem_set hy with hy | rfl
    · exact hm.regular y hy
    · exact hreg
  · intro k y hy h n hw
    rw [hset, List.getElem?_set] at hy
    split at hy
    · next hk =>
      obtain rfl : x' = y := by simpa [hlt] using hy
      subst hk
      rcases hwaits h n hw with ⟨hold, hne⟩ | hask
      · refine (hm.waits _ x hx h n hold).imp ?_ fun ha => hid ▸ hmore _ _ _ ha
        rintro ⟨z, hz, hzw, hdone⟩
        refine ⟨z, hz, hzw, fun hmem => hdone ?_⟩
        refine (List.mem_append.1 hmem).resolve_right fun hlast => hne ?_
        exact congrArg Prod.snd (List.mem_singleton.1 hlast)
      · exact .inr (hid ▸ hask)
    · next hk =>
      refine (hm.waits k y hy h n hw).imp ?_ (hmore _ _ _)
      rintro ⟨z, hz, hzw, hdone⟩
      refine ⟨z, hz, hzw, fun hmem => hdone ?_⟩
      refine (List.mem_append.1 hmem).resolve_right fun hlast => hk ?_
      exact (congrArg Prod.fst (List.mem_singleton.1 hlast)).symm

/-- Moving a head of the list. -/
theorem Moved.moveHead {acc : Step × Requests} {done : List (Nat × HeadId)}
    (hm : Moved event s₀ acc.1 acc.2 done) (mover : Nat × HeadId) :
    Moved event s₀ (e.moveHead event acc mover).1 (e.moveHead event acc mover).2
      (done ++ [mover]) := by
  obtain ⟨s, requests⟩ := acc
  rw [Engine.moveHead]
  simp only
  split
  · next hnone =>
    refine hm.pass fun x hx => ?_
    rw [hnone] at hx
    cases hx
  · next x hx =>
    have hreg := hm.regular x (List.mem_of_getElem? hx)
    split
    · obtain ⟨hreg', hid, hquiet⟩ := abort_spec hreg (unloadedReason x.flow)
      exact hm.replace hx ⟨rfl, rfl, rfl⟩ rfl hreg' hid (fun _ _ _ ha => ha)
        (fun h n hw => absurd hw (hquiet h n)) hm.stamped
    · next flow _ =>
      split
      · next hnone =>
        refine hm.pass fun y hy n hw hans => ?_
        obtain rfl : x = y := by simpa [hx] using hy
        have hsome := advance?_of_answers hreg hw hans flow.program s.state.world
        rw [hnone] at hsome
        cases hsome
      · next x' world f hadv =>
        obtain ⟨hreg', hid, hwaits, hst⟩ := advance?_spec hreg hadv
        exact hm.replace hx ⟨rfl, rfl, rfl⟩ rfl hreg' hid (fun _ _ _ ha => ha.append x.id f)
          (fun h n hw => (hwaits h n hw).imp_right fun ha => asked_of_asks ha requests x.id)
          (hm.stamped.append hst x.id)

theorem Moved.foldl {movers done : List (Nat × HeadId)} {acc : Step × Requests}
    (hm : Moved event s₀ acc.1 acc.2 done) :
    Moved event s₀ (movers.foldl (e.moveHead event) acc).1
      (movers.foldl (e.moveHead event) acc).2 (done ++ movers) := by
  induction movers generalizing done acc with
  | nil => rwa [List.append_nil]
  | cons mover movers ih =>
    rw [List.foldl_cons, List.append_cons]
    exact ih (hm.moveHead mover)

/-! ## Starting instances -/

/-- What became of the instances of a step by an event: heads moved and instances were started. -/
structure Gathered (event : Event) (s₀ s : Step) (requests : Requests) : Prop where
  agrees : s₀.Agrees s
  ids : s₀.state.instanceIds <+: s.state.instanceIds
  regular : ∀ x ∈ s.state.instances, x.Regular
  /-- Who waits has asked, or did so before and was not answered. -/
  waits : ∀ i h n, s.state.Waits i h n →
    s₀.state.Waits i h n ∧ ¬event.Answers n ∨ Asked requests i h n
  stamped : Stamped requests

/-- When all heads have moved that an event moves, nobody waits who was answered. -/
theorem gathered_moveHeads (hreg : ∀ x ∈ s.state.instances, x.Regular) :
    Gathered event s (e.moveHeads event s).1 (e.moveHeads event s).2 := by
  have hstart : Moved event s s [] [] :=
    ⟨⟨rfl, rfl, rfl⟩, rfl, hreg, fun k x hx h n hw => .inl ⟨x, hx, hw, nofun⟩,
      List.forall_mem_nil _⟩
  have hm := @Moved.foldl _ _ _ e event s (movers s event) [] (s, []) hstart
  rw [List.nil_append] at hm
  refine ⟨hm.agrees, ?_, hm.regular, ?_, hm.stamped⟩
  · refine ⟨[], ?_⟩
    rw [List.append_nil]
    exact hm.ids.symm
  · rintro i h n ⟨x, hx, rfl, hw⟩
    obtain ⟨k, hk⟩ := List.mem_iff_getElem?.1 hx
    refine (hm.waits k x hk h n hw).imp_left ?_
    rintro ⟨y, hy, hyw, hdone⟩
    have hmem := List.mem_of_getElem? hy
    have hid : y.id = x.id := by
      have hget := congrArg (·[k]?) hm.ids
      simp only [State.instanceIds, List.getElem?_map] at hget
      rw [show ((movers s event).foldl (e.moveHead event) (s, [])).1.state.instances[k]? =
        some x from hk, hy] at hget
      simpa using hget.symm
    refine ⟨⟨y, hmem, hid, hyw⟩, fun hans => hdone ?_ hans⟩
    refine List.mem_flatMap.2 ⟨(y, k), List.mem_zipIdx_iff_getElem?.2 hy, ?_⟩
    exact List.mem_map_of_mem (mem_matchingHeads (hreg y hmem) hyw hans)

/-- Nothing is gathered by what leaves instances, calls and events alone. -/
theorem Gathered.congr (hg : Gathered event s₀ s requests) (hagrees : s.Agrees s')
    (hsame : s'.state.instances = s.state.instances) : Gathered event s₀ s' requests := by
  have hids : s'.state.instanceIds = s.state.instanceIds := congrArg (List.map Instance.id) hsame
  refine ⟨⟨hagrees.calls.trans hg.agrees.calls, hagrees.queue.trans hg.agrees.queue,
    hagrees.seen.trans hg.agrees.seen⟩, hids ▸ hg.ids, hsame ▸ hg.regular, fun i h n hw => ?_,
    hg.stamped⟩
  rw [State.Waits] at hw
  rw [hsame] at hw
  exact hg.waits i h n hw

theorem Gathered.spawn (hg : Gathered event s₀ s requests) (flow : LoadedFlow) (id : InstanceId)
    (parent : Option InstanceId) (bindings : Bindings) (specificity : Nat) :
    Gathered event s₀ (e.spawn s flow id parent bindings specificity).1
      (requests ++ [(id, (e.spawn s flow id parent bindings specificity).2)]) := by
  generalize hi : (Instance.spawn id flow.id (flow.flow.priority.getD e.config.defaultPriority)
    s.state.nextInstance parent bindings specificity).observe
      (.instanceSpawned id flow.id parent) = i
  have hheads : i.heads = [⟨⟨0⟩, 0, .ready, Dict.ofList bindings, [], specificity⟩] := by
    rw [← hi]
    rfl
  have honly : ∀ x ∈ i.heads, x.id.number < i.nextHead ∧ x.state = .ready := by
    intro x hx
    rw [hheads] at hx
    obtain rfl := List.mem_singleton.1 hx
    rw [← hi]
    exact ⟨Nat.zero_lt_one, rfl⟩
  obtain ⟨hreg, hid, hwaits, hst⟩ := @start_spec _ _ _ flow.program i s.state.world
    (by rw [hheads]; simp) (fun x hx => (honly x hx).1) (by rw [← hi]; rfl) (by
      rintro h n ⟨x, hx, -, v, r, hw⟩
      rw [(honly x hx).2] at hw
      cases hw)
  have hid' : i.id = id := by rw [← hi]; rfl
  rw [Engine.spawn]
  simp only
  rw [hi]
  generalize i.start flow.program s.state.world = started at hreg hid hwaits hst
  obtain ⟨x, world, f⟩ := started
  simp only at hreg hid hwaits hst ⊢
  rw [hid'] at hid hwaits hst
  refine ⟨⟨hg.agrees.calls, hg.agrees.queue, hg.agrees.seen⟩, ?_, ?_, ?_,
    hg.stamped.append hst id⟩
  · simp only [State.instanceIds, Step.update, State.setWorld, List.map_append]
    exact hg.ids.trans (List.prefix_append _ _)
  · intro y hy
    simp only [Step.update, State.setWorld, List.mem_append, List.mem_singleton] at hy
    rcases hy with hy | rfl
    · exact hg.regular y hy
    · exact hreg
  · rintro j h n ⟨y, hy, rfl, hw⟩
    simp only [Step.update, State.setWorld, List.mem_append, List.mem_singleton] at hy
    rcases hy with hy | rfl
    · exact (hg.waits _ h n ⟨y, hy, rfl, hw⟩).imp_right fun ha => ha.append id f
    · rw [hid]
      exact .inr (asked_of_asks (hwaits h n hw) requests id)

theorem Gathered.reserve {key : String} (hg : Gathered event s₀ s requests)
    (hr : e.reserve? s key = some s') : Gathered event s₀ s' requests := by
  rw [reserve?] at hr
  split at hr
  · cases hr
    exact hg.congr ⟨rfl, rfl, rfl⟩ rfl
  · cases hr

theorem Gathered.activateFlow {acc : Step × Requests} (hg : Gathered event s₀ acc.1 acc.2)
    (flow : LoadedFlow) :
    Gathered event s₀ (e.activateFlow event acc flow).1 (e.activateFlow event acc flow).2 := by
  obtain ⟨s, requests⟩ := acc
  rw [Engine.activateFlow]
  simp only
  split
  · exact hg
  · next pattern bindings _ =>
    split
    · exact hg.congr ⟨rfl, rfl, rfl⟩ rfl
    · next s' hr =>
      have hnext : Gathered event s₀
          (s'.update fun s => { s with ids := s'.state.ids.nextInstance.2 }) requests :=
        (hg.reserve hr).congr ⟨rfl, rfl, rfl⟩ rfl
      exact hnext.spawn flow _ none bindings pattern.specificity

theorem Gathered.activate (hg : Gathered event s₀ s requests) :
    Gathered event s₀ (e.activate event s requests).1 (e.activate event s requests).2 :=
  List.foldlRecOn e.catalog.flows (e.activateFlow event)
    (motive := fun acc => Gathered event s₀ acc.1 acc.2) hg
    fun _ hacc flow _ => hacc.activateFlow flow

/-- Looking for the next child to start leaves instances, calls and events alone. -/
theorem Gathered.nextGrant {children : List Child} {g : Option Grant}
    (hg : Gathered event s₀ s requests) (h : e.nextGrant s children = (s', g)) :
    Gathered event s₀ s' requests := by
  fun_induction Engine.nextGrant e s children with
  | case1 s =>
    cases h
    exact hg
  | case2 s c rest _ ih => exact ih hg h
  | case3 s c rest flow _ _ ih => exact ih (hg.congr ⟨rfl, rfl, rfl⟩ rfl) h
  | case4 s c rest flow _ s' hr =>
    cases h
    exact hg.reserve hr

theorem Gathered.startChildren {children : List Child} (hg : Gathered event s₀ s requests) :
    Gathered event s₀ (e.startChildren s requests children).1
      (e.startChildren s requests children).2 := by
  fun_induction Engine.startChildren e s requests children with
  | case1 s requests children s' hnone => exact hg.nextGrant hnone
  | case2 s requests children s' g hsome id started ih =>
    exact ih ((hg.nextGrant hsome).spawn g.flow id (some g.child.parent)
      g.child.request.bindings 0)

/-- **Who waits after the first half of a round has just asked for the call, or did wait before and
was not answered.** -/
theorem gather_spec (hreg : ∀ x ∈ s.state.instances, x.Regular) :
    Gathered event s (e.gather event s).1 (e.gather event s).2 :=
  (gathered_moveHeads hreg).activate.startChildren

end Gathering

end Engine

end EventFlow

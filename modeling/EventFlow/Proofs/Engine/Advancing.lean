import EventFlow.Proofs.Engine.Invariant
import EventFlow.Proofs.Engine.Tended
import EventFlow.Proofs.Instance.Listening
import EventFlow.Query.Eval

/-!
# Who takes an event

The heads an event moves are chosen when its round begins, and moved one after the other.  In
between their instances change: heads are forked, merged and aborted, the variables of the
conversation are written, and instances end.  This file follows the round head by head and shows
that none of this matters: every head that was chosen takes the event as it stood at the beginning,
and nothing else takes it.

## What is here

* `Taking` records how a head has taken an event, and `Engine.takings` all of them in a round, read
  off the states in which the heads are moved.
* `Engine.Waiting` is the invariant: the heads that are still to be moved stand as they stood.
* `Engine.Spares` says that an instance was not touched, and who has asked for something.
* `Engine.Advances` collects what is right about a round.

**`advances_of_reachable`** says that this is so for every round of every request.  One thing needs
care: notices that an emission has lost go by the identity of the instance, so an instance that
takes no part in a round is left alone only if no other one has the same identity
(`touched_twin`).
-/

set_option autoImplicit false

namespace EventFlow

section

variable {Compiled Found : Type} [Query.Library Compiled Found]

/-- How a head has taken an event: the place of its instance, how it stood and how it goes on. -/
structure Taking where
  place : Nat
  before : Head
  after : Head

/-- A head has gone on where the first of its expectations leads that an event satisfies. -/
def Taking.First (t : Taking) (event : Event) : Prop :=
  ∃ passed x rest bindings, t.before.expectations = passed ++ x :: rest ∧
    (∀ y ∈ passed, y.pattern.match? event t.before.bindings = none) ∧
    x.pattern.match? event t.before.bindings = some bindings ∧
    t.after.id = t.before.id ∧ t.after.state = .ready ∧ t.after.position = x.resume

theorem first_resume {h : Head} {event : Event} {m : HeadMatch} (hm : h.match? event = some m)
    (k : Nat) (w : World) :
    Taking.First ⟨k, h, (Instance.resume h m event w).1⟩ event := by
  obtain ⟨passed, x, rest, hsplit, hx, hpassed⟩ := List.findSome?_eq_some_iff.1 hm
  obtain ⟨bindings, hbindings, rfl⟩ := Option.map_eq_some_iff.1 hx
  obtain ⟨hid, hready⟩ := resume_head h ⟨x.resume, bindings, x.pattern.specificity, h.resultTarget⟩
    event w
  refine ⟨passed, x, rest, bindings, hsplit, fun y hy => ?_, hbindings, hid, hready, ?_⟩
  · exact Option.map_eq_none_iff.1 (hpassed y hy)
  · exact Machine.position_bindOption ..

namespace Engine

variable (e : Engine)

/-- How a head takes an event in a step, if it does. -/
def taking? (event : Event) (s : Step) (mover : Nat × HeadId) : Option Taking := do
  let i ← s.state.instances[mover.1]?
  let _ ← e.catalog.find? i.flow
  let (before, after) ← i.taking? s.state.world mover.2 event
  return ⟨mover.1, before, after⟩

/-- How heads take an event that are moved one after the other. -/
def takingsFrom (event : Event) : Step × Requests → List (Nat × HeadId) → List Taking
  | _, [] => []
  | acc, mover :: rest =>
    (e.taking? event acc.1 mover).toList ++ takingsFrom event (e.moveHead event acc mover) rest

/-- How heads take the event of a round. -/
def takings (event : Event) (s : Step) : List Taking :=
  e.takingsFrom event (s, []) (movers s event)

variable {e} {event : Event} {s₀ s : Step} {requests : Requests}

/-! ## Instances in order -/

/-- An instance is regular, and its flow is loaded. -/
def InOrder (e : Engine) (i : Instance) : Prop :=
  i.Regular ∧ (e.catalog.find? i.flow).isSome = true

/-- A new instance is regular when it has been started, and asks on behalf of itself. -/
theorem start_spawn_spec (flow : LoadedFlow) (id : InstanceId) (priority : Int) (createdAt : Nat)
    (parent : Option InstanceId) (bindings : Bindings) (specificity : Nat) (o : Observation)
    (w : World) {r : Instance × World × Effects}
    (hr : ((Instance.spawn id flow.id priority createdAt parent bindings specificity).observe
      o).start flow.program w = r) :
    r.1.Regular ∧ r.1.id = id ∧ r.1.flow = flow.id ∧ r.2.2.Stamped id := by
  generalize hi : (Instance.spawn id flow.id priority createdAt parent bindings specificity).observe
    o = i at hr
  have hheads : i.heads = [⟨⟨0⟩, 0, .ready, Dict.ofList bindings, [], specificity⟩] := by
    rw [← hi]
    rfl
  have honly : ∀ x ∈ i.heads, x.id.number < i.nextHead ∧ x.state = .ready := by
    intro x hx
    rw [hheads] at hx
    obtain rfl := List.mem_singleton.1 hx
    rw [← hi]
    exact ⟨Nat.zero_lt_one, rfl⟩
  obtain ⟨hreg, hid, -, hst⟩ := @start_spec _ _ _ flow.program i w (by rw [hheads]; simp)
    (fun x hx => (honly x hx).1) (by rw [← hi]; rfl) (by
      rintro h n ⟨x, hx, -, v, r, hw⟩
      rw [(honly x hx).2] at hw
      cases hw)
  have hflow : (i.start flow.program w).1.flow = i.flow := (remains_start ..).1.flow
  rw [hr] at hreg hid hst hflow
  rw [← hi] at hid hst hflow
  exact ⟨hreg, hid, hflow, hst⟩

theorem inOrder_keep (e : Engine) : e.InstancesKeep (InOrder e) where
  capture _ _ _ := trivial
  start {flow bindings _} hloaded id priority createdAt parent specificity w _ hr := by
    obtain ⟨hreg, -, hflow, -⟩ := start_spawn_spec flow id priority createdAt parent bindings
      specificity _ w hr
    refine ⟨⟨hreg, ?_⟩, fun _ _ => trivial⟩
    rw [hflow]
    exact List.find?_isSome.2 ⟨flow, hloaded, decide_eq_true rfl⟩
  advance {i flow w head event r} hi _ hadv := by
    obtain ⟨i', w', f⟩ := r
    refine ⟨⟨(advance?_spec hi.1 hadv).1, ?_⟩, fun _ _ => trivial⟩
    rw [(remains_advance? hadv).1.flow]
    exact hi.2
  abort {i} reason hi := by
    refine ⟨(abort_spec hi.1 reason).1, ?_⟩
    rw [(remains_abort i reason).flow]
    exact hi.2
  note _ hi := ⟨⟨hi.1.distinct, hi.1.fresh, hi.1.ended⟩, hi.2⟩
  windUp _ _ hi := ⟨⟨hi.1.distinct, hi.1.fresh, hi.1.ended⟩, hi.2⟩
  drain hi := ⟨⟨hi.1.distinct, hi.1.fresh, hi.1.ended⟩, hi.2⟩

/-! ## Moving heads -/

/-- The head `h` of the instance at a place is to be moved, and stands as it stood when the round
began. -/
structure Awaits (event : Event) (s₀ s : Step) (mover : Nat × HeadId) (h : Head) : Prop where
  stood : ∃ x, s₀.state.instances[mover.1]? = some x ∧ x.isDeafTo event = false ∧ h ∈ x.heads
  stands : ∃ x, s.state.instances[mover.1]? = some x ∧ x.isDeafTo event = false ∧ h ∈ x.heads
  id : h.id = mover.2
  expects : (h.match? event).isSome = true

/-- All instances are in order, and heads that are still to be moved stand as they stood. -/
structure Waiting (e : Engine) (event : Event) (s₀ s : Step) (rest : List (Nat × HeadId)) :
    Prop where
  order : ∀ i ∈ s.state.instances, InOrder e i
  awaits : ∀ mover ∈ rest, ∃ h, Awaits event s₀ s mover h

theorem mem_movers {mover : Nat × HeadId} : mover ∈ movers s event ↔
    ∃ x h, s.state.instances[mover.1]? = some x ∧ x.isDeafTo event = false ∧ h ∈ x.heads ∧
      h.id = mover.2 ∧ (h.match? event).isSome = true := by
  obtain ⟨k, id⟩ := mover
  simp only [movers, List.mem_flatMap, List.mem_map, Prod.mk.injEq, Prod.exists,
    List.mem_zipIdx_iff_getElem?, Instance.matchingHeads]
  constructor
  · rintro ⟨x, j, hx, id', hid, rfl, rfl⟩
    split at hid
    · cases hid
    · next hdeaf =>
      obtain ⟨h, hh, rfl⟩ := List.mem_map.1 hid
      obtain ⟨hh, hm⟩ := List.mem_filter.1 hh
      exact ⟨x, h, hx, by simpa using hdeaf, hh, rfl, hm⟩
  · rintro ⟨x, h, hx, hdeaf, hh, rfl, hm⟩
    refine ⟨x, k, hx, h.id, ?_, rfl, rfl⟩
    rw [hdeaf, if_neg (by simp)]
    exact List.mem_map_of_mem (List.mem_filter.2 ⟨hh, hm⟩)

theorem nodup_movers (hs : ∀ i ∈ s.state.instances, InOrder e i) : (movers s event).Nodup := by
  rw [movers, List.nodup_flatMap]
  refine ⟨fun p hp => ?_, ?_⟩
  · have hreg := (hs p.1 (List.mem_of_getElem? (List.mem_zipIdx_iff_getElem?.1 hp))).1
    refine List.Nodup.map (fun a b hab => congrArg Prod.snd hab) ?_
    rw [Instance.matchingHeads]
    split
    · exact List.nodup_nil
    · exact hreg.distinct.sublist (List.filter_sublist.map _)
  · have hplaces : (s.state.instances.zipIdx.map Prod.snd).Pairwise (· ≠ ·) := by
      rw [List.zipIdx_map_snd]
      exact List.nodup_range'
    refine (List.pairwise_map.1 hplaces).imp fun {p q} hne => ?_
    intro mover hp hq
    obtain ⟨_, -, rfl⟩ := List.mem_map.1 hp
    obtain ⟨_, -, hsame⟩ := List.mem_map.1 hq
    exact hne (congrArg Prod.fst hsame).symm

theorem waiting_movers (hs : ∀ i ∈ s.state.instances, InOrder e i) :
    Waiting e event s s (movers s event) := by
  refine ⟨hs, fun mover hmover => ?_⟩
  obtain ⟨x, h, hx, hdeaf, hh, hid, hm⟩ := mem_movers.1 hmover
  exact ⟨h, ⟨x, hx, hdeaf, hh⟩, ⟨x, hx, hdeaf, hh⟩, hid, hm⟩

/-- A head that is to be moved takes the event. -/
theorem Awaits.taking? {mover : Nat × HeadId} {h : Head} {acc : Step × Requests}
    (hw : Awaits event s₀ acc.1 mover h) (hs : ∀ i ∈ acc.1.state.instances, InOrder e i) :
    ∃ after, e.taking? event acc.1 mover = some ⟨mover.1, h, after⟩ ∧
      Taking.First ⟨mover.1, h, after⟩ event := by
  obtain ⟨x, hx, hdeaf, hh⟩ := hw.stands
  obtain ⟨hreg, hloaded⟩ := hs x (List.mem_of_getElem? hx)
  obtain ⟨flow, hflow⟩ := Option.isSome_iff_exists.1 hloaded
  obtain ⟨m, hm⟩ := Option.isSome_iff_exists.1 hw.expects
  refine ⟨_, ?_, first_resume hm mover.1 acc.1.state.world⟩
  rw [Engine.taking?]
  rw [hx, ← hw.id]
  simp [hflow, taking?_of_match? hreg.distinct hdeaf hh hm]

/-- A head that is to be moved is not refused. -/
theorem Awaits.advance? {mover : Nat × HeadId} {h : Head} (hw : Awaits event s₀ s mover h)
    (hs : ∀ i ∈ s.state.instances, InOrder e i) : ∃ i flow,
      s.state.instances[mover.1]? = some i ∧ e.catalog.find? i.flow = some flow ∧
        (i.advance? flow.program s.state.world mover.2 event).isSome = true := by
  obtain ⟨x, hx, hdeaf, hh⟩ := hw.stands
  obtain ⟨hreg, hloaded⟩ := hs x (List.mem_of_getElem? hx)
  obtain ⟨flow, hflow⟩ := Option.isSome_iff_exists.1 hloaded
  obtain ⟨m, hm⟩ := Option.isSome_iff_exists.1 hw.expects
  refine ⟨x, flow, hx, hflow, ?_⟩
  rw [advance?_isSome, ← hw.id, taking?_of_match? hreg.distinct hdeaf hh hm]
  rfl

theorem Waiting.moveHead {mover : Nat × HeadId} {rest : List (Nat × HeadId)}
    {acc : Step × Requests} (hw : Waiting e event s₀ acc.1 (mover :: rest))
    (hnew : mover ∉ rest) : Waiting e event s₀ (e.moveHead event acc mover).1 rest := by
  obtain ⟨s, requests⟩ := acc
  refine ⟨(inOrder_keep e).moveHead hw.order mover, fun other hother => ?_⟩
  obtain ⟨h, hh⟩ := hw.awaits mover (.head _)
  obtain ⟨h', hh'⟩ := hw.awaits other (.tail _ hother)
  obtain ⟨x, flow, hx, hflow, hsome⟩ := hh.advance? hw.order
  obtain ⟨⟨x', world, f⟩, hadv⟩ := Option.isSome_iff_exists.1 hsome
  obtain ⟨y, hy, hdeaf, hmem⟩ := hh'.stands
  simp only at hx hy hadv
  have hreg := (hw.order x (List.mem_of_getElem? hx)).1
  refine ⟨h', hh'.stood, ?_, hh'.id, hh'.expects⟩
  have hmoved : (e.moveHead event (s, requests) mover).1.state.instances =
      s.state.instances.set mover.1 x' := by
    rw [Engine.moveHead]
    simp only [hx, hflow, hadv]
    rfl
  rw [hmoved]
  by_cases hplace : mover.1 = other.1
  · -- both heads are in one instance, and the one that is moved is not the other one
    rw [← hplace, hx] at hy
    obtain rfl := Option.some.inj hy
    have hne : h'.id ≠ mover.2 := by
      intro heq
      refine hnew ?_
      rwa [show mover = other from Prod.ext hplace (heq.symm.trans hh'.id)]
    obtain ⟨hkept, hlive⟩ :=
      mem_advance? hreg hadv (Head.listens_of_match? hh'.expects) hmem hne
    refine ⟨x', ?_, ?_, hkept⟩
    · rw [← hplace]
      exact List.getElem?_set_self (List.getElem?_eq_some_iff.1 hx).1
    · rw [Instance.isDeafTo, Bool.or_eq_false_iff] at hdeaf ⊢
      refine ⟨hlive, ?_⟩
      rw [Instance.addressedElsewhere, (advance?_spec hreg hadv).2.1]
      exact hdeaf.2
  · rw [List.getElem?_set_ne hplace]
    exact ⟨y, hy, hdeaf, hmem⟩

theorem Waiting.foldl {done rest : List (Nat × HeadId)} {acc : Step × Requests}
    (hw : Waiting e event s₀ acc.1 (done ++ rest)) (hnodup : (done ++ rest).Nodup) :
    Waiting e event s₀ (done.foldl (e.moveHead event) acc).1 rest := by
  induction done generalizing acc with
  | nil => exact hw
  | cons mover done ih =>
    rw [List.cons_append] at hw hnodup
    rw [List.nodup_cons] at hnodup
    exact ih (hw.moveHead hnodup.1) hnodup.2

/-- **Every head that was chosen takes the event**, in the order in which they were chosen, and as
it stood when the round began. -/
theorem Waiting.takingsFrom {rest : List (Nat × HeadId)} {acc : Step × Requests}
    (hw : Waiting e event s₀ acc.1 rest) (hnodup : rest.Nodup) :
    (e.takingsFrom event acc rest).map (fun t => (t.place, t.before.id)) = rest ∧
      ∀ t ∈ e.takingsFrom event acc rest, t.First event ∧
        (t.before.match? event).isSome = true ∧
        ∃ x, s₀.state.instances[t.place]? = some x ∧ x.isDeafTo event = false ∧
          t.before ∈ x.heads := by
  induction rest generalizing acc with
  | nil => exact ⟨rfl, nofun⟩
  | cons mover rest ih =>
    rw [List.nodup_cons] at hnodup
    obtain ⟨h, hh⟩ := hw.awaits mover (.head _)
    obtain ⟨after, htaking, hfirst⟩ := hh.taking? hw.order
    obtain ⟨hmap, hall⟩ := ih (hw.moveHead hnodup.1) hnodup.2
    rw [Engine.takingsFrom, htaking]
    refine ⟨?_, ?_⟩
    · rw [Option.toList_some, List.singleton_append, List.map_cons, hmap, hh.id]
    · rw [Option.toList_some, List.singleton_append, List.forall_mem_cons]
      exact ⟨⟨hfirst, hh.expects, hh.stood⟩, hall⟩

/-! ## Instances that are left alone -/

/-- The instance at a place was not touched, and what was asked for others have asked for. -/
structure Spares (k : Nat) (i : Instance) (s : Step) (requests : Requests) : Prop where
  same : s.state.instances[k]? = some i
  others : ∀ m ∈ emissionsOf requests,
    ∃ j x, j ≠ k ∧ s.state.instances[j]? = some x ∧ x.id = m.instanceId

section Sparing

variable {k : Nat} {i : Instance}

theorem Spares.moveHead {acc : Step × Requests} {mover : Nat × HeadId}
    (hs : Spares k i acc.1 acc.2) (hreg : ∀ i ∈ acc.1.state.instances, i.Regular)
    (hne : mover.1 ≠ k) :
    Spares k i (e.moveHead event acc mover).1 (e.moveHead event acc mover).2 := by
  obtain ⟨s, requests⟩ := acc
  have hput {x x' : Instance} (hx : s.state.instances[mover.1]? = some x) (hid : x'.id = x.id) :
      (s.state.instances.set mover.1 x')[k]? = some i ∧ ∀ m ∈ emissionsOf requests, ∃ j y, j ≠ k ∧
        (s.state.instances.set mover.1 x')[j]? = some y ∧ y.id = m.instanceId := by
    refine ⟨by rw [List.getElem?_set_ne hne]; exact hs.same, fun m hm => ?_⟩
    obtain ⟨j, y, hj, hy, hyid⟩ := hs.others m hm
    by_cases hjm : mover.1 = j
    · subst hjm
      refine ⟨_, x', hj, List.getElem?_set_self (List.getElem?_eq_some_iff.1 hx).1, ?_⟩
      rw [hid, ← hyid]
      simp only at hy
      rw [hx] at hy
      rw [Option.some.inj hy]
    · exact ⟨j, y, hj, by rw [List.getElem?_set_ne hjm]; exact hy, hyid⟩
  rw [Engine.moveHead]
  simp only
  split
  · exact hs
  · next x hx =>
    have hx' := hreg x (List.mem_of_getElem? hx)
    split
    · obtain ⟨hsame, hothers⟩ := hput hx (abort_spec hx' (unloadedReason x.flow)).2.1
      exact ⟨hsame, hothers⟩
    · next flow _ =>
      split
      · exact hs
      · next x' world f hadv =>
        obtain ⟨-, hid, -, hst⟩ := advance?_spec hx' hadv
        obtain ⟨hsame, hothers⟩ := hput hx hid
        refine ⟨hsame, fun m hm => ?_⟩
        rw [emissionsOf_append, List.mem_append] at hm
        rcases hm with hm | hm
        · exact hothers m hm
        · refine ⟨mover.1, x', hne, List.getElem?_set_self (List.getElem?_eq_some_iff.1 hx).1, ?_⟩
          rw [hid, (hst m hm).1]

theorem spares_starts (e : Engine) (k : Nat) (i : Instance) : e.StartsKeep (Spares k i) where
  refuse _ _ hs := ⟨hs.same, hs.others⟩
  count _ hs := ⟨hs.same, hs.others⟩
  identify hs := ⟨hs.same, hs.others⟩
  spawn {s requests flow parent bindings} _ id specificity _ hs := by
    generalize hr : ((Instance.spawn id flow.id (flow.flow.priority.getD e.config.defaultPriority)
      s.state.nextInstance parent bindings specificity).observe
        (.instanceSpawned id flow.id parent)).start flow.program s.state.world = r
    obtain ⟨-, hid, -, hst⟩ := start_spawn_spec _ _ _ _ _ _ _ _ _ hr
    have hspawn : (e.spawn s flow id parent bindings specificity).1.state.instances =
        s.state.instances ++ [r.1] ∧
        (e.spawn s flow id parent bindings specificity).2 = r.2.2 := by
      rw [Engine.spawn]
      rw [hr]
      exact ⟨rfl, rfl⟩
    have hkeep {j : Nat} {x : Instance} (hx : s.state.instances[j]? = some x) :
        (e.spawn s flow id parent bindings specificity).1.state.instances[j]? = some x := by
      rw [hspawn.1, List.getElem?_append_left (List.getElem?_eq_some_iff.1 hx).1]
      exact hx
    refine ⟨hkeep hs.same, fun m hm => ?_⟩
    rw [emissionsOf_append, List.mem_append] at hm
    rcases hm with hm | hm
    · obtain ⟨j, x, hj, hx, hxid⟩ := hs.others m hm
      exact ⟨j, x, hj, hkeep hx, hxid⟩
    · rw [hspawn.2] at hm
      refine ⟨s.state.instances.length, r.1, ?_, ?_, ?_⟩
      · exact Nat.ne_of_gt (List.getElem?_eq_some_iff.1 hs.same).1
      · rw [hspawn.1]
        exact List.getElem?_concat_length
      · rw [hid, (hst m hm).1]

/-- The first half of a round spares an instance none of whose heads is chosen. -/
theorem spares_gather (hs : ∀ i ∈ s.state.instances, InOrder e i)
    (hk : s.state.instances[k]? = some i) (hnone : ∀ mover ∈ movers s event, mover.1 ≠ k) :
    Spares k i (e.gather event s).1 (e.gather event s).2 := by
  refine (spares_starts e k i).gather ?_
  have hstart : (∀ x ∈ s.state.instances, InOrder e x) ∧ Spares k i s [] := ⟨hs, hk, nofun⟩
  exact (List.foldlRecOn (movers s event) (e.moveHead event) (b := (s, []))
    (motive := fun acc => (∀ x ∈ acc.1.state.instances, InOrder e x) ∧ Spares k i acc.1 acc.2)
    hstart fun acc hacc mover hmover => ⟨(inOrder_keep e).moveHead hacc.1 mover,
      hacc.2.moveHead (fun x hx => (hacc.1 x hx).1) (hnone mover hmover)⟩).2

theorem getElem?_updateInstance {id : InstanceId} {f : Instance → Instance}
    (hk : s.state.instances[k]? = some i) (hne : i.id ≠ id) :
    (s.updateInstance id f).state.instances[k]? = some i := by
  rw [Step.updateInstance]
  split
  · exact hk
  · next j hj =>
    have hid := (List.findIdx?_eq_some_iff_getElem.1 hj)
    obtain ⟨hlt, hid, -⟩ := hid
    have hjk : j ≠ k := by
      rintro rfl
      rw [List.getElem?_eq_getElem hlt] at hk
      rw [Option.some.inj hk] at hid
      exact hne (by simpa using hid)
    simp only [Step.update, List.getElem?_modify, hk, if_neg hjk]
    rfl

/-- Notices that emissions have lost go to other instances. -/
theorem getElem?_apply (hk : s.state.instances[k]? = some i)
    (hne : ∀ m ∈ emissionsOf requests, m.instanceId ≠ i.id) :
    (e.apply s requests).state.instances[k]? = some i := by
  refine e.apply_preserves (P := fun s => s.state.instances[k]? = some i) requests
    (fun _ _ _ hs => hs) (fun s m _ hs => ?_) (fun s lost hlost hs => ?_) (fun _ _ _ hs => hs) hk
  · rwa [instances_deliver]
  · have hnoted := getElem?_updateInstance (f := (·.noteOverridden lost.emission.id)) hs
      (Ne.symm (hne _ (Conflict.mem_of_overridden hlost)))
    rw [suppress]
    cases lost.emission.intent <;> exact hnoted

theorem getElem?_windUpEnded (hk : s.state.instances[k]? = some i)
    (hlive : i.status.isTerminal = false) :
    (windUpEnded s).state.instances[k]? = some i := by
  rw [instances_windUpEnded, List.getElem?_map, hk, Option.map_some, noteEnd, isEnded, hlive]
  rfl

theorem instanceIds_windUpEnded (s : Step) :
    (windUpEnded s).state.instanceIds = s.state.instanceIds := by
  rw [State.instanceIds, instances_windUpEnded, List.map_map]
  exact List.map_congr_left fun i _ => noteEnd_id _ i

/-- What happens after the first half of a round changes no identities. -/
theorem instanceIds_round (e : Engine) (s : Step) (event : Event) :
    (e.round s event).state.instanceIds = (e.gather event s).1.state.instanceIds := by
  rw [round_eq, instanceIds_windUpEnded]
  exact instanceIds_of_cores (applied_compete e event s).cores

/-- **A live instance that takes no part in a round is left as it is**, if no other instance has its
identity. -/
theorem getElem?_round (hs : ∀ i ∈ s.state.instances, InOrder e i)
    (hk : s.state.instances[k]? = some i) (hlive : i.status.isTerminal = false)
    (hnone : ∀ mover ∈ movers s event, mover.1 ≠ k)
    (hunique : ∀ j x, (e.round s event).state.instances[j]? = some x → x.id = i.id → j = k) :
    (e.round s event).state.instances[k]? = some i := by
  have hspares := spares_gather hs hk hnone
  refine getElem?_windUpEnded (getElem?_apply hspares.same fun m hm hid => ?_) hlive
  obtain ⟨j, x, hj, hx, hxid⟩ := hspares.others m hm
  have hids := congrArg (·[j]?) (instanceIds_round e s event)
  simp only [State.instanceIds, List.getElem?_map, hx, Option.map_some] at hids
  obtain ⟨y, hy, hyid⟩ := Option.map_eq_some_iff.1 hids
  exact hj (hunique j y hy (hyid.trans (hxid.trans hid)))

end Sparing

/-! ## Rounds -/

/-- What is right about a round: which heads take its event, and what becomes of the others. -/
structure Advances (e : Engine) (s : Step) (event : Event) : Prop where
  /-- Those heads take it that existed before and expect it, in instances that have not ended and
  that it is not addressed away from. -/
  takes : ∀ k h, (∃ t ∈ e.takings event s, t.place = k ∧ t.before = h) ↔
    ∃ i, s.state.instances[k]? = some i ∧ i.status.isTerminal = false ∧
      i.addressedElsewhere event = false ∧ h ∈ i.heads ∧
      ∃ x ∈ h.expectations, (x.pattern.match? event h.bindings).isSome = true
  /-- They take it once each. -/
  once : ((e.takings event s).map fun t => (t.place, t.before.id)).Nodup
  /-- They go on where the first of their expectations leads that it satisfies. -/
  first : ∀ t ∈ e.takings event s, t.First event
  /-- No head that was chosen is refused when it is moved, whatever was moved before. -/
  accepted : ∀ done mover rest, movers s event = done ++ mover :: rest →
    ∃ i flow, (done.foldl (e.moveHead event) (s, [])).1.state.instances[mover.1]? = some i ∧
      e.catalog.find? i.flow = some flow ∧
      (i.advance? flow.program (done.foldl (e.moveHead event) (s, [])).1.state.world mover.2
        event).isSome = true
  /-- Live instances without such heads are left as they are, unless they share their identity. -/
  spares : ∀ k i, s.state.instances[k]? = some i → i.status.isTerminal = false →
    (∀ t ∈ e.takings event s, t.place ≠ k) →
    (∀ j x, (e.round s event).state.instances[j]? = some x → x.id = i.id → j = k) →
    (e.round s event).state.instances[k]? = some i

theorem advances_of_inOrder (hs : ∀ i ∈ s.state.instances, InOrder e i) (event : Event) :
    e.Advances s event := by
  have hwaiting : Waiting e event s s (movers s event) := waiting_movers hs
  have hnodup : (movers s event).Nodup := nodup_movers hs
  obtain ⟨hmap, hall⟩ := @Waiting.takingsFrom _ _ _ e event s (movers s event) (s, []) hwaiting hnodup
  refine ⟨fun k h => ⟨?_, ?_⟩, by rw [takings, hmap]; exact hnodup, fun t ht => (hall t ht).1,
    fun done mover rest hsplit => ?_, fun k i hk hlive hnone hunique => ?_⟩
  · rintro ⟨t, ht, rfl, rfl⟩
    obtain ⟨-, hm, x, hx, hdeaf, hh⟩ := hall t ht
    rw [Instance.isDeafTo, Bool.or_eq_false_iff] at hdeaf
    refine ⟨x, hx, hdeaf.1, hdeaf.2, hh, ?_⟩
    simpa [Head.match?, List.findSome?_isSome_iff] using hm
  · rintro ⟨x, hx, hlive, haddressed, hh, hm⟩
    have hm : (h.match? event).isSome = true := by
      simpa [Head.match?, List.findSome?_isSome_iff] using hm
    have hdeaf : x.isDeafTo event = false := by
      rw [Instance.isDeafTo, hlive, haddressed]
      rfl
    have hmover : (k, h.id) ∈ movers s event := mem_movers.2 ⟨x, h, hx, hdeaf, hh, rfl, hm⟩
    rw [← hmap] at hmover
    obtain ⟨t, ht, hsame⟩ := List.mem_map.1 hmover
    obtain ⟨-, -, y, hy, -, hbefore⟩ := hall t ht
    obtain rfl : t.place = k := congrArg Prod.fst hsame
    rw [hx] at hy
    obtain rfl := Option.some.inj hy
    have hreg := (hs x (List.mem_of_getElem? hx)).1
    exact ⟨t, ht, rfl, Instance.eq_of_id hreg.distinct hh hbefore (congrArg Prod.snd hsame)⟩
  · rw [hsplit] at hwaiting hnodup
    have hnow := @Waiting.foldl _ _ _ e event s done (mover :: rest) (s, []) hwaiting hnodup
    obtain ⟨h, hh⟩ := hnow.awaits mover (.head _)
    exact hh.advance? hnow.order
  · refine getElem?_round hs hk hlive (fun mover hmover hplace => ?_) hunique
    rw [← hmap] at hmover
    obtain ⟨t, ht, rfl⟩ := List.mem_map.1 hmover
    exact hnone t ht hplace

/-- **In every round exactly the right heads advance.** -/
theorem advances_of_reachable (e : Engine) {s : State} (hs : e.Reachable s) (r : Request) :
    ∀ round ∈ e.roundsBy s r, e.Advances round.1 round.2 := fun round hround =>
  advances_of_inOrder
    (((inOrder_keep e).respond ((inOrder_keep e).reachable hs) r).2 round hround) round.2

/-! ## Twins -/

/-- A request that is refused costs an identity. -/
theorem Reachable.refused {s : State} (hs : e.Reachable s) :
    e.Reachable { s with ids := s.ids.next.2 } :=
  hs.respond (.named "" [])

theorem Reachable.refusals {s : State} (hs : e.Reachable s) (n : Nat) :
    e.Reachable { s with ids := ⟨s.ids.seed, s.ids.issued + .ofNat n⟩ } := by
  induction n with
  | zero => simpa using hs
  | succ n ih =>
    have hnext := ih.refused
    simp only [IdSource.next] at hnext
    rwa [UInt64.ofNat_add, ← UInt64.add_assoc]

end Engine

end

namespace Engine

/-- A flow that waits for an event, once it has been started. -/
def bystander : Flow where
  id := ⟨"c"⟩
  description := none
  priority := none
  activation := some ⟨"wait", []⟩
  body := [.expect ⟨"end", []⟩]

/-- A flow that calls an action. -/
def caller (name : String) (priority : Int) : Flow where
  id := ⟨name⟩
  description := none
  priority := some priority
  activation := some ⟨"go", []⟩
  body := [.call (.named "act")]

/-- A flow that waits, and two that compete for a call. -/
def crowd : Engine where
  catalog := ⟨[bystander, caller "a" 50, caller "b" 60].map fun flow => ⟨flow, .ofBody flow.body⟩⟩
  config := Config.default

/-- An event from outside that carries nothing. -/
def plain (id name : String) : Event := ⟨⟨id⟩, name, [], .external⟩

/-- The state in which the flow that waits has been started. -/
def attended : State := (crowd.respond (.initial (.seeded 0)) (.event (plain "1" "wait"))).state

theorem reachable_attended : crowd.Reachable attended := (Reachable.initial _).respond _

theorem advances_of_reachable_crowd :
    ∃ round ∈ crowd.roundsBy attended (.event (plain "2" "end")),
      (crowd.takings round.2 round.1).length = 1 ∧ crowd.Advances round.1 round.2 := by
  have hround : ∃ round ∈ crowd.roundsBy attended (.event (plain "2" "end")),
      (crowd.takings round.2 round.1).length = 1 := by decide +kernel
  obtain ⟨round, hround, hone⟩ := hround
  exact ⟨round, hround, hone, advances_of_reachable crowd reachable_attended _ round hround⟩

/-- That state, when all other identities have been used up. -/
def worn : State := { attended with ids := .seeded 0 }

theorem reachable_worn : crowd.Reachable worn := by
  have hids : (⟨attended.ids.seed, attended.ids.issued + .ofNat 18446744073709551615⟩ : IdSource) =
      .seeded 0 := by decide +kernel
  have hworn := reachable_attended.refusals 18446744073709551615
  rwa [hids] at hworn

/-- An instance may get to know that a call has lost that another instance with its identity has
made: identities are used again when they have all been used. -/
theorem touched_twin :
    ¬∀ (e : Engine) (s : State), e.Reachable s → ∀ r, ∀ round ∈ e.roundsBy s r, ∀ k i,
      round.1.state.instances[k]? = some i → i.status.isTerminal = false →
      (∀ t ∈ e.takings round.2 round.1, t.place ≠ k) →
      (e.round round.1 round.2).state.instances[k]? = some i := by
  intro hall
  have hround : ∃ round ∈ crowd.roundsBy worn (.event (plain "2" "go")),
      (round.1.state.instances[0]?.map fun i => i.status.isTerminal) = some false ∧
      (∀ t ∈ crowd.takings round.2 round.1, t.place ≠ 0) ∧
      (round.1.state.instances[0]?.map fun i => i.overridden.length) ≠
        (crowd.round round.1 round.2).state.instances[0]?.map fun i => i.overridden.length := by
    decide +kernel
  obtain ⟨round, hround, hlive, hnone, htouched⟩ := hround
  obtain ⟨i, hi, hlive⟩ := Option.map_eq_some_iff.1 hlive
  rw [hi, hall crowd worn reachable_worn _ round hround 0 i hi hlive hnone] at htouched
  exact htouched rfl

end Engine

end EventFlow

import EventFlow.Proofs.Conflict.Fair
import EventFlow.Proofs.Engine.Finality
import EventFlow.Proofs.Engine.Limits
import EventFlow.Proofs.Engine.Ties
import EventFlow.Query.Eval

/-!
# Creation order decides

Instances are numbered as they are started, in every round and over all rounds of a run.  A child is
started after the instance that has asked for it, so it has a higher number.  And whatever competes
in a round bears the number of its instance, which no other instance has.  So whenever two instances
compete, the order of creation decides at the latest, whichever end of it is preferred; a comparison
never comes to the identities, and no tie is ever reported that they would have to decide.

An arbitration by itself may well come to that, when emissions of different instances bear the same
number.  What excludes it is that the numbers are handed out by the engine.

## What is here

* `Engine.Attributed` says that everything was asked for by an instance that is there, and
  `Engine.AskedBy` that a child was.
* `Engine.Begotten` says that the parent of an instance is older, and has asked for it.
  `Engine.Family` carries this, with the numbers, through the first half of a round.
* `Engine.Decided` is a round in which creation order decides.  **`decided`** proves it of every
  round that begins with numbered instances.
* `Engine.bornOver` are the instances that were ever started in a run, and `Engine.Ordered` is what
  holds of their order.

**`creation_order_decides`** proves the latter for all runs of an engine.
-/

set_option autoImplicit false

namespace EventFlow

section

variable {Compiled Found : Type} [Query.Library Compiled Found]

namespace Engine

variable (e : Engine)

/-- While it was running, an instance of a loaded flow has asked for a child. -/
def AskedBy (o : Instance.Origin) (r : ChildRequest) : Prop :=
  ∃ l ∈ e.catalog.flows, l.id = o.flow ∧ ∃ m : Machine, m.inst.origin = o ∧ m.Starts l.program r

/-- Whatever was asked for was asked for by an instance that is there. -/
structure Attributed (s : Step) (requests : Requests) : Prop where
  emissions : ∀ m ∈ emissionsOf requests, ∃ o ∈ s.state.origins, m.Bears o
  children : ∀ c ∈ childrenOf requests,
    ∃ o ∈ s.state.origins, o.id = c.parent ∧ e.AskedBy o c.request

/-- If an instance has a parent, then it is among some others, is older, and has asked for it. -/
def Begotten (others : List Instance.Origin) (o : Instance.Origin) : Prop :=
  ∀ p ∈ o.parent, ∃ q ∈ others, q.id = p ∧ q.createdAt < o.createdAt ∧
    ∃ r, e.AskedBy q r ∧ r.flow = o.flow

/-- In the course of a round that has begun with some instances, everything was asked for by an
instance that is there, instances are numbered, and new ones have their parents. -/
structure Family (old : List Instance.Origin) (s : Step) (requests : Requests) : Prop
    extends e.Attributed s requests where
  numbered : s.state.Numbered
  born : ∃ new, s.state.origins = old ++ new ∧ ∀ o ∈ new, e.Begotten (old ++ new) o

/-- In a round creation order decides, whichever end of it is preferred. -/
structure Decided (round : Step × Event) : Prop where
  /-- All instances that are there when emissions compete are numbered. -/
  numbered : (e.gather round.2 round.1).1.state.Numbered
  /-- Whatever competes bears the number of one of them. -/
  attributed : e.Attributed (e.gather round.2 round.1).1 (e.gather round.2 round.1).2
  /-- Those of different instances have different numbers. -/
  apart : ∀ a ∈ emissionsOf (e.gather round.2 round.1).2,
    ∀ b ∈ emissionsOf (e.gather round.2 round.1).2,
      a.instanceId ≠ b.instanceId → a.createdAt ≠ b.createdAt
  /-- Comparing them never comes to the identities of the instances. -/
  rank : ∀ a ∈ emissionsOf (e.gather round.2 round.1).2,
    ∀ b ∈ emissionsOf (e.gather round.2 round.1).2, ∀ t : TieBreak,
      Emission.rank t a b = (compare b.priority a.priority).then
        ((compare b.specificity a.specificity).then (Emission.compareCreation t a b))
  /-- No tie has to be decided by identities. -/
  ties : ∀ t : TieBreak,
    ∀ tie ∈ (Conflict.resolve t (emissionsOf (e.gather round.2 round.1).2)).ties,
      tie.unresolvable = false

/-- The instances that were started in a run. -/
def bornOver (past : List (State × Request)) : List Instance.Origin :=
  past.flatMap fun p => e.spawnedBy p.1 p.2

/-- What holds of the order of creation in a run that has led to a state. -/
structure Ordered (past : List (State × Request)) (s : State) : Prop where
  /-- Instances are listed in the order of their numbers, and later numbers are free. -/
  numbered : s.Numbered
  /-- Whoever is there was started in the run. -/
  born : ∀ i ∈ s.instances, i.origin ∈ e.bornOver past
  /-- Whoever has a parent was asked for by an older instance. -/
  begotten : ∀ o ∈ e.bornOver past, e.Begotten (e.bornOver past) o
  /-- A child is younger than its parent, if the identity of the parent was handed out once. -/
  younger : ∀ i ∈ s.instances, ∀ p ∈ s.instances, i.parent = some p.id →
    (∀ o ∈ e.bornOver past, o.id = p.id → o = p.origin) → p.createdAt < i.createdAt
  /-- Creation order decides in every round of any further request. -/
  decided : ∀ r, ∀ round ∈ e.roundsBy s r, e.Decided round
  /-- No tie is ever reported that identities have decided. -/
  resolved : ∀ r, ∀ tie ∈ (e.respond s r).ties, tie.unresolvable = false

end Engine

section Seniority

open Engine

variable {e : Engine} {s s' : Step} {t : State} {event : Event} {requests : Requests}
  {old : List Instance.Origin} {ids : IdSource} {past : List (State × Request)}

/-! ## Who has asked for what -/

theorem Engine.Attributed.congr (h : e.Attributed s requests)
    (hsame : s'.state.origins = s.state.origins) : e.Attributed s' requests := by
  refine ⟨?_, ?_⟩
  · rw [hsame]
    exact h.emissions
  · rw [hsame]
    exact h.children

/-- More was asked for, by an instance that is there. -/
theorem Engine.Attributed.append (h : e.Attributed s requests) {o : Instance.Origin}
    {id : InstanceId} {f : Effects} (hsub : s.state.origins ⊆ s'.state.origins)
    (ho : o ∈ s'.state.origins) (hid : o.id = id) (hbears : ∀ m ∈ f.emissions, m.Bears o)
    (hasked : ∀ r ∈ f.children, e.AskedBy o r) : e.Attributed s' (requests ++ [(id, f)]) where
  emissions m hm := by
    rw [emissionsOf_append, List.mem_append] at hm
    rcases hm with hm | hm
    · obtain ⟨x, hx, hbears'⟩ := h.emissions m hm
      exact ⟨x, hsub hx, hbears'⟩
    · exact ⟨o, ho, hbears m hm⟩
  children c hc := by
    rw [childrenOf_append, List.mem_append] at hc
    rcases hc with hc | hc
    · obtain ⟨x, hx, hasked'⟩ := h.children c hc
      exact ⟨x, hsub hx, hasked'⟩
    · obtain ⟨r, hr, rfl⟩ := mem_childrenOf_singleton.1 hc
      exact ⟨o, ho, hid, hasked r hr⟩

theorem askedBy_advance? {i i' : Instance} {flow : LoadedFlow} {w w' : World} {id : HeadId}
    {f : Effects} (hflow : e.catalog.find? i.flow = some flow)
    (ha : i.advance? flow.program w id event = some (i', w', f)) :
    ∀ r ∈ f.children, e.AskedBy i.origin r := by
  intro r hr
  obtain ⟨m, hm, hstarts⟩ := starts_advance? ha
  obtain ⟨-, h, k, x, -, -, rfl⟩ := advancing?_eq_some.1 hm
  exact ⟨flow, List.mem_of_find?_eq_some hflow, id_of_find? hflow, _, rfl, hstarts r hr⟩

theorem attributed_moves (e : Engine) (event : Event) : e.MovesKeep event e.Attributed where
  abort hi h := h.congr (origins_set hi (origin_abort ..))
  advance {s requests k i i' flow head world effects} hi hflow hadv h := by
    have hsame : (s.update fun t => { t.setWorld world with
        instances := (t.setWorld world).instances.set k i' }).state.origins = s.state.origins :=
      origins_set hi (origin_advance? hadv)
    have hmem : i.origin ∈ s.state.origins := List.mem_map_of_mem (List.mem_of_getElem? hi)
    exact h.append (hsame ▸ List.Subset.refl _) (hsame ▸ hmem) rfl (bears_advance? hadv)
      (askedBy_advance? hflow hadv)

/-- A new instance is listed after the others, and has asked for all that its start asks for. -/
theorem origins_spawn_eq {flow : LoadedFlow} (hloaded : flow ∈ e.catalog.flows) (s : Step)
    (id : InstanceId) (parent : Option InstanceId) (bindings : Bindings) (specificity : Nat) :
    ∃ o : Instance.Origin, o.id = id ∧ o.flow = flow.id ∧ o.createdAt = s.state.nextInstance ∧
      o.parent = parent ∧
      (e.spawn s flow id parent bindings specificity).1.state.origins = s.state.origins ++ [o] ∧
      (∀ m ∈ (e.spawn s flow id parent bindings specificity).2.emissions, m.Bears o) ∧
      ∀ r ∈ (e.spawn s flow id parent bindings specificity).2.children, e.AskedBy o r := by
  generalize hi : (Instance.spawn id flow.id (flow.flow.priority.getD e.config.defaultPriority)
    s.state.nextInstance parent bindings specificity).observe
      (.instanceSpawned id flow.id parent) = i
  have horigin : i.origin = ⟨id, flow.id, flow.flow.priority.getD e.config.defaultPriority,
      s.state.nextInstance, parent⟩ := by rw [← hi]; rfl
  refine ⟨i.origin, by rw [horigin], by rw [horigin], by rw [horigin], by rw [horigin], ?_, ?_, ?_⟩
  · simp only [spawn, hi]
    exact List.map_append.trans
      (congrArg (s.state.origins ++ [·]) (origin_start flow.program i s.state.world))
  · simp only [spawn, hi]
    exact bears_start flow.program i s.state.world
  · simp only [spawn, hi]
    intro r hr
    exact ⟨flow, hloaded, by rw [horigin], _, rfl, starts_start flow.program i s.state.world r hr⟩

/-! ## Families -/

theorem Engine.Begotten.mono {others more : List Instance.Origin} {o : Instance.Origin}
    (h : e.Begotten others o) (hsub : others ⊆ more) : e.Begotten more o := by
  intro p hp
  obtain ⟨q, hq, hrest⟩ := h p hp
  exact ⟨q, hsub hq, hrest⟩

/-- Nobody new has come. -/
theorem Engine.Family.same {more : Requests} (h : e.Family old s requests)
    (hattributed : e.Attributed s' more) (hnumbered : s'.state.Numbered)
    (hsame : s'.state.origins = s.state.origins) : e.Family old s' more :=
  ⟨hattributed, hnumbered, hsame ▸ h.born⟩

theorem family_moves (e : Engine) (event : Event) (old : List Instance.Origin) :
    e.MovesKeep event (e.Family old) where
  abort {s _ _ _} hi h := h.same ((attributed_moves e event).abort hi h.toAttributed)
    (h.numbered.grows
      (grows_set hi (lasts_abort ..) (remains_abort ..).terminatedAt s.state.world))
    (origins_set hi (origin_abort ..))
  advance hi hflow hadv h := h.same
    ((attributed_moves e event).advance hi hflow hadv h.toAttributed)
    (h.numbered.grows
      (grows_set hi (lasts_advance? hadv) (remains_advance? hadv).1.terminatedAt _))
    (origins_set hi (origin_advance? hadv))

/-- A new instance is younger than all others, and one of these is its parent. -/
theorem Engine.Family.spawn {flow : LoadedFlow} {parent : Option InstanceId} {bindings : Bindings}
    (h : e.Family old s requests) (hloaded : flow ∈ e.catalog.flows) (id : InstanceId)
    (specificity : Nat) (hgiven : Gives requests flow parent bindings) :
    e.Family old (e.spawn s flow id parent bindings specificity).1
      (requests ++ [(id, (e.spawn s flow id parent bindings specificity).2)]) := by
  obtain ⟨o, hid, hflow, hnumber, hparent, horigins, hbears, hasked⟩ :=
    origins_spawn_eq hloaded s id parent bindings specificity
  obtain ⟨new, hnew, hborn⟩ := h.born
  have hsub : s.state.origins ⊆
      (e.spawn s flow id parent bindings specificity).1.state.origins := by
    rw [horigins]
    exact List.subset_append_left ..
  have hmem : o ∈ (e.spawn s flow id parent bindings specificity).1.state.origins := by
    rw [horigins]
    exact List.mem_append_right _ (List.mem_singleton_self o)
  refine ⟨h.toAttributed.append hsub hmem hid hbears hasked, h.numbered.grows (grows_spawn ..),
    new ++ [o], by rw [horigins, hnew, List.append_assoc], ?_⟩
  rw [← List.append_assoc, ← hnew]
  rw [← hnew] at hborn
  refine List.forall_mem_append.2 ⟨fun x hx => (hborn x hx).mono (List.subset_append_left ..),
    List.forall_mem_singleton.2 fun p hp => ?_⟩
  cases hgiven with
  | activation =>
    rw [hparent] at hp
    cases hp
  | @child c hchild hnames =>
    rw [hparent] at hp
    cases hp
    obtain ⟨q, hq, hqid, hasked⟩ := h.children c hchild
    have hlt : q.createdAt < s.state.nextInstance := by
      obtain ⟨i, hi, rfl⟩ := List.mem_map.1 hq
      exact h.numbered.below _ (List.mem_map_of_mem hi)
    exact ⟨q, List.mem_append_left _ hq, hqid, hnumber ▸ hlt, c.request, hasked,
      hnames.trans hflow.symm⟩

theorem family_starts (e : Engine) (old : List Instance.Origin) :
    e.StartsKeep (e.Family old) where
  refuse _ _ h := h.same (h.toAttributed.congr rfl) h.numbered rfl
  count _ h := h.same (h.toAttributed.congr rfl) h.numbered rfl
  identify h := h.same (h.toAttributed.congr rfl) ⟨h.numbered.sorted, h.numbered.below⟩ rfl
  spawn hloaded id specificity hgiven h := h.spawn hloaded id specificity hgiven

/-- **In the first half of a round everything is asked for by an instance that is there**, and
children are younger than their parents. -/
theorem family_gather (hn : s.state.Numbered) (event : Event) :
    e.Family s.state.origins (e.gather event s).1 (e.gather event s).2 := by
  have hbase : e.Family s.state.origins s [] :=
    ⟨⟨nofun, nofun⟩, hn, [], (List.append_nil _).symm, List.forall_mem_nil _⟩
  exact (family_starts e _).gather ((family_moves e event _).moveHeads hbase)

/-! ## Rounds -/

/-- Emissions of different instances have different numbers. -/
theorem Engine.Attributed.createdAt_ne (h : e.Attributed s requests) (hn : s.state.Numbered)
    {a b : Emission} (ha : a ∈ emissionsOf requests) (hb : b ∈ emissionsOf requests)
    (hne : a.instanceId ≠ b.instanceId) : a.createdAt ≠ b.createdAt := by
  intro heq
  obtain ⟨o, ho, hao⟩ := h.emissions a ha
  obtain ⟨o', ho', hbo⟩ := h.emissions b hb
  obtain ⟨i, hi, rfl⟩ := List.mem_map.1 ho
  obtain ⟨i', hi', rfl⟩ := List.mem_map.1 ho'
  have hnumber : i.createdAt = i'.createdAt := hao.createdAt.symm.trans (heq.trans hbo.createdAt)
  obtain rfl := hn.eq_of_createdAt hi hi' hnumber
  exact hne (hao.id.trans hbo.id.symm)

/-- If emissions of different instances have different numbers, then comparing two of them comes to
an end before the identities. -/
theorem rank_eq_of_apart (t : TieBreak) {a b : Emission}
    (hapart : a.instanceId ≠ b.instanceId → a.createdAt ≠ b.createdAt) :
    Emission.rank t a b = (compare b.priority a.priority).then
      ((compare b.specificity a.specificity).then (Emission.compareCreation t a b)) := by
  have hlast : (Emission.compareCreation t a b).then
      (compare a.instanceId.text b.instanceId.text) = Emission.compareCreation t a b := by
    by_cases hsame : a.instanceId = b.instanceId
    · have heq : compare a.instanceId.text b.instanceId.text = .eq := by
        rw [hsame]
        exact Std.ReflCmp.compare_self
      rw [heq, Ordering.then_eq]
    · have hne : Emission.compareCreation t a b ≠ .eq := by
        have hnumbers := hapart hsame
        cases t with
        | earliestFirst => exact fun h => hnumbers (Nat.compare_eq_eq.1 h)
        | latestFirst => exact fun h => hnumbers (Nat.compare_eq_eq.1 h).symm
      cases hc : Emission.compareCreation t a b with
      | eq => exact absurd hc hne
      | lt => rfl
      | gt => rfl
  rw [Emission.rank, hlast]

/-- If emissions of different instances have different numbers, then no tie is left to the
identities. -/
theorem resolvable_of_apart {es : List Emission}
    (hapart : ∀ a ∈ es, ∀ b ∈ es, a.instanceId ≠ b.instanceId → a.createdAt ≠ b.createdAt)
    (t : TieBreak) : ∀ tie ∈ (Conflict.resolve t es).ties, tie.unresolvable = false := by
  intro tie htie
  obtain ⟨best, next, hbest, hnext, -, -, heq⟩ := Conflict.mem_ties.1 htie
  obtain ⟨hmem, hne⟩ := List.mem_filter.1 hnext.1
  have hdiffer := hapart next (Conflict.mem_members.1 hmem).1 best
    (Conflict.mem_members.1 hbest.1).1 (of_decide_eq_true hne)
  rw [heq]
  exact decide_eq_false hdiffer

/-- **In a round that begins with numbered instances creation order decides.** -/
theorem decided (hn : s.state.Numbered) (event : Event) : e.Decided (s, event) := by
  have hfamily := family_gather (e := e) hn event
  have hapart := fun a ha b hb => hfamily.toAttributed.createdAt_ne (a := a) (b := b)
    hfamily.numbered ha hb
  exact ⟨hfamily.numbered, hfamily.toAttributed, hapart,
    fun a ha b hb t => rank_eq_of_apart t (hapart a ha b hb), fun t => resolvable_of_apart hapart t⟩

/-- A round adds its newcomers to the instances, and these have their parents. -/
theorem origins_round (hn : s.state.Numbered) (event : Event) :
    (e.round s event).drain.state.origins =
        s.state.origins ++ (e.newcomers (s, event)).map Instance.origin ∧
      ∀ o ∈ (e.newcomers (s, event)).map Instance.origin,
        e.Begotten (s.state.origins ++ (e.newcomers (s, event)).map Instance.origin) o := by
  obtain ⟨new, hnew, hborn⟩ := (family_gather (e := e) hn event).born
  have hsame : (e.newcomers (s, event)).map Instance.origin = new := by
    have hdrop := congrArg (List.drop s.state.origins.length) hnew
    rw [List.drop_left, State.origins, State.origins, List.length_map, ← List.map_drop] at hdrop
    exact hdrop
  rw [hsame]
  refine ⟨?_, hborn⟩
  rw [origins_drain, round_eq, (calm_windUpEnded _).origins, compete, (calm_apply ..).origins, hnew]

/-! ## Requests -/

/-- While a queue is worked off, only children come that have their parents. -/
theorem origins_runQueue (budget : Nat)
    (hn : ∀ round ∈ e.roundsFrom budget s, round.1.state.Numbered) :
    (e.runQueue budget s).state.origins = s.state.origins ++
        (e.roundsFrom budget s).flatMap (fun round => (e.newcomers round).map Instance.origin) ∧
      ∀ o ∈ (e.roundsFrom budget s).flatMap fun round => (e.newcomers round).map Instance.origin,
        e.Begotten (s.state.origins ++ (e.roundsFrom budget s).flatMap
          fun round => (e.newcomers round).map Instance.origin) o := by
  induction budget generalizing s with
  | zero =>
    refine ⟨?_, List.forall_mem_nil _⟩
    rw [runQueue, roundsFrom, List.flatMap_nil, List.append_nil]
    split <;> rfl
  | succ budget ih =>
    rw [runQueue]
    rw [roundsFrom] at hn ⊢
    generalize hfresh : nextFresh s s.queue = r at hn ⊢
    rw [← state_nextFresh hfresh]
    obtain ⟨s', _ | event⟩ := r
    · exact ⟨(List.append_nil _).symm, List.forall_mem_nil _⟩
    · obtain ⟨hfirst, hrest⟩ := List.forall_mem_cons.1 hn
      obtain ⟨horigins, hborn⟩ := origins_round (e := e) hfirst event
      obtain ⟨hends, hlater⟩ := ih hrest
      rw [horigins] at hends hlater
      rw [List.flatMap_cons, ← List.append_assoc]
      exact ⟨hends, List.forall_mem_append.2
        ⟨fun o ho => (hborn o ho).mono (List.subset_append_left ..), hlater⟩⟩

theorem begotten_respond {r : Request} (hn : ∀ round ∈ e.roundsBy t r, round.1.state.Numbered) :
    (e.respond t r).state.origins ⊆ t.origins ++ e.spawnedBy t r ∧
      ∀ o ∈ e.spawnedBy t r, e.Begotten (t.origins ++ e.spawnedBy t r) o := by
  have hruns := runs_respond e t r
  rw [spawnedBy]
  rw [roundsBy] at hn ⊢
  generalize e.respond t r = reply at hruns ⊢
  generalize e.opening? t r = o at hruns hn ⊢
  cases hruns with
  | idle origins =>
    exact ⟨fun o ho => List.mem_append_left _ (origins.subset ho), List.forall_mem_nil _⟩
  | @queue s _ origins _ _ change instances =>
    obtain ⟨hends, hborn⟩ := origins_runQueue e.config.maxEventsPerStep hn
    have hmore := List.append_subset.2 ⟨List.subset_append_of_subset_left
      ((e.roundsFrom e.config.maxEventsPerStep s).flatMap
        fun round => (e.newcomers round).map Instance.origin) origins.subset,
      List.subset_append_right ..⟩
    refine ⟨?_, fun o ho => (hborn o ho).mono hmore⟩
    rw [show (Reply.ofStep _).state.origins = _ from origins_drain _, State.origins, Step.update,
      instances, ← State.origins, hends]
    exact hmore

/-! ## Runs -/

theorem numbered_rounds (h : e.History ids past t) (r : Request) :
    ∀ round ∈ e.roundsBy t r, round.1.state.Numbered := by
  intro round hround
  obtain ⟨told, hlived⟩ := lived_moments e h.lived.1 r round.1.state
    (List.mem_append_left _ (List.mem_map_of_mem hround))
  exact hlived.toNumbered

/-- In a run everyone is there who was started, and has a parent that was started before. -/
theorem Engine.History.begotten (h : e.History ids past t) :
    t.origins ⊆ e.bornOver past ∧ ∀ o ∈ e.bornOver past, e.Begotten (e.bornOver past) o := by
  induction h with
  | initial => exact ⟨nofun, nofun⟩
  | @respond past t before r ih =>
    obtain ⟨hpresent, hborn⟩ := begotten_respond (numbered_rounds before r)
    rw [bornOver, List.flatMap_append, List.flatMap_singleton, ← bornOver]
    have hsub : t.origins ++ e.spawnedBy t r ⊆ e.bornOver past ++ e.spawnedBy t r :=
      List.append_subset.2 ⟨List.subset_append_of_subset_left _ ih.1, List.subset_append_right ..⟩
    exact ⟨fun o ho => hsub (hpresent ho), List.forall_mem_append.2
      ⟨fun o ho => (ih.2 o ho).mono (List.subset_append_left ..),
        fun o ho => (hborn o ho).mono hsub⟩⟩
  | setGlobal before path value ih => exact ih

/-- **Creation order decides.**  In every state of a run instances are listed by their numbers, and
every child has a parent that is older.  In every round that follows, emissions of different
instances have different numbers, so comparing them never comes to identities, and no tie is
reported that these had to decide; whichever end of the order is preferred. -/
theorem creation_order_decides (h : e.History ids past t) : e.Ordered past t := by
  obtain ⟨hpresent, hbegotten⟩ := h.begotten
  have hborn : ∀ i ∈ t.instances, i.origin ∈ e.bornOver past :=
    fun i hi => hpresent (List.mem_map_of_mem hi)
  have hdecided : ∀ r, ∀ round ∈ e.roundsBy t r, e.Decided round :=
    fun r round hround => decided (numbered_rounds h r round hround) round.2
  refine ⟨h.lived.1.toNumbered, hborn, hbegotten, fun i hi p _ hparent honce => ?_, hdecided,
    fun r tie htie => ?_⟩
  · obtain ⟨q, hq, hid, hlt, -⟩ := hbegotten i.origin (hborn i hi) p.id hparent
    rw [honce q hq hid] at hlt
    exact hlt
  · have hpersonal : ∀ i ∈ t.instances, i.Personal := by
      intro i hi o ho
      rw [drained_reachable h.reachable i hi] at ho
      cases ho
    rw [ties_respond e hpersonal] at htie
    obtain ⟨round, hround, htie⟩ := List.mem_flatMap.1 htie
    exact (hdecided r round hround).ties e.config.tieBreak tie htie

end Seniority

end

open Engine

/-! ## Two siblings -/

/-- A flow that starts two others. -/
def parenting : Flow where
  id := ⟨"parent"⟩
  description := none
  priority := none
  activation := some ⟨"go", []⟩
  body := [.startFlow ⟨"child"⟩ none, .startFlow ⟨"child"⟩ none]

/-- A flow that sends an event, and stays. -/
def boasting : Flow where
  id := ⟨"child"⟩
  description := none
  priority := none
  activation := none
  body := [.send ⟨"first", [], .external, .byName⟩, .expect ⟨"end", []⟩]

/-- An engine with these. -/
def siblings : Engine where
  catalog := ⟨[⟨parenting, .ofBody parenting.body⟩, ⟨boasting, .ofBody boasting.body⟩]⟩
  config := Config.default

/-- The first children compete in the same round, and so do those of a second parent.  The ties are
reported, and are not left to the identities. -/
theorem creation_order_decides_siblings :
    ((siblings.respond (.initial (.seeded 0)) (.event (plain "1" "go"))).ties.map fun tie =>
        (tie.key, tie.unresolvable)) = [("first", false)] ∧
      (siblings.bornOver (siblings.along (fun s r => [(s, r)]) (.initial (.seeded 0))
          [.event (plain "1" "go"), .event (plain "2" "go")])).map
        (fun o => (o.createdAt, o.parent.isSome)) =
          [(0, false), (1, true), (2, true), (3, false), (4, true), (5, true)] ∧
      siblings.Ordered
        (siblings.along (fun s r => [(s, r)]) (.initial (.seeded 0))
          [.event (plain "1" "go"), .event (plain "2" "go")])
        (siblings.after (.initial (.seeded 0))
          [.event (plain "1" "go"), .event (plain "2" "go")]) := by
  have hpast := (@History.initial _ _ _ siblings (.seeded 0)).along
    [.event (plain "1" "go"), .event (plain "2" "go")]
  rw [List.nil_append] at hpast
  exact ⟨by decide +kernel, by decide +kernel, creation_order_decides hpast⟩

end EventFlow

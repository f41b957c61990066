import EventFlow.Proofs.Engine.Rations
import EventFlow.Query.Eval

/-!
# How many instances a step starts

All that a request asks to start is granted or refused, however long the cascade of its rounds may
be, and what is granted stays within the limits: there are only so many activation patterns and so
many flows, and for each of them only so many starts are granted.

## What is here

* `Engine.asksBy` are the asks of a request, and `Engine.spawnedBy` the instances it starts.
* `metes_gather` and `metes_round` meter a round, `admits_runQueue` and `metes_runQueue` a queue.
* `Engine.Limited` puts together what holds of a request.

**`starts_are_limited`** is the result.
-/

set_option autoImplicit false

namespace EventFlow

section

variable {Compiled Found : Type} [Query.Library Compiled Found]

/-- The reports that starts were refused. -/
def Reply.refusals (r : Reply) : List Observation := r.signals.filterMap Signal.refusal?

namespace Engine

variable (e : Engine)

/-- What a round is asked to start: the flows its event activates, and the children that are asked
for in it. -/
def asksIn (round : Step × Event) : List Ask :=
  e.activations round.2 ++ (childrenOf (e.gather round.2 round.1).2).map .child

/-- The instances a round starts. -/
def newcomers (round : Step × Event) : List Instance :=
  (e.gather round.2 round.1).1.state.instances.drop round.1.state.instances.length

/-- What a request asks to start. -/
def asksBy (s : State) (r : Request) : List Ask := (e.roundsBy s r).flatMap e.asksIn

/-- The instances a request starts. -/
def spawnedBy (s : State) (r : Request) : List Instance.Origin :=
  (e.roundsBy s r).flatMap fun round => (e.newcomers round).map Instance.origin

/-- What a request asks to start and is granted. -/
def grantsBy (s : State) (r : Request) : List Ask :=
  Ask.grants e.config.maxInstancesPerPattern [] (e.asksBy s r)

/-- What a request asks to start and is refused. -/
def refusalsBy (s : State) (r : Request) : List Ask :=
  Ask.refusals e.config.maxInstancesPerPattern [] (e.asksBy s r)

/-- The instance was started through the activation of a flow with a pattern. -/
def Activated (p : Pattern) (o : Instance.Origin) : Prop :=
  o.parent = none ∧ ∃ l ∈ e.catalog.flows, l.id = o.flow ∧ l.flow.activation = some p

/-- What holds of the starts of a request. -/
structure Limited (s : State) (r : Request) : Prop where
  /-- Everything is granted or refused. -/
  settled : (e.grantsBy s r ++ e.refusalsBy s r).Perm (e.asksBy s r)
  /-- What is granted starts one instance each, as it was asked for. -/
  started : List.Forall₂ Ask.Gets (e.grantsBy s r) (e.spawnedBy s r)
  /-- What is refused is reported once each, if instances hold no reports but their own. -/
  refused : (∀ i ∈ s.instances, i.Personal) →
    (e.respond s r).refusals = (e.refusalsBy s r).map (Ask.report e.config.maxInstancesPerPattern)
  /-- The instances that were started are there, and otherwise only those that were there before. -/
  present : ∃ kept, kept.Sublist s.origins ∧
    (e.respond s r).state.origins = kept ++ e.spawnedBy s r
  /-- Children were asked for by a running instance, which can find them. -/
  issued : ∀ c, .child c ∈ e.asksBy s r → e.Issued c
  perPattern : ∀ (p : Pattern) (group : List Instance.Origin),
    group.Sublist (e.spawnedBy s r) → (∀ o ∈ group, e.Activated p o) →
      group.length ≤ e.config.maxInstancesPerPattern
  perFlow : ∀ flow : FlowId,
    (e.spawnedBy s r).countP (fun o => o.parent.isSome ∧ o.flow = flow) ≤
      e.config.maxInstancesPerPattern
  total : ∀ ps : List Pattern, (∀ l ∈ e.catalog.flows, ∀ p ∈ l.flow.activation, p ∈ ps) →
    (e.spawnedBy s r).length ≤
      e.config.maxInstancesPerPattern * (ps.length + e.catalog.flows.length)

end Engine

section Limits

open Engine

variable {e : Engine} {s s' : Step} {event : Event} {before : List Ask} {t : State}

/-! ## Rounds -/

theorem metes_gather (hc : e.Complete) (event : Event) (h : e.Tallies before s) :
    e.Metes before (e.asksIn (s, event)) ((e.newcomers (s, event)).map Instance.origin) s
      (e.gather event s).1 := by
  have hmoved := calm_moveHeads e event s
  obtain ⟨activated, hactivated⟩ :=
    metes_activate event (e.moveHeads event s).2 (h.calm hmoved)
  have hissued := (issued_starts e).activate (s := (e.moveHeads event s).1) event
    (issued_moveHeads e event s)
  obtain ⟨more, born, hrequests, hborn⟩ := metes_startChildren hc (e.activate event
    (e.moveHeads event s).1 (e.moveHeads event s).2).2 (fun c hmem => hc.loads (hissued c hmem))
    _ hactivated.tallies
  rw [← childrenOf_append, ← hrequests] at hborn
  have hall : e.Metes before (e.asksIn (s, event)) (activated ++ born) s (e.gather event s).1 :=
    (hactivated.trans hborn).after hmoved
  -- The instances that were started are those behind the ones that were there.
  have hnew : (e.newcomers (s, event)).map Instance.origin = activated ++ born := by
    have hdrop := congrArg (List.drop s.state.origins.length) hall.origins
    rw [List.drop_left, State.origins, State.origins, List.length_map, ← List.map_drop] at hdrop
    exact hdrop
  rwa [hnew]

theorem metes_round (hc : e.Complete) (event : Event) (h : e.Tallies before s) :
    e.Metes before (e.asksIn (s, event)) ((e.newcomers (s, event)).map Instance.origin) s
      (e.round s event) :=
  (metes_gather hc event h).calm ((calm_apply e _ _).trans (calm_windUpEnded _))

/-! ## Queues -/

theorem admits_drain (h : e.Tallies before s) : e.Admits before [] [] s s.drain where
  tallies := by
    rw [List.append_nil]
    exact h
  starts := .nil
  origins := (origins_drain s).trans (List.append_nil _).symm

theorem calm_discard (s : Step) : s.Calm (if s.queue.isEmpty then s
    else { s.observe (.budgetExhausted s.state.step s.queue.length) with queue := [] }) := by
  split
  · exact calm_refl s
  · exact (calm_emit rfl s).trans ⟨rfl, rfl, rfl⟩

/-- **While a queue is worked off, all that is asked for is granted as the limits allow.** -/
theorem admits_runQueue (hc : e.Complete) (budget : Nat) (h : e.Tallies before s) :
    e.Admits before ((e.roundsFrom budget s).flatMap e.asksIn)
      ((e.roundsFrom budget s).flatMap fun t => (e.newcomers t).map Instance.origin) s
      (e.runQueue budget s) := by
  induction budget generalizing s before with
  | zero =>
    rw [runQueue, roundsFrom]
    exact (metes_of_calm h (calm_discard s)).toAdmits
  | succ budget ih =>
    rw [runQueue, roundsFrom]
    generalize hn : nextFresh s s.queue = r
    obtain ⟨s', _ | event⟩ := r
    · exact (metes_of_calm h (calm_nextFresh hn)).toAdmits
    · have hround := (metes_round hc event (h.calm (calm_nextFresh hn))).after (calm_nextFresh hn)
      have hdrained := hround.toAdmits.trans (admits_drain hround.tallies)
      rw [List.append_nil, List.append_nil] at hdrained
      exact hdrained.trans (ih hdrained.tallies)

/-- **What is not granted is refused and reported.** -/
theorem metes_runQueue (hc : e.Complete) (budget : Nat) (h : e.Tallies before s)
    (hp : ∀ i ∈ s.state.instances, i.Personal) :
    e.Metes before ((e.roundsFrom budget s).flatMap e.asksIn)
      ((e.roundsFrom budget s).flatMap fun t => (e.newcomers t).map Instance.origin) s
      (e.runQueue budget s) := by
  induction budget generalizing s before with
  | zero =>
    rw [runQueue, roundsFrom]
    exact metes_of_calm h (calm_discard s)
  | succ budget ih =>
    rw [runQueue, roundsFrom]
    generalize hn : nextFresh s s.queue = r
    obtain ⟨s', _ | event⟩ := r
    · exact metes_of_calm h (calm_nextFresh hn)
    · rw [← state_nextFresh hn] at hp
      have hround := (metes_round hc event (h.calm (calm_nextFresh hn))).after (calm_nextFresh hn)
      have hp' := (personal_keep e).round hp event
      exact (hround.calm (calm_drain hp')).trans
        (ih (hround.calm (calm_drain hp')).tallies ((personal_keep e).drained hp'))

/-! ## Requests -/

/-- What a request sets going with some instances, if it does: a step that has started nothing and
refused nothing yet, and that replies when its queue is worked off. -/
inductive Engine.Runs (e : Engine) (old : List Instance) : Option Step → Reply → Prop
  | idle {reply : Reply} (origins : reply.state.origins.Sublist (old.map Instance.origin))
      (refusals : (∀ i ∈ old, i.Personal) → reply.refusals = []) : Runs e old none reply
  | queue {s : Step} (counts : s.counts = [])
      (origins : s.state.origins.Sublist (old.map Instance.origin)) (refusals : s.refusals = [])
      (personal : (∀ i ∈ old, i.Personal) → ∀ i ∈ s.state.instances, i.Personal)
      (change : State → State) (instances : ∀ u, (change u).instances = u.instances) :
      Runs e old (some s) (.ofStep ((e.runQueue e.config.maxEventsPerStep s).update change))

theorem calm_beginStep (e : Engine) (t : State) :
    (Step.begin (e.counted t)).Calm (e.beginStep t) := by
  have hevict (s : Step) (i : Instance) : s.Calm (evict s i) :=
    (calm_cancelCallsOf s i.id).emit rfl
  rw [beginStep, List.partition_eq_filter_filter]
  exact calm_foldl hevict _ _

theorem origins_beginStep (e : Engine) (t : State) :
    (e.beginStep t).state.origins.Sublist t.origins := by
  rw [(calm_beginStep e t).origins]
  exact List.filter_sublist.map _

/-- A step that has started nothing replies with no report. -/
theorem Engine.Runs.ofStep (hs : (e.beginStep t).Calm s)
    (hp : (∀ i ∈ t.instances, i.Personal) → ∀ i ∈ s.state.instances, i.Personal) :
    e.Runs t.instances none (.ofStep s) := by
  refine .idle ?_ fun ht => ?_
  · exact (origins_drain s).trans hs.origins ▸ origins_beginStep e t
  · have hdrained := (calm_beginStep e t).trans (hs.trans (calm_drain (hp ht)))
    exact hdrained.refusals

/-- A step that has started nothing may work off its queue. -/
theorem Engine.Runs.ofQueue (hs : (e.beginStep t).Calm s)
    (hp : (∀ i ∈ t.instances, i.Personal) → ∀ i ∈ s.state.instances, i.Personal)
    (change : State → State) (hchange : ∀ u, (change u).instances = u.instances) :
    e.Runs t.instances (some s)
      (.ofStep ((e.runQueue e.config.maxEventsPerStep s).update change)) := by
  have hall := (calm_beginStep e t).trans hs
  exact .queue hall.counts (hs.origins ▸ origins_beginStep e t) hall.refusals hp change hchange

theorem runs_handle (e : Engine) (t : State) (event : Event) :
    e.Runs t.instances (e.openingOf? t event) (e.handle t event) := by
  have hbegun (ht : ∀ i ∈ t.instances, i.Personal) := InstancesKeep.begun (e := e) ht
  have htakes := e.takes t event
  generalize e.handle t event = reply at htakes ⊢
  generalize e.openingOf? t event = o at htakes ⊢
  cases htakes with
  | refused err hc => exact .idle (List.Sublist.refl _) fun _ => rfl
  | idle => exact .ofStep (calm_refl _) hbegun
  | late n => exact .ofStep (calm_emit rfl _) hbegun
  | accepted n calls =>
    exact .ofQueue (s := e.opened t event fun t => { t with calls }) ⟨rfl, rfl, rfl⟩ hbegun
      (fun t => { t with calls := Dict.remove t.calls n }) fun _ => rfl
  | fired timer =>
    exact .ofQueue (s := e.opened t event fun t =>
      { t with timers := Dict.remove t.timers timer }) ⟨rfl, rfl, rfl⟩ hbegun (fun u => u)
      fun _ => rfl
  | processed =>
    exact .ofQueue (s := e.opened t event fun u => u) ⟨rfl, rfl, rfl⟩ hbegun (fun u => u)
      fun _ => rfl

theorem runs_respond (e : Engine) (t : State) (r : Request) :
    e.Runs t.instances (e.opening? t r) (e.respond t r) := by
  cases r with
  | named name payload => exact runs_handle e { t with ids := t.ids.nextEvent.2 } _
  | event event => exact runs_handle e t event
  | abort id reason =>
    have hgives := e.givesUp t id reason
    rw [respond]
    generalize e.abort t id reason = reply at hgives ⊢
    generalize e.opening? t (.abort id reason) = o at hgives ⊢
    cases hgives with
    | refused => exact .idle (List.Sublist.refl _) fun _ => rfl
    | aborted =>
      have hstopped := calm_updateInstance (e.beginStep t) id (f := (·.abort reason))
        fun i => origin_abort i reason
      refine .ofQueue (hstopped.trans (calm_windUpEnded _)) (fun ht => ?_) (fun u => u)
        fun _ => rfl
      exact (personal_keep e).windUpEnded (InstancesKeep.updateInstance
        (InstancesKeep.begun (e := e) ht) (fun _ => (personal_keep e).abort reason) id)

theorem tallies_nil (hcounts : s.counts = []) : e.Tallies [] s := by
  intro key
  rw [granted, hcounts]
  exact (Nat.min_zero _).symm

/-- What is granted in the course of a request starts instances, and those are there afterwards. -/
theorem started_respond (hc : e.Complete) (t : State) (r : Request) :
    List.Forall₂ Ask.Gets (e.grantsBy t r) (e.spawnedBy t r) ∧
      ∃ kept, kept.Sublist t.origins ∧
        (e.respond t r).state.origins = kept ++ e.spawnedBy t r := by
  have hruns := runs_respond e t r
  rw [grantsBy, spawnedBy, asksBy, roundsBy]
  generalize e.respond t r = reply at hruns ⊢
  generalize e.opening? t r = o at hruns ⊢
  cases hruns with
  | idle origins => exact ⟨.nil, _, origins, (List.append_nil _).symm⟩
  | @queue s counts origins _ _ change instances =>
    have hall := admits_runQueue hc e.config.maxEventsPerStep (tallies_nil counts)
    refine ⟨hall.starts, _, origins, ?_⟩
    rw [show (Reply.ofStep _).state.origins = _ from origins_drain _, State.origins, Step.update,
      instances]
    exact hall.origins

/-- What is refused in the course of a request is reported. -/
theorem refused_respond (hc : e.Complete) (hp : ∀ i ∈ t.instances, i.Personal) (r : Request) :
    (e.respond t r).refusals =
      (e.refusalsBy t r).map (Ask.report e.config.maxInstancesPerPattern) := by
  have hruns := runs_respond e t r
  rw [refusalsBy, asksBy, roundsBy]
  generalize e.respond t r = reply at hruns ⊢
  generalize e.opening? t r = o at hruns ⊢
  cases hruns with
  | idle _ refusals => exact refusals hp
  | @queue s counts _ refusals personal change instances =>
    have hall := metes_runQueue hc e.config.maxEventsPerStep (tallies_nil counts) (personal hp)
    have hends : ∀ i ∈ ((e.runQueue e.config.maxEventsPerStep s).update change).state.instances,
        i.Personal := by
      rw [Step.update, instances]
      exact ((personal_keep e).runQueue (personal hp) _).1
    refine (calm_drain hends).refusals.trans (hall.refusals.trans ?_)
    rw [refusals]
    rfl

/-! ## Bounds -/

/-- If every element has one of some keys, and none of the keys has more than so many of them, then
there are not more than so many times the number of keys. -/
theorem length_le_of_countP_le {α κ : Type} [DecidableEq κ] {key : α → κ} {limit : Nat}
    (ks : List κ) {as : List α} (hkeys : ∀ a ∈ as, key a ∈ ks)
    (hle : ∀ k, as.countP (fun a => key a = k) ≤ limit) : as.length ≤ limit * ks.length := by
  induction ks generalizing as with
  | nil =>
    rw [List.eq_nil_iff_forall_not_mem.2 fun a ha => nomatch hkeys a ha]
    exact Nat.zero_le _
  | cons k ks ih =>
    have hrest : (as.filter fun a => !decide (key a = k)).length ≤ limit * ks.length := by
      refine ih (fun a ha => ?_) fun k' => Nat.le_trans List.filter_sublist.countP_le (hle k')
      obtain ⟨hmem, hne⟩ := List.mem_filter.1 ha
      exact (List.mem_cons.1 (hkeys a hmem)).resolve_left (by simpa using hne)
    have hsplit := List.length_eq_countP_add_countP (fun a => decide (key a = k)) (l := as)
    rw [← List.countP_eq_length_filter] at hrest
    simp only [decide_not, Bool.decide_eq_true] at hsplit
    have hk := hle k
    rw [List.length_cons, Nat.mul_succ]
    omega

/-- If only those of some related elements count whose partner counts, there are not more of them. -/
theorem countP_le_of_forall₂ {α β : Type} {R : α → β → Prop} {as : List α} {bs : List β}
    (h : List.Forall₂ R as bs) {p : α → Bool} {q : β → Bool}
    (hpq : ∀ a ∈ as, ∀ b ∈ bs, R a b → q b = true → p a = true) : bs.countP q ≤ as.countP p := by
  induction h with
  | nil => exact Nat.le_refl _
  | @cons a b as bs hab _ ih =>
    have hrest := ih fun a' ha' b' hb' =>
      hpq a' (List.mem_cons_of_mem _ ha') b' (List.mem_cons_of_mem _ hb')
    have hfirst := hpq a List.mem_cons_self b List.mem_cons_self hab
    rw [List.countP_cons, List.countP_cons]
    cases hq : q b with
    | false => exact Nat.le_add_right_of_le hrest
    | true =>
      rw [hfirst hq]
      exact Nat.succ_le_succ hrest

/-- If only instances count that have got a key, there are not more of them than asks with it. -/
theorem countP_le_tally {asks : List Ask} {os : List Instance.Origin}
    (h : List.Forall₂ Ask.Gets asks os) {key : String} {q : Instance.Origin → Bool}
    (hkey : ∀ a ∈ asks, ∀ o, a.Gets o → q o = true → a.key = key) :
    os.countP q ≤ Ask.tally key asks :=
  countP_le_of_forall₂ h fun a ha o _ hgets hq => decide_eq_true (hkey a ha o hgets hq)

/-- If those instances count that have got a key, there are as many of them as asks with it. -/
theorem countP_eq_tally {asks : List Ask} {os : List Instance.Origin}
    (h : List.Forall₂ Ask.Gets asks os) {key : String} {q : Instance.Origin → Bool}
    (hkey : ∀ a ∈ asks, ∀ o, a.Gets o → (q o = true ↔ a.key = key)) :
    os.countP q = Ask.tally key asks :=
  Nat.le_antisymm (countP_le_tally h fun a ha o hgets => (hkey a ha o hgets).1)
    (countP_le_of_forall₂ h.flip fun o _ a ha hgets hk =>
      (hkey a ha o hgets).2 (of_decide_eq_true hk))

theorem mem_activations {a : Ask} (h : a ∈ e.activations event) : ∃ l ∈ e.catalog.flows,
    ∃ p, l.flow.activation = some p ∧ (p.match? event []).isSome = true ∧
      a = .activation l.id p := by
  obtain ⟨l, hl, hask⟩ := List.mem_filterMap.1 h
  obtain ⟨p, hp, rfl⟩ := Option.map_eq_some_iff.1 hask
  obtain ⟨hp, hm⟩ := Option.filter_eq_some_iff.1 hp
  exact ⟨l, hl, p, hp, hm, rfl⟩

/-- What is asked for is a flow that is activated, or a child that a running instance has issued. -/
theorem mem_asksBy {r : Request} {a : Ask} (h : a ∈ e.asksBy t r) :
    (∃ l ∈ e.catalog.flows, ∃ p, l.flow.activation = some p ∧ a = .activation l.id p) ∨
      ∃ c, e.Issued c ∧ a = .child c := by
  obtain ⟨round, -, ha⟩ := List.mem_flatMap.1 h
  rcases List.mem_append.1 ha with ha | ha
  · obtain ⟨l, hl, p, hp, -, heq⟩ := mem_activations ha
    exact .inl ⟨l, hl, p, hp, heq⟩
  · obtain ⟨c, hc, rfl⟩ := List.mem_map.1 ha
    have hissued := (issued_starts e).gather (issued_moveHeads e round.2 round.1)
    exact .inr ⟨c, hissued c hc, rfl⟩

theorem tally_grantsBy_le (e : Engine) (t : State) (r : Request) (key : String) :
    Ask.tally key (e.grantsBy t r) ≤ e.config.maxInstancesPerPattern :=
  Ask.tally_grants_le _ key [] _

/-- An instance that was started through an activation was granted under the key of its pattern. -/
theorem key_of_activated {flows : List Flow} {config : Config}
    (he : Engine.create flows config = .ok e) {r : Request} {a : Ask} {o : Instance.Origin}
    {p : Pattern} (ha : a ∈ e.asksBy t r) (hgets : a.Gets o) (ho : e.Activated p o) :
    a.key = p.key := by
  obtain ⟨hparent, l, hl, hid, hp⟩ := ho
  rcases mem_asksBy ha with ⟨l', hl', p', hp', rfl⟩ | ⟨c, -, rfl⟩
  · have hsame := eq_of_create he hl hl' (hid.trans hgets.flow)
    subst hsame
    rw [hp] at hp'
    rw [Option.some.inj hp', Ask.key]
  · rw [hgets.parent] at hparent
    cases hparent

theorem key_of_child {a : Ask} {o : Instance.Origin} (hgets : a.Gets o)
    (ho : o.parent.isSome = true) : a.key = childKey o.flow := by
  rw [hgets.parent] at ho
  cases a with
  | activation => cases ho
  | child c => rw [hgets.flow, Ask.key, Ask.flow]

/-- Starts are counted under the keys of activation patterns and of flows. -/
theorem key_mem {r : Request} {a : Ask} (hc : e.Complete) (ha : a ∈ e.asksBy t r)
    (ps : List Pattern) (hps : ∀ l ∈ e.catalog.flows, ∀ p ∈ l.flow.activation, p ∈ ps) :
    a.key ∈ ps.map Pattern.key ++ e.catalog.flows.map fun l => childKey l.id := by
  rcases mem_asksBy ha with ⟨l, hl, p, hp, rfl⟩ | ⟨c, hissued, rfl⟩
  · exact List.mem_append_left _ (List.mem_map_of_mem (hps l hl p hp))
  · obtain ⟨l, hl⟩ := Option.isSome_iff_exists.1 (hc.loads hissued)
    rw [Ask.key, ← id_of_find? hl]
    exact List.mem_append_right _
      (List.mem_map_of_mem (f := fun l : LoadedFlow => childKey l.id)
        (List.mem_of_find?_eq_some hl))

/-- **The starts of a request are limited.**  In every state and for every request, whatever is asked
for is granted or refused and reported; no activation pattern and no flow to start as a child gets
more instances than the limit. -/
theorem starts_are_limited {flows : List Flow} {config : Config}
    (he : Engine.create flows config = .ok e) (s : State) (r : Request) : e.Limited s r := by
  have hc := complete_of_create he
  obtain ⟨hstarted, hpresent⟩ := started_respond hc s r
  refine ⟨Ask.grants_perm .., hstarted, fun hp => refused_respond hc hp r, hpresent, fun c hmem => ?_,
    fun p group hsub hgroup => ?_, fun flow => ?_, fun ps hps => ?_⟩
  · rcases mem_asksBy hmem with ⟨l, hl, p, hp, heq⟩ | ⟨c', hissued, heq⟩
    · cases heq
    · cases heq
      exact hissued
  · classical
    have hall : group.countP (fun o => decide (e.Activated p o)) = group.length :=
      List.countP_eq_length.2 fun o ho => decide_eq_true (hgroup o ho)
    calc group.length = group.countP fun o => decide (e.Activated p o) := hall.symm
      _ ≤ (e.spawnedBy s r).countP fun o => decide (e.Activated p o) := hsub.countP_le
      _ ≤ Ask.tally p.key (e.grantsBy s r) := countP_le_tally hstarted fun a ha o hgets ho =>
        key_of_activated he (Ask.mem_of_mem_grants ha) hgets (of_decide_eq_true ho)
      _ ≤ e.config.maxInstancesPerPattern := tally_grantsBy_le e s r _
  · refine Nat.le_trans (countP_le_tally hstarted fun a _ o hgets ho => ?_)
      (tally_grantsBy_le e s r (childKey flow))
    obtain ⟨hparent, rfl⟩ := of_decide_eq_true ho
    exact key_of_child hgets hparent
  · have hlength : (e.grantsBy s r).length ≤ e.config.maxInstancesPerPattern *
        (ps.map Pattern.key ++ e.catalog.flows.map fun l => childKey l.id).length :=
      length_le_of_countP_le _ (fun a ha => key_mem hc (Ask.mem_of_mem_grants ha) ps hps)
        (tally_grantsBy_le e s r)
    rw [← hstarted.length_eq]
    simpa using hlength

end Limits

end

open Engine

/-! ## A flow that starts itself -/

/-- A flow that starts itself twice over. -/
def breeding : Flow where
  id := ⟨"hare"⟩
  description := none
  priority := none
  activation := some ⟨"go", []⟩
  body := [.startFlow ⟨"hare"⟩ (some ⟨.head, "child"⟩), .startFlow ⟨"hare"⟩ none]

/-- An engine with nothing else, which starts no more than two at a time. -/
def hares : Engine where
  catalog := ⟨[⟨breeding, .ofBody breeding.body⟩]⟩
  config := { Config.default with maxInstancesPerPattern := 2 }

/-- One hare is activated, its two children are started, and the four that these ask for are
refused. -/
theorem starts_are_limited_hares :
    (hares.asksBy (.initial (.seeded 0)) (.event (plain "1" "go"))).length = 7 ∧
      (hares.spawnedBy (.initial (.seeded 0)) (.event (plain "1" "go"))).map
        (fun o => (o.createdAt, o.parent.isSome)) = [(0, false), (1, true), (2, true)] ∧
      (hares.respond (.initial (.seeded 0)) (.event (plain "1" "go"))).refusals =
        List.replicate 4 (.activationLimitReached ⟨"hare"⟩ "start_flow:hare" 2) ∧
      hares.Limited (.initial (.seeded 0)) (.event (plain "1" "go")) := by
  have hcreated : Engine.create [breeding] hares.config = .ok hares := rfl
  exact ⟨by decide +kernel, by decide +kernel, by decide +kernel,
    starts_are_limited hcreated _ _⟩

end EventFlow

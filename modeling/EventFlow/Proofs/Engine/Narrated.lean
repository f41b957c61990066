import EventFlow.Proofs.Engine.Decrees
import EventFlow.Proofs.Engine.Seniority

/-!
# What is observed over a run

Over a run the lives of all instances are told, in the order in which they are lived, since every
instance hands on its observations after each round.  What the engine itself reports in a round goes
before them, so a verdict may name an instance before it is told that the instance was started; but
only in the round in which it is started.

## What is here

* `Engine.observedOver` is what was observed over a run, and `Engine.lateBy` the late results of a
  request.
* `Engine.Early` says that an observation is made in the round that starts an instance, before its
  start is told, and `Engine.Heralded` that no other observation of the engine names an instance
  whose start was not told.
* `Engine.Recounts` is what holds of observations at every moment of a request, as long as
  identities are distinct: `Recounts.round`, `Recounts.runQueue`.
* `Engine.Recounted` is what holds of a request (`recounted_respond`), and `Engine.Annals` what
  holds of a run.

**`History.annals`** is the result.
-/

set_option autoImplicit false

namespace EventFlow

variable {Compiled Found : Type} [Query.Library Compiled Found]

namespace Engine

variable (e : Engine)

/-- What was observed over a run. -/
def observedOver (past : List (State × Request)) : List Observation :=
  past.flatMap fun p => Signal.observationsIn (e.respond p.1 p.2).signals

/-- The call whose result an event is, if the event is valid and the call is not in flight when the
step has begun. -/
def lateOf (s : State) (event : Event) : List InvocationId :=
  match event.check with
  | .error _ => []
  | .ok () => (event.invocation?.filter fun n => !(e.beginStep s).state.calls.carries n).toList

/-- The call whose late result a request is. -/
def lateBy (s : State) : Request → List InvocationId
  | .named name payload =>
    let (id, ids) := s.ids.nextEvent
    e.lateOf { s with ids } ⟨id, name, payload, .external⟩
  | .event event => e.lateOf s event
  | .abort _ _ => []

/-- After some observations another one is made in the course of a round that starts an instance. -/
def Early (rounds : List (Step × Event)) (pre : List Observation) (x : Observation)
    (c : InstanceId) : Prop :=
  ∃ round ∈ rounds, c ∈ (e.newcomers round).map Instance.id ∧
    Signal.observationsIn round.1.signals <+: pre ∧
      pre ++ [x] <+: Signal.observationsIn (e.round round.1 round.2).signals

/-- If the engine itself names an instance, then its start was told before, or the instance is
started in the same round. -/
def Heralded (rounds : List (Step × Event)) (told : List Observation) (xs : List Signal) : Prop :=
  ∀ pre x post, Signal.observationsIn xs = pre ++ x :: post → x.subject? = none →
    ∀ c ∈ x.mentions, (∃ flow parent, .instanceSpawned c flow parent ∈ told ++ pre) ∨
      e.Early rounds pre x c

/-- What holds of the observations of a step, with what was told before it and the instances that
were let go, in the course of a request with certain rounds. -/
structure Recounts (rounds : List (Step × Event)) (told : List Observation)
    (gone : List Instance.Origin) (late : List InvocationId) (s : Step) : Prop where
  filed : s.state.calls.Filed
  narrates : Narrates (told ++ Signal.observationsIn s.signals) gone s.state.instances
  announced : ∀ c ∈ s.state.instanceIds, ∃ flow parent,
    .instanceSpawned c flow parent ∈ told ++ Signal.observationsIn s.signals
  echoes : Signal.Echoes late s.signals
  heralded : e.Heralded rounds told s.signals

/-- What holds of the observations of a request, with what was told before it and the instances that
are gone before it and after it. -/
structure Recounted (told : List Observation) (gone gone' : List Instance.Origin) (t : State)
    (r : Request) : Prop where
  origins : (gone' ++ (e.respond t r).state.origins).Perm (gone ++ t.origins ++ e.spawnedBy t r)
  narrates : Narrates (told ++ Signal.observationsIn (e.respond t r).signals) gone'
    (e.respond t r).state.instances
  echoes : Signal.Echoes (e.lateBy t r) (e.respond t r).signals
  heralded : e.Heralded (e.roundsBy t r) told (e.respond t r).signals

end Engine

section Narrating

open Engine Instance Signal

variable {e : Engine} {s s' : Step} {t : State} {event : Event} {told : List Observation}
  {gone gone' : List Instance.Origin} {late late' : List InvocationId}
  {rounds : List (Step × Event)} {xs more : List Signal} {i i' : Instance}

/-! ## Instances -/

theorem narrated_of_reports {lost : List (HeadId × String)} (h : i.Narrated told)
    (hlive : i.status.isTerminal = false) (hr : i.Reports i' lost) : i'.Narrated told := by
  rw [Narrated, Instance.stage, if_neg (by simp [hlive])] at h
  rw [Narrated, show i'.id = i.id from congrArg Instance.Origin.id hr.origin]
  exact h.reports hr

theorem narrated_congr (h : i.Narrated told) (horigin : i'.origin = i.origin)
    (hstatus : i'.status = i.status) (hobs : i'.observations = i.observations) :
    i'.Narrated told := by
  rwa [Narrated, Instance.stage, horigin, hstatus, hobs,
    show i'.id = i.id from congrArg Instance.Origin.id horigin]

theorem narrated_abort (h : i.Narrated told) (reason : String) :
    (i.abort reason).Narrated told := by
  cases hend : i.status.isTerminal with
  | false => exact narrated_of_reports h hend (reports_abort hend reason)
  | true => rwa [abort_eq, if_pos hend]

theorem narrated_noteEnd (h : i.Narrated told) (step : Nat) : (noteEnd step i).Narrated told := by
  rw [noteEnd]
  split
  · exact narrated_congr h rfl rfl rfl
  · exact h

/-! ## Rounds -/

theorem ids_set {is : List Instance} {k : Nat} (hi : is[k]? = some i) (hid : i'.id = i.id) :
    (is.set k i').map Instance.id = is.map Instance.id := by
  obtain ⟨hlt, rfl⟩ := List.getElem?_eq_some_iff.1 hi
  rw [List.map_set, hid, ← List.getElem_map Instance.id (h := by rwa [List.length_map])]
  exact List.set_getElem_self _

/-- If identities are distinct, lives are told. -/
def Step.Narrates (told : List Observation) (gone : List Instance.Origin) (s : Step) : Prop :=
  (identities gone s.state.instances).Nodup → EventFlow.Narrates told gone s.state.instances

theorem Step.Narrates.replace {k : Nat} (h : s.Narrates told gone)
    (hi : s.state.instances[k]? = some i) (hid : i'.id = i.id)
    (hset : s'.state.instances = s.state.instances.set k i')
    (hlife : i.Narrated told → i'.Narrated told) : s'.Narrates told gone := by
  intro hd
  have hids := ids_set hi hid
  rw [identities, hset, hids] at hd
  have hn := h hd
  rw [hset]
  exact hn.same hids
    (InstancesKeep.put hn.present (hlife (hn.present i (List.mem_of_getElem? hi))) k)

theorem narrates_moves (e : Engine) (event : Event) (told : List Observation)
    (gone : List Instance.Origin) : e.MovesKeep event fun s _ => s.Narrates told gone where
  abort hi h := h.replace hi (remains_abort ..).id rfl fun hi => narrated_abort hi _
  advance hi _ hadv h := h.replace hi (remains_advance? hadv).1.id rfl fun hi => by
    obtain ⟨lost, hr⟩ := exists_reports_advance? hadv
    exact narrated_of_reports hi (not_ended_of_advance? hadv) hr

/-- An instance that is started begins its life with the observation of it. -/
theorem narrates_starts (e : Engine) (told : List Observation) (gone : List Instance.Origin) :
    e.StartsKeep fun s _ => s.Narrates told gone where
  refuse _ _ h := h
  count _ h := h
  identify h := h
  spawn {s _ flow parent bindings} _ id specificity _ h := by
    intro hd
    generalize hnew : (Instance.spawn id flow.id (flow.flow.priority.getD e.config.defaultPriority)
      s.state.nextInstance parent bindings specificity).observe
        (.instanceSpawned id flow.id parent) = i
    have hbegin : Life i.origin .live ([] ++ i.observations) := by
      rw [← hnew]
      exact .spawned
    have hlive : i.status.isTerminal = false := by
      rw [← hnew]
      rfl
    have hinstances : (e.spawn s flow id parent bindings specificity).1.state.instances =
        s.state.instances ++ [(i.start flow.program s.state.world).1] := by
      rw [← hnew]
      rfl
    obtain ⟨lost, hr⟩ := exists_reports_start flow.program hlive s.state.world
    rw [hinstances] at hd ⊢
    have hbefore : (identities gone s.state.instances).Nodup :=
      hd.sublist (((List.sublist_append_left _ _).map _).append_left _)
    exact (h hbefore).spawn (hbegin.reports hr) hd

theorem narrates_apply (requests : Requests) (h : Narrates told gone s.state.instances) :
    Narrates told gone (e.apply s requests).state.instances := by
  have hall := e.apply_preserves (P := fun s' => s'.state.instanceIds = s.state.instanceIds ∧
    ∀ i ∈ s'.state.instances, i.Narrated told) requests (fun _ _ _ h => h) (fun s' m _ h => ?_)
    (fun s' l _ h => ?_) (fun _ _ _ h => h) (s := s) ⟨rfl, h.present⟩
  · exact h.same hall.1 hall.2
  · rwa [State.instanceIds, instances_deliver]
  · have hids := map_updateInstance Instance.id s' l.emission.instanceId
      (f := (·.noteOverridden l.emission.id)) fun _ => rfl
    have hnarrated := InstancesKeep.updateInstance h.2 (f := (·.noteOverridden l.emission.id))
      (fun _ hi => narrated_congr hi rfl rfl rfl) l.emission.instanceId
    rw [suppress]
    cases l.emission.intent <;> exact ⟨hids.trans h.1, hnarrated⟩

theorem narrates_windUpEnded (h : Narrates told gone s.state.instances) :
    Narrates told gone (windUpEnded s).state.instances := by
  refine h.same (instanceIds_windUpEnded s) fun i hi => ?_
  rw [instances_windUpEnded] at hi
  obtain ⟨x, hx, rfl⟩ := List.mem_map.1 hi
  exact narrated_noteEnd (h.present x hx) _

/-- **In a round lives go on**, and new ones begin. -/
theorem narrates_round (h : Narrates told gone s.state.instances)
    (hd : (identities gone (e.gather event s).1.state.instances).Nodup) :
    Narrates told gone (e.round s event).state.instances := by
  have hmoved : (e.moveHeads event s).1.Narrates told gone :=
    (narrates_moves e event told gone).moveHeads fun _ => h
  exact narrates_windUpEnded (narrates_apply _ ((narrates_starts e told gone).gather hmoved hd))

/-! ## Who is named -/

/-- An element of a list that is put together belongs to one part or the other. -/
theorem append_eq_append_cons {α : Type} {as bs pre post : List α} {a : α}
    (h : as ++ bs = pre ++ a :: post) :
    (∃ rest, as = pre ++ a :: rest) ∨ ∃ rest, pre = as ++ rest ∧ bs = rest ++ a :: post := by
  rcases List.append_eq_append_iff.1 h with ⟨rest, hpre, hbs⟩ | ⟨rest, has, hpost⟩
  · exact .inr ⟨rest, hpre, hbs⟩
  · cases rest with
    | nil => exact .inr ⟨[], by simpa using has.symm, by simpa using hpost.symm⟩
    | cons b rest =>
      obtain ⟨rfl, -⟩ := List.cons_eq_cons.1 hpost
      exact .inl ⟨rest, has⟩

theorem Engine.Heralded.append (h : e.Heralded rounds told xs)
    (hmore : ∀ pre x post, observationsIn more = pre ++ x :: post → x.subject? = none →
      ∀ c ∈ x.mentions,
        (∃ flow parent, .instanceSpawned c flow parent ∈ told ++ (observationsIn xs ++ pre)) ∨
          e.Early rounds (observationsIn xs ++ pre) x c) :
    e.Heralded rounds told (xs ++ more) := by
  intro pre x post hsplit hx c hc
  rw [observationsIn_append] at hsplit
  rcases append_eq_append_cons hsplit with ⟨rest, hpre⟩ | ⟨rest, rfl, hmade⟩
  · exact h pre x rest hpre hx c hc
  · exact hmore rest x post hmade hx c hc

/-- Nobody else is named. -/
theorem Engine.Heralded.aside (h : e.Heralded rounds told xs)
    (hmore : ∀ x ∈ observationsIn more, x.subject? = none → x.mentions = []) :
    e.Heralded rounds told (xs ++ more) :=
  h.append fun pre x post hsplit hx c hc => by
    rw [hmore x (hsplit ▸ List.mem_append_right _ List.mem_cons_self) hx] at hc
    cases hc

/-! ## Steps -/

/-- Whoever has handed on everything has told of its start. -/
theorem Narrates.announced {present : List Instance} (h : Narrates told gone present)
    (hd : ∀ i ∈ present, i.observations = []) :
    ∀ c ∈ present.map Instance.id, ∃ flow parent, .instanceSpawned c flow parent ∈ told := by
  intro c hc
  obtain ⟨i, hi, rfl⟩ := List.mem_map.1 hc
  exact ⟨_, _, (mem_lifeIn.1 (h.life hi (hd i hi)).spawned_mem).1⟩

/-- Something may be reported that names nobody, while lives go on. -/
theorem Engine.Recounts.extend (h : e.Recounts rounds told gone late s)
    (hf : s'.state.calls.Filed) (hs : s'.signals = s.signals ++ more)
    (hids : s'.state.instanceIds = s.state.instanceIds)
    (hn : Narrates (told ++ observationsIn s.signals) gone s'.state.instances)
    (he : Echoes late' more)
    (hmore : ∀ x ∈ observationsIn more, x.subject? = none ∧ x.mentions = []) :
    e.Recounts rounds told gone (late ++ late') s' := by
  have htold : told ++ observationsIn s'.signals =
      told ++ observationsIn s.signals ++ observationsIn more := by
    rw [hs, observationsIn_append, List.append_assoc]
  refine ⟨hf, htold ▸ hn.aside fun x hx => (hmore x hx).1, fun c hc => ?_,
    hs ▸ h.echoes.append he, hs ▸ h.heralded.aside fun x hx _ => (hmore x hx).2⟩
  obtain ⟨flow, parent, hmem⟩ := h.announced c (hids ▸ hc)
  exact ⟨flow, parent, htold ▸ List.mem_append_left _ hmem⟩

/-- The engine may report of nobody in particular, while lives go on. -/
theorem Engine.Recounts.decides (h : e.Recounts rounds told gone late s) (hd : s.Decides [] s')
    (hids : s'.state.instanceIds = s.state.instanceIds)
    (hn : Narrates (told ++ observationsIn s.signals) gone s'.state.instances) :
    e.Recounts rounds told gone late s' := by
  obtain ⟨hf, more, hs, hmore⟩ := hd h.filed
  have hnobody : ∀ x ∈ observationsIn more, x.mentions = [] := fun x hx =>
    List.eq_nil_iff_forall_not_mem.2 fun c hc => nomatch hmore.mentioned x hx c hc
  have hall := h.extend hf hs hids hn hmore.toEchoes fun x hx => ⟨hmore.apart x hx, hnobody x hx⟩
  rwa [List.append_nil] at hall

/-- What instances have kept for themselves is handed on. -/
theorem Engine.Recounts.drain (hf : s.state.calls.Filed)
    (hn : Narrates (told ++ observationsIn s.signals) gone s.state.instances)
    (he : Echoes late s.signals) (hh : e.Heralded rounds told s.signals) :
    e.Recounts rounds told gone late s.drain := by
  have htold : told ++ observationsIn s.drain.signals = told ++ observationsIn s.signals ++
      s.state.instances.flatMap Instance.observations := by
    rw [Step.drain, observationsIn_append, observationsIn_observed, List.append_assoc]
  have hsubject : ∀ x ∈ s.state.instances.flatMap Instance.observations, x.subject? ≠ none := by
    intro x hx
    obtain ⟨i, hi, hx⟩ := List.mem_flatMap.1 hx
    rw [hn.subject i hi x hx]
    exact Option.some_ne_none _
  have hdrained := hn.drain
  rw [← htold] at hdrained
  refine ⟨hf, hdrained, hdrained.announced fun i hi => ?_, ?_, hh.aside fun x hx hnone => ?_⟩
  · obtain ⟨_, -, rfl⟩ := List.mem_map.1 hi
    rfl
  · have hall := he.append (echoes_observed hsubject)
    rwa [List.append_nil] at hall
  · rw [observationsIn_observed] at hx
    exact absurd hnone (hsubject x hx)

/-- **After a round everything is told**; until then the engine may have named newcomers. -/
theorem Engine.Recounts.round (h : e.Recounts rounds told gone late s)
    (hround : (s, event) ∈ rounds)
    (hids : (e.gather event s).1.state.instanceIds =
      s.state.instanceIds ++ (e.newcomers (s, event)).map Instance.id)
    (hd : (gone.map Instance.Origin.id ++
      (s.state.instanceIds ++ (e.newcomers (s, event)).map Instance.id)).Nodup) :
    e.Recounts rounds told gone late (e.round s event).drain := by
  obtain ⟨hf, more, hs, hmore⟩ := decides_round e s event h.filed
  have hdistinct : (identities gone (e.gather event s).1.state.instances).Nodup := by
    rwa [identities, ← State.instanceIds, hids]
  have hn := (narrates_round h.narrates hdistinct).aside hmore.apart
  refine .drain hf ?_ ?_ ?_
  · rwa [hs, observationsIn_append, ← List.append_assoc]
  · have hall := h.echoes.append hmore.toEchoes
    rwa [← hs, List.append_nil] at hall
  · rw [hs]
    refine h.heralded.append fun pre x post hsplit _ c hc => ?_
    have hmem := hmore.mentioned x (hsplit ▸ List.mem_append_right _ List.mem_cons_self) c hc
    rw [hids] at hmem
    rcases List.mem_append.1 hmem with hold | hnew
    · obtain ⟨flow, parent, hspawned⟩ := h.announced c hold
      refine .inl ⟨flow, parent, ?_⟩
      rw [← List.append_assoc]
      exact List.mem_append_left _ hspawned
    · refine .inr ⟨_, hround, hnew, List.prefix_append .., ?_⟩
      rw [hs, observationsIn_append, hsplit, List.append_assoc]
      exact (List.prefix_append_right_inj _).2 ⟨post, by rw [List.append_assoc]; rfl⟩

/-! ## Queues -/

theorem ids_of_origins {t : State} : t.origins.map Instance.Origin.id = t.instanceIds :=
  List.map_map

/-- The identities of the instances that some rounds start. -/
def Engine.newIds (e : Engine) (rounds : List (Step × Event)) : List InstanceId :=
  rounds.flatMap fun round => (e.newcomers round).map Instance.id

/-- The instances that are there after a round are those that were there, and the newcomers. -/
theorem ids_round (hn : s.state.Numbered) (event : Event) :
    (e.round s event).drain.state.instanceIds =
      s.state.instanceIds ++ (e.newcomers (s, event)).map Instance.id := by
  rw [← ids_of_origins, (origins_round hn event).1, List.map_append, ids_of_origins,
    List.map_map]
  rfl

/-- **While a queue is worked off everything is told in order.** -/
theorem Engine.Recounts.runQueue (budget : Nat) (h : e.Recounts rounds told gone late s)
    (hrounds : e.roundsFrom budget s ⊆ rounds)
    (hn : ∀ round ∈ e.roundsFrom budget s, round.1.state.Numbered)
    (hd : (gone.map Instance.Origin.id ++
      (s.state.instanceIds ++ e.newIds (e.roundsFrom budget s))).Nodup) :
    e.Recounts rounds told gone late (e.runQueue budget s) := by
  induction budget generalizing s with
  | zero =>
    rw [Engine.runQueue]
    split
    · exact h
    · exact h.decides (decides_of_append rfl rfl
        (decrees_observed rfl rfl rfl rfl (List.forall_mem_nil _))) rfl h.narrates
  | succ budget ih =>
    rw [Engine.runQueue]
    rw [roundsFrom] at hrounds hn hd
    generalize hfresh : nextFresh s s.queue = r at hrounds hn hd ⊢
    have hstate := state_nextFresh hfresh
    have hnext : e.Recounts rounds told gone late r.1 :=
      h.decides (decides_nextFresh hfresh) (congrArg State.instanceIds hstate)
        (by rw [hstate]; exact h.narrates)
    obtain ⟨s', _ | event⟩ := r
    · exact hnext
    · simp only at hstate hrounds hn hd
      rw [← hstate] at hd
      obtain ⟨hfirst, hrest⟩ := List.forall_mem_cons.1 hn
      obtain ⟨hround, hlater⟩ := List.cons_subset.1 hrounds
      have hids := ids_round (e := e) hfirst event
      rw [newIds, List.flatMap_cons, ← newIds, ← List.append_assoc s'.state.instanceIds] at hd
      refine ih (hnext.round hround ?_ ?_) hlater hrest (by rwa [hids])
      · rw [← instanceIds_round, ← hids, instanceIds_drain]
      · exact hd.sublist ((List.sublist_append_left _ _).append_left _)

/-! ## Requests -/

/-- Who is gone after a step has begun, and who is there. -/
theorem perm_beginStep (e : Engine) (t : State) (gone : List Instance.Origin) :
    (gone ++ (t.instances.filter (e.isStale (t.step + 1))).map Instance.origin ++
      (e.beginStep t).state.origins).Perm (gone ++ t.origins) := by
  have hperm := List.filter_append_perm (e.isStale (t.step + 1)) t.instances
  rw [State.origins, (e.retracts_beginStep t).state, List.append_assoc, ← List.map_append]
  exact (hperm.map _).append_left gone

/-- **A step begins with letting instances go** that have ended. -/
theorem recounts_beginStep (rounds : List (Step × Event)) (h : Narrates told gone t.instances)
    (hd : ∀ i ∈ t.instances, i.observations = []) (ht : t.Tidy none) :
    e.Recounts rounds told
      (gone ++ (t.instances.filter (e.isStale (t.step + 1))).map Instance.origin) []
      (e.beginStep t) := by
  have hinstances : (e.beginStep t).state.instances =
      t.instances.filter fun i => !e.isStale (t.step + 1) i := by
    rw [(e.retracts_beginStep t).state]
    rfl
  obtain ⟨hf, more, hs, hechoes, hlives, haside⟩ := letsGo_beginStep e t ht.filed
  rw [show (Step.begin (e.counted t)).signals = [] from rfl, List.nil_append] at hs
  have hn : Narrates (told ++ observationsIn (e.beginStep t).signals)
      (gone ++ (t.instances.filter (e.isStale (t.step + 1))).map Instance.origin)
      (e.beginStep t).state.instances := by
    rw [hs, hinstances]
    refine h.letGo hd (List.filter_append_perm _ _) (fun i hi => ?_) hlives
    obtain ⟨hi, hstale⟩ := List.mem_filter.1 hi
    rw [← ht.marked i hi]
    rw [isStale] at hstale
    cases hat : i.terminatedAt with
    | none => simp [hat] at hstale
    | some _ => rfl
  refine ⟨hf, hn, hn.announced fun i hi => ?_, hs ▸ hechoes, ?_⟩
  · rw [hinstances] at hi
    exact hd i (List.mem_filter.1 hi).1
  · have hnone : e.Heralded rounds told [] := fun pre x post hsplit => by
      cases pre <;> cases hsplit
    rw [hs]
    exact hnone.aside haside

section Replies

variable {r : Request}

/-- What holds at the end of a step holds of the request. -/
theorem recounted_of_recounts (hreply : e.respond t r = .ofStep s)
    (hs : e.Recounts (e.roundsBy t r) told gone' (e.lateBy t r) s)
    (horigins : (gone' ++ s.state.origins).Perm (gone ++ t.origins ++ e.spawnedBy t r)) :
    e.Recounted told gone gone' t r := by
  have hdrained := Recounts.drain hs.filed hs.narrates hs.echoes hs.heralded
  rw [← origins_drain] at horigins
  refine ⟨?_, ?_, ?_, ?_⟩ <;> rw [hreply]
  · exact horigins
  · exact hdrained.narrates
  · exact hdrained.echoes
  · exact hdrained.heralded

/-- A request may be done with when its step has begun. -/
theorem recounted_of_idle (hreply : e.respond t r = .ofStep s) (hopening : e.opening? t r = none)
    (hs : e.Recounts (e.roundsBy t r) told gone' (e.lateBy t r) s)
    (horigins : (gone' ++ s.state.origins).Perm (gone ++ t.origins)) :
    e.Recounted told gone gone' t r := by
  refine recounted_of_recounts hreply hs ?_
  rwa [spawnedBy, roundsBy, hopening, Option.elim_none, List.flatMap_nil, List.append_nil]

/-- A request that is refused is not observed. -/
theorem recounted_refuse {err : Error} (h : Narrates told gone t.instances)
    (hreply : e.respond t r = .refuse t err) (hopening : e.opening? t r = none)
    (hlate : e.lateBy t r = []) : e.Recounted told gone gone t r := by
  refine ⟨?_, ?_, ?_, ?_⟩
  · rw [hreply, spawnedBy, roundsBy, hopening, Option.elim_none, List.flatMap_nil, List.append_nil]
    exact List.Perm.refl _
  · rw [hreply]
    exact (List.append_nil told).symm ▸ h
  · rw [hreply, hlate]
    exact echoes_nil
  · rw [hreply]
    intro pre x post hsplit
    cases pre <;> cases hsplit

/-- A request may set a queue going. -/
theorem recounted_of_queue (change : State → State)
    (hreply : e.respond t r = .ofStep ((e.runQueue e.config.maxEventsPerStep s).update change))
    (hopening : e.opening? t r = some s) (hinstances : ∀ u, (change u).instances = u.instances)
    (hfiled : ∀ u, u.calls.Filed → (change u).calls.Filed)
    (hs : e.Recounts (e.roundsBy t r) told gone' [] s)
    (horigins : (gone' ++ s.state.origins).Perm (gone ++ t.origins)) (hlate : e.lateBy t r = [])
    (hn : ∀ round ∈ e.roundsBy t r, round.1.state.Numbered)
    (hd : ((gone ++ t.origins ++ e.spawnedBy t r).map Instance.Origin.id).Nodup) :
    e.Recounted told gone gone' t r := by
  have hrounds : e.roundsBy t r = e.roundsFrom e.config.maxEventsPerStep s := by
    rw [roundsBy, hopening]
    rfl
  have hborn : e.spawnedBy t r = (e.roundsFrom e.config.maxEventsPerStep s).flatMap
      fun round => (e.newcomers round).map Instance.origin := by rw [spawnedBy, hrounds]
  have hids : (e.spawnedBy t r).map Instance.Origin.id = e.newIds (e.roundsBy t r) := by
    simp only [spawnedBy, newIds, List.map_flatMap, List.map_map]
    rfl
  have hdistinct :=
    ((horigins.append_right (e.spawnedBy t r)).map Instance.Origin.id).nodup_iff.2 hd
  rw [List.map_append, List.map_append, hids, ids_of_origins, List.append_assoc] at hdistinct
  rw [hrounds] at hn hdistinct
  have hends := hs.runQueue e.config.maxEventsPerStep (hrounds ▸ List.Subset.refl _) hn hdistinct
  have hsame : ((e.runQueue e.config.maxEventsPerStep s).update change).state.instances =
      (e.runQueue e.config.maxEventsPerStep s).state.instances := hinstances _
  refine recounted_of_recounts hreply ?_ ?_
  · rw [hlate]
    refine ⟨hfiled _ hends.filed, ?_, ?_, hends.echoes, hends.heralded⟩
    · rw [hsame]
      exact hends.narrates
    · rw [State.instanceIds, hsame]
      exact hends.announced
  · rw [State.origins, hsame, ← State.origins, (origins_runQueue _ hn).1, hborn,
      ← List.append_assoc]
    exact horigins.append_right _

end Replies

/-- A result is not accepted if its call is not in flight. -/
theorem carries_of_accept?_eq_none {calls : Calls} {n : InvocationId}
    (hn : event.invocation? = some n) (ha : calls.accept? event = none) :
    calls.carries n = false := by
  rw [Calls.accept?] at ha
  simp only [hn, Option.bind_eq_bind, Option.bind_some] at ha
  rw [Calls.carries]
  cases hc : Dict.get? calls n with
  | none => rfl
  | some c =>
    rw [hc, Option.bind_some] at ha
    split at ha
    · cases ha
    · next hflight =>
      rw [Option.any_some]
      exact Bool.eq_false_iff.2 hflight

/-- What is no result is not late. -/
theorem lateOf_nameless (hn : event.invocation? = none) : e.lateOf t event = [] := by
  rw [lateOf, hn]
  cases event.check <;> rfl

/-- A result that is accepted is not late. -/
theorem lateOf_accepted {calls : Calls} {n : InvocationId} (hn : event.invocation? = some n)
    (ha : (e.beginStep t).state.calls.accept? event = some calls) : e.lateOf t event = [] := by
  rw [lateOf, hn, Option.filter_some, (put_of_accept? hn ha).1]
  cases event.check <;> rfl

/-- A valid result that is not accepted is late. -/
theorem lateOf_late {n : InvocationId} (hcheck : event.check = .ok ())
    (hn : event.invocation? = some n) (ha : (e.beginStep t).state.calls.accept? event = none) :
    e.lateOf t event = [n] := by
  rw [lateOf, hcheck, hn, Option.filter_some, carries_of_accept?_eq_none hn ha]
  rfl

/-- **What holds of the observations of a request that takes an event.** -/
theorem recounted_event (h : Narrates told gone t.instances)
    (hd : ∀ i ∈ t.instances, i.observations = []) (ht : t.Tidy none) (event : Event)
    (hn : ∀ round ∈ e.roundsBy t (.event event), round.1.state.Numbered)
    (hdistinct :
      ((gone ++ t.origins ++ e.spawnedBy t (.event event)).map Instance.Origin.id).Nodup) :
    ∃ gone', e.Recounted told gone gone' t (.event event) := by
  have hbegin := recounts_beginStep (e := e) (e.roundsBy t (.event event)) h hd ht
  have hperm := perm_beginStep e t gone
  have hopened {f : State → State} (hi : ∀ u, (f u).instances = u.instances)
      (hf : (f (e.beginStep t).state).calls.Filed) : e.Recounts (e.roundsBy t (.event event)) told
        (gone ++ (t.instances.filter (e.isStale (t.step + 1))).map Instance.origin) []
        (e.opened t event f) :=
    hbegin.decides (fun _ => ⟨hf, [], (List.append_nil _).symm, decrees_nil _⟩)
      (congrArg (List.map Instance.id) (hi _))
      (by rw [show (e.opened t event f).state.instances = _ from hi _]; exact hbegin.narrates)
  have htakes := e.takes t event
  generalize hreply : e.handle t event = reply at htakes
  generalize hopening : e.openingOf? t event = o at htakes
  cases htakes with
  | refused err hcheck =>
    exact ⟨gone, recounted_refuse h hreply hopening (by rw [lateBy, lateOf, hcheck])⟩
  | idle _ hnameless =>
    exact ⟨_, recounted_of_idle hreply hopening (by rwa [lateBy, lateOf_nameless hnameless]) hperm⟩
  | late n hnames hlate _ hcheck =>
    refine ⟨_, recounted_of_idle hreply hopening ?_ hperm⟩
    rw [lateBy, lateOf_late hcheck hnames hlate, ← List.nil_append [n]]
    exact hbegin.extend hbegin.filed rfl rfl hbegin.narrates ⟨rfl, rfl, rfl⟩
      (List.forall_mem_singleton.2 ⟨rfl, rfl⟩)
  | accepted n calls _ hnames haccept =>
    obtain ⟨-, c, hput, -, hown⟩ := put_of_accept? hnames haccept
    refine ⟨_, recounted_of_queue _ hreply hopening (fun _ => rfl)
      (fun u hf => filed_remove hf n) (hopened (fun _ => rfl) ?_) hperm
      (lateOf_accepted hnames haccept) hn hdistinct⟩
    rw [hput]
    exact filed_put hbegin.filed (hown hbegin.filed)
  | fired timer hother =>
    exact ⟨_, recounted_of_queue (fun u => u) hreply hopening (fun _ => rfl)
      (fun _ hf => hf) (hopened (fun _ => rfl) hbegin.filed) hperm
      (lateOf_nameless (if_neg hother)) hn hdistinct⟩
  | processed hother =>
    exact ⟨_, recounted_of_queue (fun u => u) hreply hopening (fun _ => rfl)
      (fun _ hf => hf) (hopened (fun _ => rfl) hbegin.filed) hperm
      (lateOf_nameless (if_neg hother)) hn hdistinct⟩

/-- **What holds of the observations of any request.** -/
theorem recounted_respond (h : Narrates told gone t.instances)
    (hd : ∀ i ∈ t.instances, i.observations = []) (ht : t.Tidy none) (r : Request)
    (hn : ∀ round ∈ e.roundsBy t r, round.1.state.Numbered)
    (hdistinct : ((gone ++ t.origins ++ e.spawnedBy t r).map Instance.Origin.id).Nodup) :
    ∃ gone', e.Recounted told gone gone' t r := by
  cases r with
  | named name payload =>
    obtain ⟨gone', hr⟩ := recounted_event (e := e) (t := { t with ids := t.ids.nextEvent.2 }) h hd
      ⟨ht.filed, ht.marked, ht.calls, ht.timers⟩
      ⟨t.ids.nextEvent.1, name, payload, .external⟩ hn hdistinct
    exact ⟨gone', hr.origins, hr.narrates, hr.echoes, hr.heralded⟩
  | event event => exact recounted_event h hd ht event hn hdistinct
  | abort id reason =>
    have hbegin := recounts_beginStep (e := e) (e.roundsBy t (.abort id reason)) h hd ht
    have hgives := e.givesUp t id reason
    generalize hreply : e.abort t id reason = reply at hgives
    generalize hopening : e.opening? t (.abort id reason) = o at hgives
    cases hgives with
    | refused => exact ⟨gone, recounted_refuse h hreply hopening rfl⟩
    | aborted =>
      have hupdated : (e.beginStep t).Decides [] ((e.beginStep t).updateInstance id
          (·.abort reason)) := by
        rw [Step.updateInstance]
        split <;> exact decides_of_eq rfl rfl
      have hids : ((e.beginStep t).updateInstance id (·.abort reason)).state.instanceIds =
          (e.beginStep t).state.instanceIds :=
        map_updateInstance Instance.id _ id fun i => (remains_abort i reason).id
      have horigins : ((e.beginStep t).updateInstance id (·.abort reason)).state.origins =
          (e.beginStep t).state.origins :=
        map_updateInstance Instance.origin _ id fun i => origin_abort i reason
      have habort := hbegin.decides hupdated hids (hbegin.narrates.same hids
        (InstancesKeep.updateInstance hbegin.narrates.present
          (fun _ hi => narrated_abort hi reason) id))
      refine ⟨_, recounted_of_queue (fun u => u) hreply hopening (fun _ => rfl)
        (fun _ hf => hf) (habort.decides (decides_windUpEnded [] _) (instanceIds_windUpEnded _)
          (narrates_windUpEnded habort.narrates)) ?_ rfl hn hdistinct⟩
      rw [(calm_windUpEnded _).origins, horigins]
      exact perm_beginStep e t gone

/-! ## Runs -/

/-- An observation names an instance that is started in the same round, before its start was
told. -/
def Engine.Premature (e : Engine) (past : List (State × Request)) (pre : List Observation)
    (x : Observation) (c : InstanceId) : Prop :=
  ∃ before t r after, past = before ++ (t, r) :: after ∧
    ∃ made, pre = e.observedOver before ++ made ∧ e.Early (e.roundsBy t r) made x c

/-- What holds of the observations of a run that has led to a state, with the instances that were
let go in it. -/
structure Engine.Annals (e : Engine) (past : List (State × Request)) (s : State)
    (gone : List Instance.Origin) : Prop where
  origins : (gone ++ s.origins).Perm (e.bornOver past)
  narrates : Narrates (e.observedOver past) gone s.instances
  echoes : ∀ p ∈ past, Signal.Echoes (e.lateBy p.1 p.2) (e.respond p.1 p.2).signals
  heralded : ∀ pre x post, e.observedOver past = pre ++ x :: post → x.subject? = none →
    ∀ c ∈ x.mentions, (∃ flow parent, .instanceSpawned c flow parent ∈ pre) ∨
      e.Premature past pre x c

/-! ### Identities that are handed out -/

theorem issuedInQueue_eq (e : Engine) (budget : Nat) (s : Step) : e.issuedInQueue budget s =
    (e.roundsFrom budget s).flatMap fun round => e.issuedInRound round.2 round.1 := by
  induction budget generalizing s with
  | zero => rfl
  | succ budget ih =>
    rw [issuedInQueue, roundsFrom]
    generalize nextFresh s s.queue = next
    obtain ⟨s', _ | event⟩ := next
    · rfl
    · rw [List.flatMap_cons, ← ih]

theorem sublist_flatMap {α β : Type} {f g : α → List β} (h : ∀ a, (f a).Sublist (g a)) :
    ∀ as : List α, (as.flatMap f).Sublist (as.flatMap g)
  | [] => List.Sublist.refl _
  | a :: as => (h a).append (sublist_flatMap h as)

/-- What rounds hand out, each some of its identities, is handed out over the run. -/
theorem sublist_issuedOver {f : Step × Event → List String}
    (hf : ∀ round, (f round).Sublist (e.issuedInRound round.2 round.1))
    (past : List (State × Request)) :
    (past.flatMap fun p => (e.roundsBy p.1 p.2).flatMap f).Sublist (e.issuedOver past) := by
  refine sublist_flatMap (fun p => ?_) past
  rw [issuedBy, roundsBy]
  cases e.opening? p.1 p.2 with
  | none => exact List.Sublist.refl _
  | some s =>
    rw [Option.elim_some, Option.elim_some, issuedInQueue_eq]
    exact sublist_flatMap hf _

/-- Identities of instances are distinct if all that are handed out are. -/
theorem nodup_bornOver {past : List (State × Request)} (hd : (e.issuedOver past).Nodup) :
    ((e.bornOver past).map Instance.Origin.id).Nodup := by
  have hids : ((e.bornOver past).map Instance.Origin.id).map InstanceId.text =
      past.flatMap fun p => (e.roundsBy p.1 p.2).flatMap fun round =>
        (e.newcomers round).map (·.id.text) := by
    simp only [bornOver, spawnedBy, List.map_flatMap, List.map_map]
    rfl
  refine List.Nodup.of_map InstanceId.text ?_
  rw [hids]
  exact hd.sublist (sublist_issuedOver (fun _ => List.sublist_append_left _ _) past)

section Runs

variable {ids : IdSource} {past : List (State × Request)} {r : Request}

theorem observedOver_append (e : Engine) (past : List (State × Request)) (t : State)
    (r : Request) : e.observedOver (past ++ [(t, r)]) =
      e.observedOver past ++ observationsIn (e.respond t r).signals := by
  rw [observedOver, List.flatMap_append, List.flatMap_singleton]
  rfl

theorem Engine.Premature.append {pre : List Observation} {x : Observation} {c : InstanceId}
    (h : e.Premature past pre x c) (p : State × Request) : e.Premature (past ++ [p]) pre x c := by
  obtain ⟨before, t, r, after, rfl, hmade⟩ := h
  exact ⟨before, t, r, after ++ [p], by simp, hmade⟩

/-- A request goes on with the annals of a run. -/
theorem Engine.Annals.respond (h : e.Annals past t gone)
    (hr : e.Recounted (e.observedOver past) gone gone' t r) :
    e.Annals (past ++ [(t, r)]) (e.respond t r).state gone' := by
  have hobserved := observedOver_append e past t r
  refine ⟨?_, hobserved ▸ hr.narrates,
    List.forall_mem_append.2 ⟨h.echoes, List.forall_mem_singleton.2 hr.echoes⟩, ?_⟩
  · rw [bornOver, List.flatMap_append, List.flatMap_singleton]
    exact hr.origins.trans (h.origins.append_right _)
  · intro pre x post hsplit hx c hc
    rw [hobserved] at hsplit
    rcases append_eq_append_cons hsplit with ⟨rest, hpre⟩ | ⟨made, rfl, hmade⟩
    · exact (h.heralded pre x rest hpre hx c hc).imp_right fun hpremature => hpremature.append _
    · exact (hr.heralded made x post hmade hx c hc).imp_right fun hearly =>
        ⟨past, t, r, [], rfl, made, rfl, hearly⟩

/-- **Over a run the lives of all instances are told in order**, if the identities that are handed
out are distinct. -/
theorem Engine.History.annals (h : e.History ids past t) (hissued : (e.issuedOver past).Nodup) :
    ∃ gone, e.Annals past t gone := by
  have hd := nodup_bornOver hissued
  clear hissued
  induction h with
  | initial =>
    exact ⟨[], List.Perm.refl _, narrates_nil, nofun, fun pre _ _ hsplit => by
      cases pre <;> cases hsplit⟩
  | @respond past t before r ih =>
    rw [bornOver, List.flatMap_append, List.flatMap_singleton, ← bornOver] at hd
    obtain ⟨gone, hgone⟩ := ih (List.map_append ▸ hd).of_append_left
    have hdistinct := ((hgone.origins.append_right (e.spawnedBy t r)).map
      Instance.Origin.id).nodup_iff.2 hd
    obtain ⟨gone', hr⟩ := recounted_respond hgone.narrates (drained_reachable before.reachable)
      before.tidy r (numbered_rounds before r) hdistinct
    exact ⟨gone', hgone.respond hr⟩
  | setGlobal before path value ih =>
    obtain ⟨gone, hgone⟩ := ih hd
    exact ⟨gone, hgone.origins, hgone.narrates, hgone.echoes, hgone.heralded⟩

end Runs

end Narrating

end EventFlow

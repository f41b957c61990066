import EventFlow.Proofs.Engine.Orphans
import EventFlow.Proofs.Instance.Life

/-!
# What the engine itself reports

Two kinds of observations are handed on.  Those of instances are collected after every round; the
others the engine makes itself, and at once: it reports what it refuses to start, how emissions have
competed, and which calls it dispatches and cancels.

## What is here

* `Signal.observationsIn` are the observations among some signals, and `Observation.mentions` the
  instances that an observation names.
* `Signal.Echoes`: of every call that is dispatched or cancelled there is an observation, in the
  same order, and certain results were reported to be late.
* `Signal.Decrees`: some signals are of the second kind, and name certain instances only.
  **`decides_round`** proves it of a round, for the instances that are there at its end.
* `Step.LetsGo` says the same of instances that are let go (`letsGo_beginStep`).
-/

set_option autoImplicit false

namespace EventFlow

variable {Compiled Found : Type} [Query.Library Compiled Found]

namespace Observation

/-- The call that was dispatched. -/
def dispatched? : Observation → Option InvocationId
  | actionDispatched _ n _ => some n
  | _ => none

/-- The call that was cancelled. -/
def cancelled? : Observation → Option InvocationId
  | actionCancelled n _ => some n
  | _ => none

/-- The call whose result came too late. -/
def late? : Observation → Option InvocationId
  | lateResult n => some n
  | _ => none

/-- The instances that an observation names, apart from the parent of one that was started. -/
def mentions : Observation → List InstanceId
  | emissionOverridden i _ _ winner => [i, winner]
  | tieBroken _ winner runnerUp _ => [winner, runnerUp]
  | actionDispatched i _ _ => [i]
  | x => x.subject?.toList

end Observation

namespace Signal

/-- The observations among some signals. -/
def observationsIn (xs : List Signal) : List Observation := xs.filterMap observation?

/-- Calls are dispatched and cancelled as it is observed, and some results were late. -/
structure Echoes (late : List InvocationId) (xs : List Signal) : Prop where
  dispatched : (observationsIn xs).filterMap Observation.dispatched? = dispatchesIn xs
  cancelled : (observationsIn xs).filterMap Observation.cancelled? = cancellationsIn xs
  late : (observationsIn xs).filterMap Observation.late? = late

/-- What is observed is no part of a life, and names only certain instances. -/
structure Decrees (ids : List InstanceId) (xs : List Signal) : Prop extends Echoes [] xs where
  apart : ∀ x ∈ observationsIn xs, x.subject? = none
  mentioned : ∀ x ∈ observationsIn xs, ∀ c ∈ x.mentions, c ∈ ids

end Signal

/-- Between two steps the engine has made observations of its own, which name certain instances
only, provided that the calls are in order. -/
def Step.Decides (ids : List InstanceId) (s s' : Step) : Prop :=
  s.state.calls.Filed → s'.state.calls.Filed ∧
    ∃ more, s'.signals = s.signals ++ more ∧ Signal.Decrees ids more

/-- Between two steps some instances were let go, provided that the calls are in order. -/
def Step.LetsGo (stale : List Instance) (s s' : Step) : Prop :=
  s.state.calls.Filed → s'.state.calls.Filed ∧
    ∃ more, s'.signals = s.signals ++ more ∧ Signal.Echoes [] more ∧
      (Signal.observationsIn more).filter (fun x => x.subject?.isSome) =
        stale.map (fun i => i.origin.evicted) ∧
      ∀ x ∈ Signal.observationsIn more, x.subject? = none → x.mentions = []

section Decrees

open Engine Signal

variable {e : Engine} {s s' s'' : Step} {ids : List InstanceId} {late late' : List InvocationId}
  {xs ys : List Signal} {requests : Requests}

/-! ## Signals -/

theorem observationsIn_append (xs ys : List Signal) :
    observationsIn (xs ++ ys) = observationsIn xs ++ observationsIn ys := List.filterMap_append

@[simp]
theorem observationsIn_observed (os : List Observation) :
    observationsIn (os.map .observed) = os := by
  have hsome : Signal.observation? ∘ Signal.observed = some := rfl
  rw [observationsIn, List.filterMap_map, hsome, List.filterMap_some]

theorem Signal.Echoes.append (h : Echoes late xs) (h' : Echoes late' ys) :
    Echoes (late ++ late') (xs ++ ys) where
  dispatched := by
    rw [observationsIn_append, List.filterMap_append, h.dispatched, h'.dispatched,
      dispatchesIn_append]
  cancelled := by
    rw [observationsIn_append, List.filterMap_append, h.cancelled, h'.cancelled,
      cancellationsIn_append]
  late := by rw [observationsIn_append, List.filterMap_append, h.late, h'.late]

theorem echoes_nil : Echoes [] [] := ⟨rfl, rfl, rfl⟩

/-- What is told of lives is about no calls. -/
theorem echoes_observed {os : List Observation} (h : ∀ x ∈ os, x.subject? ≠ none) :
    Echoes [] (os.map .observed) := by
  have hnone {f : Observation → Option InvocationId}
      (hf : ∀ x, x.subject? ≠ none → f x = none) : os.filterMap f = [] :=
    List.filterMap_eq_nil_iff.2 fun x hx => hf x (h x hx)
  have haside : ∀ x ∈ os.map Signal.observed, x.Aside :=
    List.forall_mem_map.2 fun _ _ => ⟨rfl, rfl⟩
  refine ⟨?_, ?_, ?_⟩
  · rw [observationsIn_observed, dispatchesIn_aside haside]
    exact hnone fun x hx => by cases x <;> first | rfl | exact absurd rfl hx
  · rw [observationsIn_observed, cancellationsIn_aside haside]
    exact hnone fun x hx => by cases x <;> first | rfl | exact absurd rfl hx
  · rw [observationsIn_observed]
    exact hnone fun x hx => by cases x <;> first | rfl | exact absurd rfl hx

theorem decrees_nil (ids : List InstanceId) : Decrees ids [] := ⟨echoes_nil, nofun, nofun⟩

theorem Signal.Decrees.append (h : Decrees ids xs) (h' : Decrees ids ys) :
    Decrees ids (xs ++ ys) where
  toEchoes := h.toEchoes.append h'.toEchoes
  apart := by
    rw [observationsIn_append]
    exact List.forall_mem_append.2 ⟨h.apart, h'.apart⟩
  mentioned := by
    rw [observationsIn_append]
    exact List.forall_mem_append.2 ⟨h.mentioned, h'.mentioned⟩

/-! ## Decisions -/

theorem decides_of_append (hcalls : s'.state.calls = s.state.calls)
    (hs : s'.signals = s.signals ++ xs) (hx : Decrees ids xs) : s.Decides ids s' := fun hf =>
  ⟨hcalls ▸ hf, xs, hs, hx⟩

theorem decides_of_eq (hcalls : s'.state.calls = s.state.calls) (hs : s'.signals = s.signals) :
    s.Decides ids s' :=
  decides_of_append hcalls (by rw [hs, List.append_nil]) (decrees_nil ids)

theorem Step.Decides.trans (h : s.Decides ids s') (h' : s'.Decides ids s'') :
    s.Decides ids s'' := by
  intro hf
  obtain ⟨hf', more, hs, hmore⟩ := h hf
  obtain ⟨hf'', more', hs', hmore'⟩ := h' hf'
  exact ⟨hf'', more ++ more', by rw [hs', hs, List.append_assoc], hmore.append hmore'⟩

theorem decides_foldl {α : Type} {f : Step → α → Step} (as : List α)
    (hf : ∀ (s : Step) a, s.Decides ids (f s a)) (s : Step) : s.Decides ids (as.foldl f s) :=
  List.foldlRecOn as f (motive := s.Decides ids) (decides_of_eq rfl rfl)
    fun s' hs a _ => Step.Decides.trans hs (hf s' a)

/-- Signals that observe nothing, dispatch nothing and cancel nothing may be sent at any time. -/
theorem decrees_silent {x : Signal} (ho : x.observation? = none) (ha : x.Aside) :
    Decrees ids [x] := by
  have hnone : observationsIn [x] = [] := by
    rw [observationsIn, List.filterMap_cons, ho]
    rfl
  have haside := List.forall_mem_singleton.2 ha
  refine ⟨⟨?_, ?_, ?_⟩, by rw [hnone]; nofun, by rw [hnone]; nofun⟩
  · rw [hnone, dispatchesIn_aside haside]
    rfl
  · rw [hnone, cancellationsIn_aside haside]
    rfl
  · rw [hnone]
    rfl

/-- An observation of the engine's own that is about no call. -/
theorem decrees_observed {x : Observation} (hd : x.dispatched? = none) (hc : x.cancelled? = none)
    (hl : x.late? = none) (hs : x.subject? = none) (hm : ∀ c ∈ x.mentions, c ∈ ids) :
    Decrees ids [.observed x] := by
  have hnone {f : Observation → Option InvocationId} (hf : f x = none) :
      (observationsIn [.observed x]).filterMap f = [] :=
    List.filterMap_eq_nil_iff.2 (List.forall_mem_singleton.2 hf)
  exact ⟨⟨hnone hd, hnone hc, hnone hl⟩, List.forall_mem_singleton.2 hs,
    List.forall_mem_singleton.2 hm⟩

/-! ## Operations -/

/-- Every call that is cancelled is reported, if all of them are in flight. -/
theorem decides_foldl_cancelCall (ids : List InstanceId) (ns : List InvocationId) {s : Step}
    (hns : ∀ n ∈ ns, ∀ c, Dict.get? s.state.calls n = some c → c.isInFlight = true) :
    s.Decides ids (ns.foldl Step.cancelCall s) := by
  induction ns generalizing s with
  | nil => exact decides_of_eq rfl rfl
  | cons n ns ih =>
    obtain ⟨hfirst, hrest⟩ := List.forall_mem_cons.1 hns
    have hcall : s.Decides ids (s.cancelCall n) := by
      rw [Step.cancelCall]
      split
      · exact decides_of_eq rfl rfl
      · next call hget =>
        intro hf
        have hown : call.invocation = n := hf.own _ (Dict.mem_of_get? hget)
        simp only [hfirst call hget, if_true]
        refine ⟨filed_remove hf n,
          [.cancelled n, .observed (.actionCancelled call.invocation call.action)],
          List.append_assoc .., ⟨rfl, ?_, rfl⟩, ?_, ?_⟩
        · rw [hown]
          rfl
        · exact List.forall_mem_singleton.2 rfl
        · exact List.forall_mem_singleton.2 (List.forall_mem_nil _)
    refine hcall.trans (ih fun m hm c hc => hrest m hm c ?_)
    rw [calls_cancelCall] at hc
    by_cases hmn : m = n
    · rw [hmn, Dict.get?_remove_self] at hc
      cases hc
    · rwa [Dict.get?_remove_of_ne hmn] at hc

theorem decides_cancelCallsOf (ids : List InstanceId) (s : Step) (id : InstanceId) :
    s.Decides ids (s.cancelCallsOf id) := fun hf =>
  decides_foldl_cancelCall ids _ (fun _ hn _ hc =>
    ((mem_inFlightFor hf (Dict.mem_of_get? hc) id).1 hn).2) hf

theorem decides_dispatch {id : InstanceId} (hid : id ∈ ids) (s : Step) (r : CallRequest) :
    s.Decides ids (s.dispatch id r) := fun hf =>
  ⟨filed_put hf rfl,
    [.dispatched r.dispatch, .observed (.actionDispatched id r.invocation r.action)],
    List.append_assoc .., ⟨rfl, rfl, rfl⟩, List.forall_mem_singleton.2 rfl,
    List.forall_mem_singleton.2 (List.forall_mem_singleton.2 hid)⟩

theorem decides_deliver {m : Emission} (hm : m.instanceId ∈ ids) (s : Step) :
    s.Decides ids (deliver s m) := by
  rw [deliver]
  split
  · exact decides_of_eq rfl rfl
  · exact decides_of_eq rfl rfl
  · exact decides_dispatch hm s _

theorem decides_suppress {l : Overridden} (hl : l.emission.instanceId ∈ ids)
    (hw : l.winner ∈ ids) (s : Step) : s.Decides ids (suppress s l) := by
  have hnote : s.Decides ids (s.updateInstance l.emission.instanceId
      (·.noteOverridden l.emission.id)) := by
    rw [Step.updateInstance]
    split <;> exact decides_of_eq rfl rfl
  have hreport : Decrees ids [.observed (.emissionOverridden l.emission.instanceId l.emission.name
      (l.emission.key.getD "") l.winner)] :=
    decrees_observed rfl rfl rfl rfl
      (List.forall_mem_cons.2 ⟨hl, List.forall_mem_singleton.2 hw⟩)
  rw [suppress]
  cases l.emission.intent <;> exact hnote.trans (decides_of_append rfl rfl hreport)

/-- Whoever wins has emitted something. -/
theorem Conflict.winner_of_overridden {t : TieBreak} {es : List Emission} {l : Overridden}
    (hl : l ∈ (resolve t es).overridden) : ∃ m ∈ es, m.instanceId = l.winner := by
  obtain ⟨m, -, hlost⟩ := List.mem_filterMap.1 hl
  obtain ⟨w, hw, rfl⟩ := Option.map_eq_some_iff.1 hlost
  rw [lostTo?] at hw
  simp only [Option.bind_eq_bind, Option.bind_eq_some_iff] at hw
  obtain ⟨key, -, w', hwinner, hw⟩ := hw
  obtain ⟨best, hbest, rfl⟩ := Option.map_eq_some_iff.1 hwinner
  split at hw
  · cases hw
  · obtain rfl := Option.some.inj hw
    exact ⟨best, (mem_members.1 (Emission.leads_of_best? hbest).1).1, rfl⟩

theorem decides_apply (hids : ∀ m ∈ emissionsOf requests, m.instanceId ∈ ids) (s : Step) :
    s.Decides ids (e.apply s requests) := by
  refine e.apply_preserves (P := s.Decides ids) requests (fun s' t ht h => h.trans ?_)
    (fun s' m hm h => h.trans ?_) (fun s' l hl h => h.trans ?_) (fun s' _ _ h => h.trans ?_)
    (decides_of_eq rfl rfl)
  · obtain ⟨best, next, hbest, hnext, -, -, htie⟩ := Conflict.mem_ties.1 ht
    have hwinner := hids best (Conflict.mem_members.1 hbest.1).1
    have hrunnerUp := hids next (Conflict.mem_members.1 (List.mem_filter.1 hnext.1).1).1
    rw [htie]
    exact decides_of_append rfl rfl (decrees_observed rfl rfl rfl rfl
      (List.forall_mem_cons.2 ⟨hwinner, List.forall_mem_singleton.2 hrunnerUp⟩))
  · exact decides_deliver (hids m (List.mem_filter.1 hm).1) s'
  · obtain ⟨m, hm, hw⟩ := Conflict.winner_of_overridden hl
    exact decides_suppress (hids _ (Conflict.mem_of_overridden hl)) (hw ▸ hids m hm) s'
  · exact decides_of_append rfl rfl (decrees_silent rfl ⟨rfl, rfl⟩)

theorem decides_stopTimersOf (ids : List InstanceId) (s : Step) (id : InstanceId) :
    s.Decides ids (s.stopTimersOf id) :=
  decides_foldl (f := fun (s : Step) (t : TimerId) =>
    (s.update fun s => { s with timers := Dict.remove s.timers t }).emit (.timerCancelled t)) _
    (fun _ _ => decides_of_append rfl rfl (decrees_silent rfl ⟨rfl, rfl⟩)) s

theorem decides_windUpEnded (ids : List InstanceId) (s : Step) :
    s.Decides ids (windUpEnded s) :=
  decides_foldl _ (fun s _ => windUp_preserves (P := s.Decides ids) (decides_of_eq rfl rfl)
    (fun _ _ => decides_of_eq rfl rfl)
    (fun i _ _ h => h.trans (decides_cancelCallsOf ids _ i.id))
    (fun s' id h => h.trans (decides_stopTimersOf ids s' id))
    fun _ _ _ h => h.trans (decides_of_eq rfl rfl)) s

/-! ## Rounds -/

theorem decides_gather (e : Engine) (ids : List InstanceId) (event : Event) (s : Step) :
    s.Decides ids (e.gather event s).1 := by
  have hmoves : e.MovesKeep event fun s' _ => s.Decides ids s' :=
    ⟨fun _ h => h.trans (decides_of_eq rfl rfl), fun _ _ _ h => h.trans (decides_of_eq rfl rfl)⟩
  have hstarts : e.StartsKeep fun s' _ => s.Decides ids s' :=
    { refuse := fun _ _ h => h.trans
        (decides_of_append rfl rfl (decrees_observed rfl rfl rfl rfl (List.forall_mem_nil _)))
      count := fun _ h => h.trans (decides_of_eq rfl rfl)
      identify := fun h => h.trans (decides_of_eq rfl rfl)
      spawn := fun _ _ _ _ h => h.trans (decides_of_eq rfl rfl) }
  exact hstarts.gather (hmoves.moveHeads (decides_of_eq rfl rfl))

/-- Whatever competes in a round was emitted by an instance that is there. -/
theorem instanceId_of_emissionsOf (e : Engine) (event : Event) (s : Step) :
    ∀ m ∈ emissionsOf (e.gather event s).2,
      m.instanceId ∈ (e.gather event s).1.state.instanceIds := by
  have hany : e.InstancesKeep fun _ => True :=
    ⟨fun _ _ _ => trivial, fun _ _ _ _ _ _ _ _ _ => ⟨trivial, fun _ _ => trivial⟩,
      fun _ _ _ => ⟨trivial, fun _ _ => trivial⟩, fun _ _ => trivial, fun _ _ => trivial,
      fun _ _ _ => trivial, fun _ => trivial⟩
  have hbehalf : OnBehalf (fun _ => True) (e.gather event s).1 (e.gather event s).2 :=
    onBehalf_gather hany (fun _ _ => trivial) (fun _ _ => trivial) (fun _ => trivial)
      fun _ _ => trivial
  intro m hm
  obtain ⟨q, hq, hmq⟩ := List.mem_flatMap.1 hm
  obtain ⟨hstamped, i, hi, hid, -⟩ := hbehalf q hq
  rw [(hstamped m hmq).1, ← hid]
  exact List.mem_map_of_mem hi

/-- **In a round the engine reports only of instances that are there at its end.** -/
theorem decides_round (e : Engine) (s : Step) (event : Event) :
    s.Decides (e.gather event s).1.state.instanceIds (e.round s event) :=
  ((decides_gather e _ event s).trans
    (decides_apply (instanceId_of_emissionsOf e event s) _)).trans (decides_windUpEnded _ _)

theorem decides_nextFresh {queue : List Event} {o : Option Event}
    (hn : nextFresh s queue = (s', o)) : s.Decides ids s' := by
  fun_induction nextFresh s queue with
  | case1 s =>
    cases hn
    exact decides_of_eq rfl rfl
  | case2 s ev rest _ ih =>
    have hdropped : s.Decides ids (s.observe (.duplicateDropped ev.id ev.name)) :=
      decides_of_append rfl rfl (decrees_observed rfl rfl rfl rfl (List.forall_mem_nil _))
    exact hdropped.trans (ih hn)
  | case3 s ev rest =>
    cases hn
    exact decides_of_eq rfl rfl

/-! ## Instances that are let go -/

theorem letsGo_foldl_evict (stale : List Instance) (s : Step) :
    s.LetsGo stale (stale.foldl evict s) := by
  induction stale generalizing s with
  | nil => exact fun hf => ⟨hf, [], (List.append_nil _).symm, echoes_nil, rfl, nofun⟩
  | cons i stale ih =>
    intro hf
    obtain ⟨hcancelled, more, hs, hmore⟩ := decides_cancelCallsOf [] s i.id hf
    obtain ⟨hend, rest, hs', hrest, htold, haside⟩ := ih (evict s i) hcancelled
    have hnone : (observationsIn more).filter (fun x => x.subject?.isSome) = [] :=
      List.filter_eq_nil_iff.2 fun x hx => by
        rw [hmore.apart x hx]
        exact Bool.false_ne_true
    have hself : Echoes [] [.observed i.origin.evicted] :=
      show Echoes [] ([i.origin.evicted].map .observed) from
        echoes_observed (List.forall_mem_singleton.2 nofun)
    have hall : observationsIn (more ++ .observed i.origin.evicted :: rest) =
        observationsIn more ++ i.origin.evicted :: observationsIn rest :=
      observationsIn_append ..
    refine ⟨hend, more ++ .observed i.origin.evicted :: rest, ?_,
      hmore.toEchoes.append (hself.append hrest), ?_, ?_⟩
    · rw [List.foldl_cons, hs', show (evict s i).signals =
        (s.cancelCallsOf i.id).signals ++ [.observed i.origin.evicted] from rfl, hs]
      simp only [List.append_assoc, List.singleton_append]
    · rw [hall, List.filter_append, hnone, List.nil_append, List.map_cons, ← htold]
      rfl
    · rw [hall]
      refine List.forall_mem_append.2 ⟨fun x hx _ => ?_, List.forall_mem_cons.2 ⟨nofun, haside⟩⟩
      exact List.eq_nil_iff_forall_not_mem.2 fun c hc => nomatch hmore.mentioned x hx c hc

/-- A step begins with letting instances go, and reports it. -/
theorem letsGo_beginStep (e : Engine) (t : State) :
    (Step.begin (e.counted t)).LetsGo (t.instances.filter (e.isStale (t.step + 1)))
      (e.beginStep t) := by
  rw [beginStep, List.partition_eq_filter_filter]
  exact letsGo_foldl_evict _ _

end Decrees

end EventFlow

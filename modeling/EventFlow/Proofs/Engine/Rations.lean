import EventFlow.Proofs.Engine.Created
import EventFlow.Proofs.Engine.Yields
import EventFlow.Proofs.Instance.Children
import EventFlow.Proofs.Instance.Listening
import EventFlow.Proofs.Instance.Origin

/-!
# How starts are rationed

Within a step the first starts under a key are granted and all later ones are refused, where the key
is that of an activation pattern or that of a flow to start as a child.  A start that is granted
adds one instance, and one that is refused is reported.

## What is here

* `Ask` is something a step is asked to start, and `Ask.verdicts` says which of some asks are
  granted.  **`tally_grants`** counts them.
* `Engine.Metes` relates two steps with some asks in between, all of which were granted or refused
  as they should be; it composes, and so does `Engine.Admits`, which leaves out the refusals.
  `Step.Calm` is the case without asks.
* `metes_activate` and **`metes_startChildren`** say it of the two ways to start instances.
-/

set_option autoImplicit false

namespace EventFlow

variable {Compiled Found : Type} [Query.Library Compiled Found]

/-- Something a step is asked to start. -/
inductive Ask
  /-- A flow whose activation pattern an event matches. -/
  | activation (flow : FlowId) (pattern : Pattern)
  | child (c : Child)

namespace Ask

/-- The key that starts are counted under. -/
def key : Ask → String
  | activation _ pattern => pattern.key
  | child c => Engine.childKey c.request.flow

/-- The flow to start. -/
def flow : Ask → FlowId
  | activation flow _ => flow
  | child c => c.request.flow

/-- The instance that has asked. -/
def parent? : Ask → Option InstanceId
  | activation .. => none
  | child c => some c.parent

/-- The identity that is reserved for the new instance. -/
def reserved? : Ask → Option InstanceId
  | activation .. => none
  | child c => some c.request.instanceId

/-- A new instance is the one that was asked for. -/
structure Gets (a : Ask) (o : Instance.Origin) : Prop where
  flow : o.flow = a.flow
  parent : o.parent = a.parent?
  id : ∀ id ∈ a.reserved?, o.id = id

/-- The report that a start was refused. -/
def report (limit : Nat) (a : Ask) : Observation := .activationLimitReached a.flow a.key limit

/-! ## Verdicts -/

/-- How many of some asks have a key. -/
def tally (key : String) (asks : List Ask) : Nat := asks.countP fun a => a.key = key

/-- Which asks are granted when others came before: those that had fewer than a limit of asks with
the same key before them. -/
def verdicts (limit : Nat) : List Ask → List Ask → List (Ask × Bool)
  | _, [] => []
  | before, a :: asks => (a, tally a.key before < limit) :: verdicts limit (before ++ [a]) asks

/-- The asks that are granted. -/
def grants (limit : Nat) (before asks : List Ask) : List Ask :=
  ((verdicts limit before asks).filter Prod.snd).map Prod.fst

/-- The asks that are refused. -/
def refusals (limit : Nat) (before asks : List Ask) : List Ask :=
  ((verdicts limit before asks).filter fun v => !v.2).map Prod.fst

section Verdicts

variable {limit : Nat} {before asks more : List Ask} {a : Ask}

theorem tally_append (key : String) (asks more : List Ask) :
    tally key (asks ++ more) = tally key asks + tally key more := List.countP_append

theorem verdicts_append (limit : Nat) (before asks more : List Ask) :
    verdicts limit before (asks ++ more) =
      verdicts limit before asks ++ verdicts limit (before ++ asks) more := by
  induction asks generalizing before with
  | nil => rw [List.append_nil, verdicts, List.nil_append, List.nil_append]
  | cons a asks ih =>
    rw [List.cons_append, verdicts, verdicts, ih, List.append_assoc, List.cons_append]
    rfl

theorem map_fst_verdicts (limit : Nat) (before asks : List Ask) :
    (verdicts limit before asks).map Prod.fst = asks := by
  induction asks generalizing before with
  | nil => rfl
  | cons a asks ih => rw [verdicts, List.map_cons, ih]

theorem grants_append (limit : Nat) (before asks more : List Ask) :
    grants limit before (asks ++ more) =
      grants limit before asks ++ grants limit (before ++ asks) more := by
  rw [grants, verdicts_append, List.filter_append, List.map_append]
  rfl

theorem refusals_append (limit : Nat) (before asks more : List Ask) :
    refusals limit before (asks ++ more) =
      refusals limit before asks ++ refusals limit (before ++ asks) more := by
  rw [refusals, verdicts_append, List.filter_append, List.map_append]
  rfl

theorem grants_of_lt (h : tally a.key before < limit) : grants limit before [a] = [a] := by
  simp [grants, verdicts, h]

theorem refusals_of_lt (h : tally a.key before < limit) : refusals limit before [a] = [] := by
  simp [refusals, verdicts, h]

theorem grants_of_le (h : limit ≤ tally a.key before) : grants limit before [a] = [] := by
  simp [grants, verdicts, h]

theorem refusals_of_le (h : limit ≤ tally a.key before) : refusals limit before [a] = [a] := by
  simp [refusals, verdicts, h]

/-- An ask is granted as long as the limit is not met. -/
theorem grants_eq_self_iff : grants limit before [a] = [a] ↔ tally a.key before < limit := by
  refine ⟨fun h => ?_, grants_of_lt⟩
  by_contra hle
  rw [grants_of_le (Nat.not_lt.1 hle)] at h
  cases h

/-- An ask is refused as soon as the limit is met. -/
theorem refusals_eq_self_iff : refusals limit before [a] = [a] ↔ limit ≤ tally a.key before := by
  refine ⟨fun h => ?_, refusals_of_le⟩
  by_contra hlt
  rw [refusals_of_lt (Nat.not_le.1 hlt)] at h
  cases h

/-- Every ask is granted or refused. -/
theorem grants_perm (limit : Nat) (before asks : List Ask) :
    (grants limit before asks ++ refusals limit before asks).Perm asks := by
  have hperm := (List.filter_append_perm Prod.snd (verdicts limit before asks)).map Prod.fst
  rwa [List.map_append, map_fst_verdicts] at hperm

/-- **As many asks with a key are granted as the limit allows.** -/
theorem tally_grants (limit : Nat) (key : String) (before asks : List Ask) :
    min limit (tally key before) + tally key (grants limit before asks) =
      min limit (tally key (before ++ asks)) := by
  induction asks generalizing before with
  | nil => rw [List.append_nil]; rfl
  | cons a asks ih =>
    have hrest := ih (before ++ [a])
    rw [← List.singleton_append, grants_append, tally_append key (grants limit before [a]),
      ← List.append_assoc, ← hrest, tally_append key before [a], ← Nat.add_assoc]
    refine congrArg (· + _) ?_
    have hone : tally key [a] = if a.key = key then 1 else 0 := by
      rw [tally, List.countP_singleton]
      simp
    by_cases hlt : tally a.key before < limit
    · rw [grants_of_lt hlt, hone]
      split
      · next hkey =>
        subst hkey
        omega
      · omega
    · rw [grants_of_le (Nat.not_lt.1 hlt), hone]
      have hnil : tally key [] = 0 := rfl
      split
      · next hkey =>
        subst hkey
        omega
      · omega

theorem tally_grants_le (limit : Nat) (key : String) (before asks : List Ask) :
    tally key (grants limit before asks) ≤ limit := by
  have := tally_grants limit key before asks
  omega

theorem mem_of_mem_grants (h : a ∈ grants limit before asks) : a ∈ asks :=
  (grants_perm limit before asks).mem_iff.1 (List.mem_append_left _ h)

end Verdicts

end Ask

/-! ## What is counted -/

/-- The report that a start was refused. -/
def Signal.refusal? : Signal → Option Observation
  | .observed (.activationLimitReached flow key limit) =>
    some (.activationLimitReached flow key limit)
  | _ => none

/-- The reports that starts were refused. -/
def Step.refusals (s : Step) : List Observation := s.signals.filterMap Signal.refusal?

/-- The instances there are, as far as they were given something when they were started. -/
def State.origins (s : State) : List Instance.Origin := s.instances.map Instance.origin

/-- Between two steps nothing was started and no start was refused. -/
structure Step.Calm (s s' : Step) : Prop where
  counts : s'.counts = s.counts
  origins : s'.state.origins = s.state.origins
  refusals : s'.refusals = s.refusals

/-- The counts of a step are those of the asks it has granted. -/
def Engine.Tallies (e : Engine) (before : List Ask) (s : Step) : Prop :=
  ∀ key, granted s key = min e.config.maxInstancesPerPattern (Ask.tally key before)

/-- Between two steps there were some asks, and those that were to be granted have started
instances, one each and in order. -/
structure Engine.Admits (e : Engine) (before asks : List Ask) (started : List Instance.Origin)
    (s s' : Step) : Prop where
  tallies : e.Tallies (before ++ asks) s'
  starts : List.Forall₂ Ask.Gets (Ask.grants e.config.maxInstancesPerPattern before asks) started
  origins : s'.state.origins = s.state.origins ++ started

/-- Between two steps there were some asks, and those that were not granted have been refused. -/
structure Engine.Metes (e : Engine) (before asks : List Ask) (started : List Instance.Origin)
    (s s' : Step) : Prop extends e.Admits before asks started s s' where
  refusals : s'.refusals = s.refusals ++
    (Ask.refusals e.config.maxInstancesPerPattern before asks).map
      (Ask.report e.config.maxInstancesPerPattern)

/-- What a flow asks for when an event matches its activation pattern. -/
def LoadedFlow.ask? (l : LoadedFlow) (event : Event) : Option Ask :=
  (l.flow.activation.filter fun p => (p.match? event []).isSome).map (.activation l.id)

/-- The flows an event activates, in order. -/
def Engine.activations (e : Engine) (event : Event) : List Ask :=
  e.catalog.flows.filterMap (·.ask? event)

section Metering

open Engine

variable {e : Engine} {s s' s'' : Step} {event : Event} {before asks asks' : List Ask}
  {started started' : List Instance.Origin} {requests : Requests} {a : Ask}

/-! ## Calm -/

theorem calm_refl (s : Step) : s.Calm s := ⟨rfl, rfl, rfl⟩

theorem Step.Calm.trans (h : s.Calm s') (h' : s'.Calm s'') : s.Calm s'' :=
  ⟨h'.counts.trans h.counts, h'.origins.trans h.origins, h'.refusals.trans h.refusals⟩

theorem calm_foldl {α : Type} {f : Step → α → Step} (hf : ∀ (s : Step) a, s.Calm (f s a))
    (as : List α) (s : Step) : s.Calm (as.foldl f s) :=
  List.foldlRecOn as f (motive := s.Calm) (calm_refl s) fun s' hs a _ => hs.trans (hf s' a)

/-- A signal that reports no refusal changes nothing. -/
theorem calm_emit {x : Signal} (hx : x.refusal? = none) (s : Step) : s.Calm (s.emit x) := by
  refine ⟨rfl, rfl, ?_⟩
  rw [Step.refusals, Step.emit, List.filterMap_append, List.filterMap_cons, hx]
  exact List.append_nil _

/-- Changing the state and sending a signal changes nothing as long as the instances stay. -/
theorem Step.Calm.emit {x : Signal} (h : s.Calm s') (hx : x.refusal? = none) :
    s.Calm (s'.emit x) := h.trans (calm_emit hx s')

theorem origins_set {t : State} {k : Nat} {i i' : Instance} (hi : t.instances[k]? = some i)
    (hi' : i'.origin = i.origin) :
    (t.instances.set k i').map Instance.origin = t.origins := by
  obtain ⟨hlt, rfl⟩ := List.getElem?_eq_some_iff.1 hi
  rw [List.map_set, hi', ← List.getElem_map Instance.origin (h := by rwa [List.length_map])]
  exact List.set_getElem_self _

theorem calm_updateInstance (s : Step) (id : InstanceId) {f : Instance → Instance}
    (hf : ∀ i, (f i).origin = i.origin) : s.Calm (s.updateInstance id f) := by
  have horigins := map_updateInstance Instance.origin s id hf
  rw [Step.updateInstance] at horigins ⊢
  split at horigins
  · exact calm_refl s
  · exact ⟨rfl, horigins, rfl⟩

theorem calm_cancelCall (s : Step) (n : InvocationId) : s.Calm (s.cancelCall n) := by
  rw [Step.cancelCall]
  split
  · exact calm_refl s
  · have hremoved : s.Calm (s.update fun t => { t with calls := Dict.remove t.calls n }) :=
      ⟨rfl, rfl, rfl⟩
    simp only
    split
    · exact (hremoved.emit rfl).emit rfl
    · exact hremoved.emit rfl

theorem calm_cancelCallsOf (s : Step) (id : InstanceId) : s.Calm (s.cancelCallsOf id) :=
  calm_foldl calm_cancelCall _ s

theorem calm_moves (e : Engine) (event : Event) (s : Step) :
    e.MovesKeep event fun s' _ => s.Calm s' where
  abort hi h := h.trans ⟨rfl, origins_set hi (origin_abort ..), rfl⟩
  advance hi _ hadv h := h.trans ⟨rfl, origins_set hi (origin_advance? hadv), rfl⟩

theorem calm_moveHeads (e : Engine) (event : Event) (s : Step) :
    s.Calm (e.moveHeads event s).1 :=
  (calm_moves e event s).moveHeads (calm_refl s)

theorem calm_deliver (s : Step) (m : Emission) : s.Calm (deliver s m) := by
  rw [deliver]
  split
  · exact ⟨rfl, rfl, rfl⟩
  · exact ⟨rfl, rfl, rfl⟩
  · next r _ =>
    have hentered : s.Calm (s.update fun t =>
        { t with calls := t.calls.invoke m.instanceId r }) := ⟨rfl, rfl, rfl⟩
    exact (hentered.emit rfl).emit rfl

theorem calm_suppress (s : Step) (l : Overridden) : s.Calm (suppress s l) := by
  have hnoted := (calm_updateInstance s l.emission.instanceId
    (f := (·.noteOverridden l.emission.id)) fun _ => rfl).emit (x := .observed l.report) rfl
  rw [suppress]
  split
  · exact hnoted.trans ⟨rfl, rfl, rfl⟩
  · exact hnoted.trans ⟨rfl, rfl, rfl⟩

theorem calm_apply (e : Engine) (s : Step) (requests : Requests) :
    s.Calm (e.apply s requests) :=
  e.apply_preserves (P := s.Calm) requests (fun _ _ _ h => h.emit rfl)
    (fun s' m _ h => h.trans (calm_deliver s' m)) (fun s' l _ h => h.trans (calm_suppress s' l))
    (fun s' id t h => (h.trans ⟨rfl, rfl, rfl⟩ : s.Calm (s'.update fun u =>
      { u with timers := Dict.put u.timers t.timer id })).emit rfl) (calm_refl s)

theorem calm_stopTimersOf (s : Step) (id : InstanceId) : s.Calm (s.stopTimersOf id) := by
  have hstop (s : Step) (t : TimerId) : s.Calm ((s.update fun u =>
      { u with timers := Dict.remove u.timers t }).emit (.timerCancelled t)) := by
    have hremoved : s.Calm (s.update fun u => { u with timers := Dict.remove u.timers t }) :=
      ⟨rfl, rfl, rfl⟩
    exact hremoved.emit rfl
  exact calm_foldl hstop _ s

theorem calm_windUp (s : Step) (k : Nat) : s.Calm (windUp s k) :=
  windUp_preserves (P := s.Calm) (calm_refl s) (fun _ hi => ⟨rfl, origins_set hi rfl, rfl⟩)
    (fun i _ _ h => h.trans (calm_cancelCallsOf _ i.id))
    (fun s' id h => h.trans (calm_stopTimersOf s' id)) fun _ _ _ h => h.trans ⟨rfl, rfl, rfl⟩

theorem calm_windUpEnded (s : Step) : s.Calm (windUpEnded s) := calm_foldl calm_windUp _ s

theorem origins_drain (s : Step) : s.drain.state.origins = s.state.origins := by
  rw [State.origins, Step.drain, List.map_map]
  rfl

/-- What instances observe themselves reports no refusal. -/
theorem calm_drain (hp : ∀ i ∈ s.state.instances, i.Personal) : s.Calm s.drain := by
  have hnone : ((s.state.instances.flatMap Instance.observations).map
      Signal.observed).filterMap Signal.refusal? = [] := by
    rw [List.filterMap_eq_nil_iff]
    intro x hx
    obtain ⟨o, ho, rfl⟩ := List.mem_map.1 hx
    obtain ⟨i, hi, ho⟩ := List.mem_flatMap.1 ho
    have hpersonal := hp i hi o ho
    cases o <;> first | rfl | cases hpersonal
  refine ⟨rfl, origins_drain s, ?_⟩
  rw [Step.refusals, Step.drain, List.filterMap_append, hnone]
  exact List.append_nil _

theorem calm_nextFresh {queue : List Event} {o : Option Event}
    (hn : nextFresh s queue = (s', o)) : s.Calm s' := by
  fun_induction nextFresh s queue with
  | case1 s =>
    cases hn
    exact ⟨rfl, rfl, rfl⟩
  | case2 s ev rest _ ih => exact (calm_emit rfl s).trans (ih hn)
  | case3 s ev rest =>
    cases hn
    exact ⟨rfl, rfl, rfl⟩

/-! ## Metering -/

theorem Engine.Tallies.calm (h : e.Tallies before s) (hs : s.Calm s') : e.Tallies before s' := by
  intro key
  rw [granted, hs.counts]
  exact h key

theorem metes_of_calm (h : e.Tallies before s) (hs : s.Calm s') : e.Metes before [] [] s s' where
  tallies := by
    rw [List.append_nil]
    exact h.calm hs
  starts := .nil
  origins := hs.origins.trans (List.append_nil _).symm
  refusals := hs.refusals.trans (List.append_nil _).symm

theorem Engine.Admits.trans (h : e.Admits before asks started s s')
    (h' : e.Admits (before ++ asks) asks' started' s' s'') :
    e.Admits before (asks ++ asks') (started ++ started') s s'' where
  tallies := by
    rw [← List.append_assoc]
    exact h'.tallies
  starts := by
    rw [Ask.grants_append]
    exact List.rel_append h.starts h'.starts
  origins := by rw [h'.origins, h.origins, List.append_assoc]

theorem Engine.Metes.trans (h : e.Metes before asks started s s')
    (h' : e.Metes (before ++ asks) asks' started' s' s'') :
    e.Metes before (asks ++ asks') (started ++ started') s s'' where
  toAdmits := h.toAdmits.trans h'.toAdmits
  refusals := by
    rw [h'.refusals, h.refusals, Ask.refusals_append, List.map_append, List.append_assoc]

/-- Nothing happens behind the asks. -/
theorem Engine.Metes.calm (h : e.Metes before asks started s s') (hs : s'.Calm s'') :
    e.Metes before asks started s s'' := by
  have hall := h.trans (metes_of_calm h.tallies hs)
  rwa [List.append_nil, List.append_nil] at hall

/-- Nothing happens before the asks. -/
theorem Engine.Metes.after (h : e.Metes before asks started s' s'') (hs : s.Calm s') :
    e.Metes before asks started s s'' :=
  ⟨⟨h.tallies, h.starts, hs.origins ▸ h.origins⟩, hs.refusals ▸ h.refusals⟩

/-! ## One ask -/

theorem metes_refuse (h : e.Tallies before s) (hr : e.reserve? s a.key = none) :
    e.Metes before [a] [] s (e.refuse s a.flow a.key) := by
  have hle : e.config.maxInstancesPerPattern ≤ Ask.tally a.key before := by
    rw [reserve?, h] at hr
    split at hr
    · cases hr
    · omega
  refine ⟨⟨fun key => ?_, ?_, (List.append_nil _).symm⟩, ?_⟩
  · have hcount := Ask.tally_grants e.config.maxInstancesPerPattern key before [a]
    rw [Ask.grants_of_le hle] at hcount
    exact (h key).trans hcount
  · rw [Ask.grants_of_le hle]
    exact .nil
  · rw [Ask.refusals_of_le hle, Step.refusals, refuse, Step.observe, Step.emit,
      List.filterMap_append]
    rfl

/-- A new instance is listed after the others, with what it was given. -/
theorem origins_spawn (e : Engine) (s : Step) (flow : LoadedFlow) (id : InstanceId)
    (parent : Option InstanceId) (bindings : Bindings) (specificity : Nat) : ∃ o,
    (e.spawn s flow id parent bindings specificity).1.state.origins = s.state.origins ++ [o] ∧
      o.id = id ∧ o.flow = flow.id ∧ o.parent = parent := by
  rw [spawn]
  have horigin := origin_start flow.program ((Instance.spawn id flow.id
    (flow.flow.priority.getD e.config.defaultPriority) s.state.nextInstance parent bindings
      specificity).observe (.instanceSpawned id flow.id parent)) s.state.world
  exact ⟨_, List.map_append.trans (congrArg (s.state.origins ++ [·]) horigin), rfl, rfl, rfl⟩

theorem metes_spawn {s₁ s₂ : Step} (h : e.Tallies before s)
    (hr : e.reserve? s a.key = some s₁) (hs : s₁.Calm s₂) {flow : LoadedFlow}
    (hflow : flow.id = a.flow) (id : InstanceId) (hid : ∀ x ∈ a.reserved?, id = x)
    (bindings : Bindings) (specificity : Nat) :
    ∃ o, e.Metes before [a] [o] s (e.spawn s₂ flow id a.parent? bindings specificity).1 := by
  rw [reserve?, h] at hr
  split at hr
  · next hlt =>
    cases hr
    replace hlt : Ask.tally a.key before < e.config.maxInstancesPerPattern := by omega
    obtain ⟨o, horigins, hgiven⟩ :=
      origins_spawn e s₂ flow id a.parent? bindings specificity
    refine ⟨o, ⟨fun key => ?_, ?_, ?_⟩, ?_⟩
    · have hgranted : granted (e.spawn s₂ flow id a.parent? bindings specificity).1 key =
          if key = a.key then min e.config.maxInstancesPerPattern (Ask.tally a.key before) + 1
          else granted s key := by
        rw [granted, counts_spawn, hs.counts]
        exact granted_put ..
      have hone : Ask.tally key [a] = if key = a.key then 1 else 0 := by
        rw [Ask.tally, List.countP_singleton]
        simp [eq_comm]
      rw [hgranted, Ask.tally_append, hone, h key]
      split
      · next hkey =>
        rw [hkey]
        omega
      · rfl
    · rw [Ask.grants_of_lt hlt]
      refine .cons ⟨?_, ?_, ?_⟩ .nil
      · rw [hgiven.2.1, hflow]
      · exact hgiven.2.2
      · intro x hx
        rw [hgiven.1, hid x hx]
    · exact horigins.trans (congrArg (· ++ [o]) hs.origins)
    · rw [Ask.refusals_of_lt hlt]
      exact hs.refusals.trans (List.append_nil _).symm
  · cases hr

/-! ## Activation -/

theorem metes_activateFlow (event : Event) (requests : Requests) (flow : LoadedFlow)
    (h : e.Tallies before s) : ∃ started, e.Metes before (flow.ask? event).toList started s
      (e.activateFlow event (s, requests) flow).1 := by
  rw [activateFlow, LoadedFlow.ask?]
  cases flow.flow.activation with
  | none => exact ⟨_, metes_of_calm h (calm_refl s)⟩
  | some p =>
    rw [Option.bind_some, Option.filter_some]
    cases p.match? event [] with
    | none => exact ⟨_, metes_of_calm h (calm_refl s)⟩
    | some bindings =>
      simp only [Option.map_some, Option.isSome_some, if_true, Option.toList_some]
      cases hr : e.reserve? s p.key with
      | none => exact ⟨_, metes_refuse (a := .activation flow.id p) h hr⟩
      | some s₁ =>
        have hnamed : s₁.Calm (s₁.update fun t => { t with ids := t.ids.nextInstance.2 }) :=
          ⟨rfl, rfl, rfl⟩
        have hid : flow.id = (Ask.activation flow.id p).flow := rfl
        obtain ⟨o, ho⟩ := metes_spawn (a := .activation flow.id p) h hr hnamed hid
          s₁.state.ids.nextInstance.1 (fun x hx => (Option.not_mem_none x hx).elim) bindings
          p.specificity
        exact ⟨_, ho⟩

/-- **Every flow that an event activates is started or refused.** -/
theorem metes_activate (event : Event) (requests : Requests) (h : e.Tallies before s) :
    ∃ started, e.Metes before (e.activations event) started s
      (e.activate event s requests).1 := by
  rw [activate, activations]
  generalize e.catalog.flows = flows
  induction flows generalizing s requests before with
  | nil => exact ⟨_, metes_of_calm h (calm_refl s)⟩
  | cons flow flows ih =>
    obtain ⟨started, hfirst⟩ := metes_activateFlow event requests flow h
    obtain ⟨more, hrest⟩ := ih (e.activateFlow event (s, requests) flow).2 hfirst.tallies
    refine ⟨started ++ more, ?_⟩
    have hall := hfirst.trans hrest
    rw [List.filterMap_cons]
    cases hask : flow.ask? event with
    | none => rwa [hask] at hall
    | some a => rwa [hask] at hall

/-! ## Children -/

/-- The flow of a child is loaded. -/
def Engine.Loads (e : Engine) (c : Child) : Prop := (e.catalog.find? c.request.flow).isSome = true

/-- What may come of looking for a child that may be started: all are refused, or one is granted
when those before it have been refused. -/
inductive Engine.Looks (e : Engine) (before : List Ask) (children : List Child) (s s' : Step) :
    Option Grant → Prop
  | inVain (metes : e.Metes before (children.map .child) [] s s') :
      Looks e before children s s' none
  | found {g : Grant} (passed : List Child) (s₁ : Step)
      (children_eq : children = passed ++ g.child :: g.rest)
      (metes : e.Metes before (passed.map .child) [] s s₁)
      (reserve : e.reserve? s₁ (Ask.child g.child).key = some s')
      (flow : e.catalog.find? g.child.request.flow = some g.flow) :
      Looks e before children s s' (some g)

/-- A child was asked for by an instance of a loaded flow while its machine was running. -/
def Engine.Issued (e : Engine) (c : Child) : Prop :=
  ∃ l ∈ e.catalog.flows, ∃ m : Machine,
    m.inst.id = c.parent ∧ m.inst.flow = l.id ∧ m.Starts l.program c.request

theorem Engine.Complete.loads {c : Child} (hc : e.Complete) (h : e.Issued c) : e.Loads c := by
  obtain ⟨l, hl, m, -, -, before, after, position, child, x, hissues⟩ := h
  exact hc l hl position _ child hissues.instruction

theorem looks_nextGrant {children : List Child} {g : Option Grant}
    (hl : ∀ c ∈ children, e.Loads c) (hn : e.nextGrant s children = (s', g)) (before : List Ask)
    (h : e.Tallies before s) : e.Looks before children s s' g := by
  fun_induction nextGrant e s children generalizing before with
  | case1 s =>
    cases hn
    exact .inVain (metes_of_calm h (calm_refl _))
  | case2 s c rest hnone ih =>
    have hloads := hl c List.mem_cons_self
    rw [Loads, hnone] at hloads
    cases hloads
  | case3 s c rest flow hf hr ih =>
    have hid := id_of_find? hf
    have hfirst := metes_refuse (a := .child c) h hr
    rw [Ask.flow, ← hid] at hfirst
    cases ih (fun c hc => hl c (List.mem_cons_of_mem _ hc)) hn _ hfirst.tallies with
    | inVain hrest => exact .inVain (hfirst.trans hrest)
    | found passed s₁ hsplit hmetes hreserve hflow =>
      exact .found (c :: passed) s₁ (congrArg (c :: ·) hsplit) (hfirst.trans hmetes) hreserve hflow
  | case4 s c rest flow hf s₁ hr =>
    cases hn
    exact .found [] s rfl (metes_of_calm h (calm_refl s)) hr hf

/-- What a new instance asks for has been issued in its run. -/
theorem issued_spawn {flow : LoadedFlow} (hflow : flow ∈ e.catalog.flows) (s : Step)
    (id : InstanceId) (parent : Option InstanceId) (bindings : Bindings) (specificity : Nat) :
    ∀ c ∈ childrenOf [(id, (e.spawn s flow id parent bindings specificity).2)], e.Issued c := by
  intro c hc
  obtain ⟨r, hr, rfl⟩ := mem_childrenOf_singleton.1 hc
  exact ⟨flow, hflow, _, rfl, rfl, starts_start _ _ _ r hr⟩

theorem issued_advance? {i i' : Instance} {flow : LoadedFlow} {w w' : World} {id : HeadId}
    {f : Effects} (hflow : e.catalog.find? i.flow = some flow)
    (ha : i.advance? flow.program w id event = some (i', w', f)) :
    ∀ c ∈ childrenOf [(i.id, f)], e.Issued c := by
  intro c hc
  obtain ⟨r, hr, rfl⟩ := mem_childrenOf_singleton.1 hc
  obtain ⟨m, hm, hstarts⟩ := starts_advance? ha
  obtain ⟨-, h, k, x, -, -, rfl⟩ := advancing?_eq_some.1 hm
  have hid := id_of_find? hflow
  exact ⟨flow, List.mem_of_find?_eq_some hflow, _, rfl, hid.symm, hstarts r hr⟩

theorem issued_append {more : Requests} (h : ∀ c ∈ childrenOf requests, e.Issued c)
    (hmore : ∀ c ∈ childrenOf more, e.Issued c) :
    ∀ c ∈ childrenOf (requests ++ more), e.Issued c := by
  rw [childrenOf_append]
  exact List.forall_mem_append.2 ⟨h, hmore⟩

theorem issued_moves (e : Engine) (event : Event) :
    e.MovesKeep event fun _ requests => ∀ c ∈ childrenOf requests, e.Issued c where
  abort _ h := h
  advance _ hflow hadv h := issued_append h (issued_advance? hflow hadv)

theorem issued_moveHeads (e : Engine) (event : Event) (s : Step) :
    ∀ c ∈ childrenOf (e.moveHeads event s).2, e.Issued c :=
  (issued_moves e event).moveHeads (s := s) nofun

/-- What instances ask for that have moved, or were started, has been issued. -/
theorem issued_starts (e : Engine) :
    e.StartsKeep fun _ requests => ∀ c ∈ childrenOf requests, e.Issued c where
  refuse _ _ h := h
  count _ h := h
  identify h := h
  spawn hloaded _ _ _ h := issued_append h (issued_spawn hloaded _ _ _ _ _)

/-- **Every child that is asked for is started or refused**, and so are those that it asks for
itself. -/
theorem metes_startChildren (hc : e.Complete) (requests : Requests) {children : List Child}
    (hl : ∀ c ∈ children, e.Loads c) (before : List Ask) (h : e.Tallies before s) :
    ∃ more started, (e.startChildren s requests children).2 = requests ++ more ∧
      e.Metes before ((children ++ childrenOf more).map .child) started s
        (e.startChildren s requests children).1 := by
  fun_induction Engine.startChildren e s requests children generalizing before with
  | case1 s requests children s' hnone =>
    cases looks_nextGrant hl hnone before h with
    | inVain hmetes =>
      refine ⟨[], [], (List.append_nil _).symm, ?_⟩
      rwa [← List.append_nil children] at hmetes
  | case2 s requests children s' g hsome id started ih =>
    cases looks_nextGrant hl hsome before h with
    | found passed s₁ hsplit hmetes hreserve hflow =>
      have hmem := List.mem_of_find?_eq_some hflow
      have hid : g.flow.id = (Ask.child g.child).flow := id_of_find? hflow
      obtain ⟨o, ho⟩ := metes_spawn hmetes.tallies hreserve (calm_refl s') hid id
        (fun x hx => Option.some.inj hx) g.child.request.bindings 0
      have hrest : ∀ c ∈ g.rest ++ childrenOf [(id, started.2)], e.Loads c := by
        refine List.forall_mem_append.2 ⟨fun c hc => hl c ?_, fun c hc' => ?_⟩
        · rw [hsplit]
          exact List.mem_append_right _ (List.mem_cons_of_mem _ hc)
        · exact hc.loads (issued_spawn hmem _ _ _ _ _ c hc')
      obtain ⟨more, new, heq, hmore⟩ := ih hrest _ (hmetes.trans ho).tallies
      refine ⟨(id, started.2) :: more, o :: new, by rw [heq, List.append_assoc]; rfl, ?_⟩
      have hall := (hmetes.trans ho).trans hmore
      rw [hsplit, ← List.singleton_append (l := more), childrenOf_append]
      simpa using hall

end Metering

end EventFlow

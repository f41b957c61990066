import EventFlow.Proofs.Dict
import EventFlow.Proofs.Engine.Gather
import EventFlow.Proofs.Engine.Rounds

/-!
# What becomes of calls in a round

In the second half of a round emissions compete.  A call that wins goes into the table of pending
calls, one that loses is answered by an event that says so, and the calls of instances that were
aborted are given up.  No head moves any more.

## What is here

* `State.Holds` says that a call is pending, in flight and on behalf of a head.  `Event.Forgoes`
  says that an event is the answer to a call that lost.
* `Engine.Applied` is what the emissions do to a step: each kind of operation is an instance of it,
  and it composes.  **`applied_apply`** puts them together.
* `Step.Wound` is what winding up does to a step whose table of calls is in order (`State.Fit`).
-/

set_option autoImplicit false

namespace EventFlow

variable {Compiled Found : Type} [Query.Library Compiled Found]

/-- What of an instance decides who waits. -/
def Instance.core (i : Instance) : InstanceId × Status × List Head × Nat :=
  (i.id, i.status, i.heads, i.nextHead)

/-- What of a state decides who waits. -/
def State.cores (s : State) : List (InstanceId × Status × List Head × Nat) :=
  s.instances.map Instance.core

/-- The call a head has made is pending and in flight. -/
def State.Holds (s : State) (i : InstanceId) (h : HeadId) (n : InvocationId) : Prop :=
  ∃ c, Dict.get? s.calls n = some c ∧
    c.isInFlight = true ∧ c.invocation = n ∧ c.instanceId = i ∧ c.head = h

/-- The identity of the result of a call. -/
def InvocationId.resultId (n : InvocationId) : EventId := ⟨n.text ++ ":result"⟩

/-- An event is the answer to a call of a head that has lost. -/
def Event.Forgoes (ev : Event) (i : InstanceId) (h : HeadId) (n : InvocationId) : Prop :=
  ∃ lost r, lost.emission.Asks i h n ∧ lost.emission.intent = .call r ∧
    ev = Engine.lostResult lost r

theorem Event.Forgoes.id {ev : Event} {i : InstanceId} {h : HeadId} {n : InvocationId}
    (hf : ev.Forgoes i h n) : ev.id = n.resultId := by
  obtain ⟨lost, r, ⟨-, r', hr', rfl, -⟩, hr, rfl⟩ := hf
  rw [hr] at hr'
  cases hr'
  rfl

section Cores

variable {s s' : State} {i : InstanceId} {h : HeadId} {n : InvocationId}

theorem cores_of_instances (hi : s'.instances = s.instances) : s'.cores = s.cores :=
  congrArg (List.map Instance.core) hi

theorem exists_of_cores (hc : s'.cores = s.cores) {x : Instance} (hx : x ∈ s'.instances) :
    ∃ y ∈ s.instances,
      y.id = x.id ∧ y.status = x.status ∧ y.heads = x.heads ∧ y.nextHead = x.nextHead := by
  have hmem : x.core ∈ s.cores := by
    rw [← hc]
    exact List.mem_map_of_mem hx
  obtain ⟨y, hy, hcore⟩ := List.mem_map.1 hmem
  simp only [Instance.core, Prod.mk.injEq] at hcore
  exact ⟨y, hy, hcore.1, hcore.2.1, hcore.2.2.1, hcore.2.2.2⟩

theorem waits_of_cores (hc : s'.cores = s.cores) (hw : s'.Waits i h n) : s.Waits i h n := by
  obtain ⟨x, hx, rfl, hw⟩ := hw
  obtain ⟨y, hy, hid, -, hheads, -⟩ := exists_of_cores hc hx
  exact ⟨y, hy, hid, by rwa [Instance.WaitsOn, hheads]⟩

theorem instanceIds_of_cores (hc : s'.cores = s.cores) : s'.instanceIds = s.instanceIds := by
  have hmap := congrArg (List.map Prod.fst) hc
  rwa [State.cores, State.cores, List.map_map, List.map_map] at hmap

theorem regular_of_cores (hc : s'.cores = s.cores) (hreg : ∀ x ∈ s.instances, x.Regular)
    (x : Instance) (hx : x ∈ s'.instances) : x.Regular := by
  obtain ⟨y, hy, -, hstatus, hheads, hnext⟩ := exists_of_cores hc hx
  obtain ⟨hd, hf, he⟩ := hreg y hy
  rw [hheads] at hd hf he
  rw [hnext] at hf
  rw [hstatus] at he
  exact ⟨hd, hf, he⟩

end Cores

namespace Engine

section Applying

variable {e : Engine} {s s' s'' : Step} {won won' : List Emission} {lost lost' : List Overridden}

/-! ## Emissions taking effect -/

/-- What some emissions that won and some that lost do to a step. -/
structure Applied (won : List Emission) (lost : List Overridden) (s s' : Step) : Prop where
  cores : s'.state.cores = s.state.cores
  seen : s'.seen = s.seen
  queue : s.queue ⊆ s'.queue
  /-- What is new in the queue. -/
  queued : ∀ ev ∈ s'.queue, ev ∈ s.queue ∨ ev.id.text.length = idLength ∨
    (∃ m ∈ won, m.id = ev.id.text) ∨
    ∃ l ∈ lost, ∃ r, l.emission.intent = .call r ∧ ev = lostResult l r
  /-- Calls that lost are answered. -/
  told : ∀ l ∈ lost, ∀ r, l.emission.intent = .call r → lostResult l r ∈ s'.queue
  /-- What is new in the table of calls. -/
  entries : ∀ c ∈ s'.state.calls, c ∈ s.state.calls ∨
    c.2.invocation = c.1 ∧ ∃ m ∈ won, m.Asks c.2.instanceId c.2.head c.1
  /-- Calls that won are pending, and others stay, unless another head makes the same call. -/
  held : ∀ i h n, (∀ m ∈ won, ∀ i' h', m.Asks i' h' n → i' = i ∧ h' = h) →
    s.state.Holds i h n ∨ (∃ m ∈ won, m.Asks i h n) → s'.state.Holds i h n

/-- What leaves the table of calls alone, since none has won. -/
theorem applied_of_calls (hcalls : s'.state.calls = s.state.calls)
    (hcores : s'.state.cores = s.state.cores) (hseen : s'.seen = s.seen)
    (hnone : ∀ m ∈ won, ∀ i h n, ¬m.Asks i h n) (hsub : s.queue ⊆ s'.queue)
    (hqueued : ∀ ev ∈ s'.queue, ev ∈ s.queue ∨ ev.id.text.length = idLength ∨
      (∃ m ∈ won, m.id = ev.id.text) ∨
      ∃ l ∈ lost, ∃ r, l.emission.intent = .call r ∧ ev = lostResult l r)
    (htold : ∀ l ∈ lost, ∀ r, l.emission.intent = .call r → lostResult l r ∈ s'.queue) :
    Applied won lost s s' := by
  refine ⟨hcores, hseen, hsub, hqueued, htold, fun c hc => .inl (hcalls ▸ hc),
    fun i h n _ hold => ?_⟩
  rw [State.Holds, hcalls]
  exact hold.resolve_right fun ⟨m, hm, hasks⟩ => hnone m hm i h n hasks

/-- What touches neither heads nor calls nor events. -/
theorem applied_of_agrees (hagrees : s.Agrees s') (hcores : s'.state.cores = s.state.cores) :
    Applied [] [] s s' := by
  refine applied_of_calls hagrees.calls hcores hagrees.seen nofun ?_ ?_ nofun
  · rw [hagrees.queue]
    exact List.Subset.refl _
  · exact fun ev hev => .inl (hagrees.queue ▸ hev)

theorem Applied.trans (hs : Applied won lost s s') (hs' : Applied won' lost' s' s'') :
    Applied (won ++ won') (lost ++ lost') s s'' := by
  refine ⟨hs'.cores.trans hs.cores, hs'.seen.trans hs.seen, fun ev hev => hs'.queue (hs.queue hev),
    fun ev hev => ?_, fun l hl r hr => ?_, fun c hc => ?_, fun i h n honly hold => ?_⟩
  · rcases hs'.queued ev hev with hev | hev | ⟨m, hm, hev⟩ | ⟨l, hl, hev⟩
    · rcases hs.queued ev hev with hev | hev | ⟨m, hm, hev⟩ | ⟨l, hl, hev⟩
      · exact .inl hev
      · exact .inr (.inl hev)
      · exact .inr (.inr (.inl ⟨m, List.mem_append_left _ hm, hev⟩))
      · exact .inr (.inr (.inr ⟨l, List.mem_append_left _ hl, hev⟩))
    · exact .inr (.inl hev)
    · exact .inr (.inr (.inl ⟨m, List.mem_append_right _ hm, hev⟩))
    · exact .inr (.inr (.inr ⟨l, List.mem_append_right _ hl, hev⟩))
  · rcases List.mem_append.1 hl with hl | hl
    · exact hs'.queue (hs.told l hl r hr)
    · exact hs'.told l hl r hr
  · rcases hs'.entries c hc with hc | ⟨hinv, m, hm, hasks⟩
    · refine (hs.entries c hc).imp_right fun ⟨hinv, m, hm, hasks⟩ => ⟨hinv, m, ?_, hasks⟩
      exact List.mem_append_left _ hm
    · exact .inr ⟨hinv, m, List.mem_append_right _ hm, hasks⟩
  · have hfirst := hs.held i h n fun m hm => honly m (List.mem_append_left _ hm)
    have hsecond := hs'.held i h n fun m hm => honly m (List.mem_append_right _ hm)
    rcases hold with hold | ⟨m, hm, hasks⟩
    · exact hsecond (.inl (hfirst (.inl hold)))
    · rcases List.mem_append.1 hm with hm | hm
      · exact hsecond (.inl (hfirst (.inr ⟨m, hm, hasks⟩)))
      · exact hsecond (.inr ⟨m, hm, hasks⟩)

/-- One operation after another. -/
theorem applied_foldl {α : Type} {f : Step → α → Step} (won : α → List Emission)
    (lost : α → List Overridden) (hf : ∀ s a, Applied (won a) (lost a) s (f s a)) (as : List α)
    (s : Step) : Applied (as.flatMap won) (as.flatMap lost) s (as.foldl f s) := by
  induction as generalizing s with
  | nil => exact applied_of_agrees ⟨rfl, rfl, rfl⟩ rfl
  | cons a as ih => exact (hf s a).trans (ih (f s a))

theorem applied_deliver (s : Step) (m : Emission) : Applied [m] [] s (deliver s m) := by
  have hnone {ev : Event} {d : Delivery} (hm : m.intent = .send ev d) :
      ∀ m' ∈ [m], ∀ i h n, ¬m'.Asks i h n := by
    rintro m' hm' i h n ⟨-, r, hr, -⟩
    obtain rfl := List.mem_singleton.1 hm'
    rw [hm] at hr
    cases hr
  rw [deliver]
  split
  · next ev hm =>
    refine applied_of_calls rfl rfl rfl (hnone hm) (List.subset_append_left _ _) ?_ nofun
    intro x hx
    refine (List.mem_append.1 hx).imp_right fun hx => .inr (.inl ⟨m, .head _, ?_⟩)
    obtain rfl := List.mem_singleton.1 hx
    rw [Emission.id, hm]
  · next ev hm =>
    exact applied_of_calls rfl rfl rfl (hnone hm) (List.Subset.refl _) (fun x hx => .inl hx) nofun
  · next r hm =>
    have hasks : m.Asks m.instanceId r.head r.invocation := ⟨rfl, r, hm, rfl, rfl⟩
    refine ⟨rfl, rfl, List.Subset.refl _, fun ev hev => .inl hev, nofun, fun c hc => ?_,
      fun i h n honly hold => ?_⟩
    · rcases Dict.mem_put hc with rfl | hc
      · exact .inr ⟨rfl, m, List.mem_singleton_self m, hasks⟩
      · exact .inl hc
    · have hget : Dict.get? (s.dispatch m.instanceId r).state.calls n = if n = r.invocation then
          some ⟨r.invocation, r.action, r.arguments, m.instanceId, r.head, .inFlight, none⟩
          else Dict.get? s.state.calls n := Dict.get?_put ..
      by_cases hn : n = r.invocation
      · subst hn
        obtain ⟨rfl, rfl⟩ := honly m (List.mem_singleton_self m) _ _ hasks
        exact ⟨_, by rw [hget, if_pos rfl], rfl, rfl, rfl, rfl⟩
      · rw [State.Holds, hget, if_neg hn]
        refine hold.resolve_right ?_
        rintro ⟨m', hm', -, r', hr', rfl, -⟩
        obtain rfl := List.mem_singleton.1 hm'
        rw [hm] at hr'
        cases hr'
        exact hn rfl

/-- What changing an instance leaves alone is the same for all of them. -/
theorem map_updateInstance {α : Type} (g : Instance → α) (s : Step) (id : InstanceId)
    {f : Instance → Instance} (hf : ∀ i, g (f i) = g i) :
    (s.updateInstance id f).state.instances.map g = s.state.instances.map g := by
  rw [Step.updateInstance]
  split
  · rfl
  · refine List.ext_getElem? fun k => ?_
    simp only [Step.update, List.getElem?_map, List.getElem?_modify]
    cases s.state.instances[k]? with
    | none => rfl
    | some i => split <;> simp [hf]

theorem applied_announce (s : Step) (name : String) (payload : Dict String Json) :
    Applied [] [] s (s.announce name payload) := by
  refine applied_of_calls rfl rfl rfl nofun (List.subset_append_left _ _) (fun ev hev => ?_) nofun
  refine (List.mem_append.1 hev).imp_right fun hev => .inl ?_
  obtain rfl := List.mem_singleton.1 hev
  exact s.state.ids.length_next

theorem applied_suppress (s : Step) (l : Overridden) : Applied [] [l] s (suppress s l) := by
  generalize hs₁ : (s.updateInstance l.emission.instanceId
    (·.noteOverridden l.emission.id)).observe (.emissionOverridden l.emission.instanceId
      l.emission.name (l.emission.key.getD "") l.winner) = s₁
  have hnote : Applied [] [] s s₁ := by
    have hcores := map_updateInstance Instance.core s l.emission.instanceId
      (f := (·.noteOverridden l.emission.id)) fun _ => rfl
    rw [← hs₁]
    refine applied_of_agrees ?_ hcores
    rw [Step.updateInstance]
    split <;> exact ⟨rfl, rfl, rfl⟩
  unfold suppress
  simp only
  rw [hs₁]
  refine hnote.trans (@Applied.trans _ _ _ [] [] [l] [] ?_ (applied_announce _ _ _))
  split
  · next ev d hm =>
    refine applied_of_calls rfl rfl rfl nofun (List.Subset.refl _) (fun x hx => .inl hx) ?_
    intro l' hl' r hr
    obtain rfl := List.mem_singleton.1 hl'
    rw [hm] at hr
    cases hr
  · next r hm =>
    refine applied_of_calls rfl rfl rfl nofun (List.subset_append_left _ _) ?_ ?_
    · intro x hx
      refine (List.mem_append.1 hx).imp_right fun hx => .inr (.inr ⟨l, .head _, r, hm, ?_⟩)
      exact List.mem_singleton.1 hx
    · intro l' hl' r' hr'
      obtain rfl := List.mem_singleton.1 hl'
      rw [hm] at hr'
      cases hr'
      exact List.mem_append_right _ (List.mem_singleton_self _)

/-- **What the emissions of a round do.** -/
theorem applied_apply (e : Engine) (s : Step) (requests : Requests) :
    Applied (Conflict.resolve e.config.tieBreak (emissionsOf requests)).winners
      (Conflict.resolve e.config.tieBreak (emissionsOf requests)).overridden s
      (e.apply s requests) := by
  have hnil {α β : Type} (as : List α) : as.flatMap (fun _ => ([] : List β)) = [] := by simp
  have hties := @applied_foldl Tie (fun s t =>
    s.observe (.tieBroken t.key t.winner t.runnerUp t.unresolvable)) (fun _ => []) (fun _ => [])
    fun s t => applied_of_agrees ⟨rfl, rfl, rfl⟩ rfl
  have hwon := applied_foldl (fun m => [m]) (fun _ => []) applied_deliver
  have hlost := applied_foldl (fun _ => []) (fun l => [l]) applied_suppress
  have htimers := @applied_foldl (InstanceId × TimerRequest) (fun s t => s.schedule t.1 t.2)
    (fun _ => []) (fun _ => []) fun s t => applied_of_agrees ⟨rfl, rfl, rfl⟩ rfl
  simp only [List.flatMap_singleton', hnil] at hties hwon hlost htimers
  have hall (r : Resolution) (timers : List (InstanceId × TimerRequest)) :=
    (((hties r.ties s).trans (hwon r.winners _)).trans (hlost r.overridden _)).trans
      (htimers timers _)
  simp only [List.nil_append, List.append_nil] at hall
  exact hall (Conflict.resolve e.config.tieBreak (emissionsOf requests))
    (requests.flatMap fun r => r.2.timers.map (r.1, ·))

theorem applied_compete (e : Engine) (event : Event) (s : Step) :
    Applied (Conflict.resolve e.config.tieBreak (emissionsOf (e.gather event s).2)).winners
      (Conflict.resolve e.config.tieBreak (emissionsOf (e.gather event s).2)).overridden
      (e.gather event s).1 (e.compete event s) := applied_apply e _ _

end Applying

end Engine

/-! ## Tables in order -/

/-- The instances of a state are regular and distinct, what heads wait for was handed out, and every
call that is pending is on behalf of the instance that waits for it, if any does. -/
structure State.Fit (issued : List String) (s : State) : Prop where
  regular : ∀ x ∈ s.instances, x.Regular
  distinct : s.instanceIds.Nodup
  known : ∀ i ∈ s.instanceIds, i.text ∈ issued
  asked : ∀ i h n, s.Waits i h n → n.text ∈ issued ∧ n.text.length = idLength
  calls : ∀ c ∈ s.calls,
    c.1.text ∈ issued ∧ c.2.invocation = c.1 ∧ ∀ i h, s.Waits i h c.1 → c.2.instanceId = i

section Winding

variable {issued : List String} {s s' s'' : Step} {t t' : State} {i : InstanceId} {h : HeadId}
  {n : InvocationId}

theorem State.Fit.of_cores (hf : t.Fit issued) (hc : t'.cores = t.cores)
    (hcalls : t'.calls ⊆ t.calls) : t'.Fit issued := by
  have hids := instanceIds_of_cores hc
  refine ⟨regular_of_cores hc hf.regular, hids ▸ hf.distinct, hids ▸ hf.known,
    fun i h n hw => hf.asked i h n (waits_of_cores hc hw), fun c hmem => ?_⟩
  obtain ⟨hissued, hinv, hown⟩ := hf.calls c (hcalls hmem)
  exact ⟨hissued, hinv, fun i h hw => hown i h (waits_of_cores hc hw)⟩

/-- In an instance that has ended nobody waits. -/
theorem State.Fit.not_waits (hf : t.Fit issued) {x : Instance} (hx : x ∈ t.instances)
    (hend : x.status.isTerminal = true) : ¬t.Waits x.id h n := by
  rintro ⟨y, hy, hid, hw⟩
  obtain rfl := List.inj_on_of_nodup_map hf.distinct hy hx hid
  exact not_waitsOn ((hf.regular y hy).ended hend) h n hw

/-! ## Winding up -/

/-- What is left of a step when calls were given up for which nobody waits, and events of the
engine's own were queued. -/
structure Step.Wound (s s' : Step) : Prop where
  cores : s'.state.cores = s.state.cores
  seen : s'.seen = s.seen
  queue : s.queue ⊆ s'.queue
  queued : ∀ ev ∈ s'.queue, ev ∈ s.queue ∨ ev.id.text.length = idLength
  calls : s'.state.calls ⊆ s.state.calls
  held : ∀ i h n, s.state.Waits i h n → s.state.Holds i h n → s'.state.Holds i h n

namespace Step

theorem Wound.trans (hs : s.Wound s') (hs' : s'.Wound s'') : s.Wound s'' := by
  refine ⟨hs'.cores.trans hs.cores, hs'.seen.trans hs.seen, fun ev hev => hs'.queue (hs.queue hev),
    fun ev hev => ?_, fun c hc => hs.calls (hs'.calls hc), fun i h n hw hold => ?_⟩
  · rcases hs'.queued ev hev with hev | hev
    · exact hs.queued ev hev
    · exact .inr hev
  · exact hs'.held i h n (waits_of_cores hs.cores.symm hw) (hs.held i h n hw hold)

theorem wound_of_agrees (hagrees : s.Agrees s') (hcores : s'.state.cores = s.state.cores) :
    s.Wound s' := by
  refine ⟨hcores, hagrees.seen, ?_, fun ev hev => .inl (hagrees.queue ▸ hev), ?_,
    fun i h n _ hold => ?_⟩
  · rw [hagrees.queue]
    exact List.Subset.refl _
  · rw [hagrees.calls]
    exact List.Subset.refl _
  · rwa [State.Holds, hagrees.calls]

theorem wound_refl (s : Step) : s.Wound s := wound_of_agrees ⟨rfl, rfl, rfl⟩ rfl

theorem wound_foldl {α : Type} {f : Step → α → Step} {as : List α}
    (hf : ∀ a ∈ as, ∀ s', s.Wound s' → s'.Wound (f s' a)) : s.Wound (as.foldl f s) :=
  List.foldlRecOn as f (motive := s.Wound) s.wound_refl fun s' hs a ha => hs.trans (hf a ha s' hs)

theorem wound_announce (s : Step) (name : String) (payload : Dict String Json) :
    s.Wound (s.announce name payload) := by
  refine ⟨rfl, rfl, List.subset_append_left _ _, fun ev hev => ?_, List.Subset.refl _,
    fun i h n _ hold => hold⟩
  refine (List.mem_append.1 hev).imp_right fun hev => ?_
  obtain rfl := List.mem_singleton.1 hev
  exact s.state.ids.length_next

/-- A call may be forgotten if nobody waits for it. -/
theorem wound_remove (hnone : ∀ i h, ¬s.state.Waits i h n) :
    s.Wound (s.update fun t => { t with calls := Dict.remove t.calls n }) := by
  refine ⟨rfl, rfl, List.Subset.refl _, fun ev hev => .inl hev,
    fun c hc => (List.mem_filter.1 hc).1, ?_⟩
  rintro i h m hw ⟨c, hc, hrest⟩
  refine ⟨c, ?_, hrest⟩
  rwa [show (s.update fun t => { t with calls := Dict.remove t.calls n }).state.calls =
    Dict.remove s.state.calls n from rfl, Dict.get?_remove_of_ne]
  rintro rfl
  exact hnone i h hw

theorem wound_cancelCall (hnone : ∀ i h, ¬s.state.Waits i h n) : s.Wound (s.cancelCall n) := by
  rw [cancelCall]
  split
  · exact wound_refl s
  · simp only
    refine (wound_remove hnone).trans (wound_of_agrees ?_ ?_) <;> split
    · exact ⟨rfl, rfl, rfl⟩
    · exact ⟨rfl, rfl, rfl⟩
    · rfl
    · rfl

/-- The calls of an instance may be given up if it does not wait. -/
theorem wound_cancelCallsOf (hf : s.state.Fit issued) {id : InstanceId}
    (hid : ∀ h n, ¬s.state.Waits id h n) : s.Wound (s.cancelCallsOf id) := by
  refine wound_foldl fun n hn s' hs => wound_cancelCall fun i h hw => ?_
  have hw := waits_of_cores hs.cores hw
  obtain ⟨c, hc, rfl⟩ := List.mem_map.1 hn
  obtain ⟨hc, hown⟩ := List.mem_filter.1 hc
  obtain ⟨c', hc', rfl⟩ := List.mem_map.1 hc
  obtain ⟨-, hinv, howner⟩ := hf.calls c' hc'
  simp only [Bool.and_eq_true, decide_eq_true_eq] at hown
  rw [hinv] at hw
  obtain rfl : id = i := hown.1.symm.trans (howner i h hw)
  exact hid h c'.1 hw

theorem wound_stopTimersOf (s : Step) (id : InstanceId) : s.Wound (s.stopTimersOf id) := by
  exact wound_foldl fun t _ s' _ => wound_of_agrees ⟨rfl, rfl, rfl⟩ rfl

end Step

namespace Engine

theorem wound_windUp (hf : s.state.Fit issued) (k : Nat) : s.Wound (windUp s k) := by
  have hnote (i : Instance) (hi : s.state.instances[k]? = some i) : s.Wound (noteEndOf s k i) :=
    Step.wound_of_agrees ⟨rfl, rfl, rfl⟩ (map_set_of_eq hi rfl)
  refine windUp_preserves s.wound_refl hnote (fun i hi hab hwound => ?_)
    (fun s' id hs => hs.trans (Step.wound_stopTimersOf s' id))
    fun s' name payload hs => hs.trans (Step.wound_announce s' name payload)
  refine hwound.trans (Step.wound_cancelCallsOf (hf.of_cores hwound.cores hwound.calls)
    fun h n hw => ?_)
  refine hf.not_waits (List.mem_of_getElem? hi) ?_ (waits_of_cores hwound.cores hw)
  rw [hab]
  rfl

theorem wound_windUpEnded (hf : s.state.Fit issued) : s.Wound (windUpEnded s) := by
  exact Step.wound_foldl fun k _ s' hs => wound_windUp (hf.of_cores hs.cores hs.calls) k

end Engine

end Winding

end EventFlow

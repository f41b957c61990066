import EventFlow.Monitoring
import EventFlow.Proofs.Engine.Narrated
import EventFlow.Query.Eval

/-!
# Totals

A tally that is kept of all observations since an engine was fresh says how many instances are at
work and how many calls are in flight: what has begun and not yet ended is there.

## What is here

* `Tally.ofObservations_count`: what a tally holds are numbers of observations of a kind.
* `Narrates.countP` counts observations of a kind life by life, so that `Life.counts` says how many
  instances were started and how many have ended.
* `Engine.wonOver`, `acceptedOver`, `cancelledOver` and `lateOver` are the calls of a run that were
  handed to whoever runs actions, those whose results were accepted, those that were cancelled, and
  those whose results came too late.  `History.booked` says that the books balance.

**`totals_reconcile`** is the result.
-/

set_option autoImplicit false

namespace EventFlow

section

variable {Compiled Found : Type} [Query.Library Compiled Found]

/-! ## Tallies -/

/-- What is one greater after each observation of a kind, and the same after all others, is the
number of observations of the kind. -/
theorem Tally.ofObservations_count {f : Tally → Nat} {p : Observation → Bool}
    (hzero : f .zero = 0) (hf : ∀ t o, f (t.record o) = f t + (p o).toNat)
    (os : List Observation) : f (.ofObservations os) = os.countP p := by
  have hfold (t : Tally) : f (os.foldl record t) = f t + os.countP p := by
    induction os generalizing t with
    | nil => rfl
    | cons o os ih =>
      rw [List.foldl_cons, ih, hf, List.countP_cons, Nat.add_assoc, Nat.add_comm (p o).toNat]
      cases p o <;> rfl
  rw [ofObservations, hfold, hzero, Nat.zero_add]

section Tallies

variable {os : List Observation} {p : Observation → Bool}

/-- What is observed of lives may be counted life by life. -/
theorem countP_eq_total {ids : List InstanceId} (hd : ids.Nodup)
    (hp : ∀ x ∈ os, p x = true → ∃ c ∈ ids, x.subject? = some c) :
    os.countP p = total (fun c => (lifeIn c os).countP p) ids := by
  induction ids generalizing os with
  | nil =>
    refine List.countP_eq_zero.2 fun x hx hpx => ?_
    obtain ⟨c, hc, -⟩ := hp x hx hpx
    cases hc
  | cons c ids ih =>
    obtain ⟨hc, hd⟩ := List.nodup_cons.1 hd
    have hrest := @ih (os.filter fun x => !(x.subject? = some c)) hd fun x hx hpx => by
      obtain ⟨hx, hother⟩ := List.mem_filter.1 hx
      obtain ⟨c', hc', hsubject⟩ := hp x hx hpx
      rcases List.mem_cons.1 hc' with rfl | hc'
      · simp [hsubject] at hother
      · exact ⟨c', hc', hsubject⟩
    have hsame : ∀ c' ∈ ids,
        lifeIn c' (os.filter fun x => !(x.subject? = some c)) = lifeIn c' os := fun c' hc' => by
      rw [lifeIn, List.filter_filter]
      refine List.filter_congr fun x _ => ?_
      by_cases hx : x.subject? = some c'
      · have hne : c' ≠ c := fun heq => hc (heq ▸ hc')
        simp [hx, hne]
      · simp [hx]
    rw [total_cons, List.countP_eq_countP_filter_add os p fun x => x.subject? = some c, lifeIn,
      hrest, total_congr _ fun c' hc' => congrArg (List.countP p) (hsame c' hc')]

/-- **What is observed of lives, counted life by life**: those that are over, and those that are
not. -/
theorem Narrates.countP {told : List Observation} {gone : List Instance.Origin}
    {present : List Instance} (h : Narrates told gone present)
    (hp : ∀ x, p x = true → ∃ c, x.subject? = some c) :
    told.countP p = total (fun o => (lifeIn o.id told).countP p) gone +
      total (fun i => (lifeIn i.id told).countP p) present := by
  rw [countP_eq_total h.distinct fun x hx hpx => ?_, identities, total_append, total_map,
    total_map]
  · rfl
  · obtain ⟨c, hc⟩ := hp x hpx
    exact ⟨c, h.known x hx c hc, hc⟩

theorem total_eq_countP {α : Type} {f : α → Nat} {q : α → Bool} {as : List α}
    (h : ∀ a ∈ as, f a = (q a).toNat) : total f as = as.countP q := by
  induction as with
  | nil => rfl
  | cons a as ih =>
    obtain ⟨ha, has⟩ := List.forall_mem_cons.1 h
    rw [total_cons, ha, ih has, List.countP_cons]
    cases q a <;> simp [Nat.add_comm]

/-- Who was started has come to its end, or is at work. -/
theorem Narrates.spawns {told : List Observation} {gone : List Instance.Origin}
    {present : List Instance} (h : Narrates told gone present)
    (hd : ∀ i ∈ present, i.observations = []) : told.countP Observation.isSpawn =
      told.countP Observation.isClosing + present.countP fun i => !i.status.isTerminal := by
  have hlife : ∀ i ∈ present, Life i.origin i.stage (lifeIn i.id told) := fun i hi =>
    h.life hi (hd i hi)
  have hspawn : told.countP Observation.isSpawn = gone.length + present.length := by
    rw [h.countP fun x hx => Observation.exists_subject (.inl hx)]
    rw [total_eq_countP (q := fun _ => true) fun o ho => (h.gone o ho).counts.1,
      total_eq_countP (q := fun _ => true) fun i hi => (hlife i hi).counts.1,
      List.countP_true, List.countP_true]
  have hclosing : told.countP Observation.isClosing =
      gone.length + present.countP fun i => i.status.isTerminal := by
    rw [h.countP fun x hx => Observation.exists_subject (.inr (.inl hx))]
    rw [total_eq_countP (q := fun _ => true) fun o ho => (h.gone o ho).counts.2.1,
      total_eq_countP (q := fun i => i.status.isTerminal) fun i hi => ?_, List.countP_true]
    rw [(hlife i hi).counts.2.1, Instance.stage]
    cases i.status.isTerminal <;> rfl
  have hall := List.length_eq_countP_add_countP (fun i : Instance => i.status.isTerminal)
    (l := present)
  simp only [Bool.not_eq_true, Bool.decide_eq_false] at hall
  omega

end Tallies

/-! ## Calls -/

namespace Engine

variable (e : Engine)

/-- The calls that have won over a run, and so were handed to whoever runs actions. -/
def wonOver (past : List (State × Request)) : List InvocationId :=
  past.flatMap fun p => (e.roundsBy p.1 p.2).flatMap e.wonIn

/-- The calls whose results were accepted over a run. -/
def acceptedOver (past : List (State × Request)) : List InvocationId :=
  past.flatMap fun p => e.acceptedBy p.1 p.2

/-- The calls that were cancelled over a run where actions are run. -/
def cancelledOver (past : List (State × Request)) : List InvocationId :=
  past.flatMap fun p => Signal.cancellationsIn (e.respond p.1 p.2).signals

/-- The calls whose results came too late over a run. -/
def lateOver (past : List (State × Request)) : List InvocationId :=
  past.flatMap fun p => e.lateBy p.1 p.2

/-- The call whose result an event is, if the event is valid. -/
def resultOf (event : Event) : List InvocationId :=
  match event.check with
  | .error _ => []
  | .ok () => event.invocation?.toList

/-- The call whose result a request is. -/
def resultBy (s : State) : Request → List InvocationId
  | .named name payload => resultOf ⟨s.ids.nextEvent.1, name, payload, .external⟩
  | .event event => resultOf event
  | .abort _ _ => []

/-- What is counted of a run. -/
def totals (past : List (State × Request)) : Tally := .ofObservations (e.observedOver past)

/-- What is counted of a run agrees with the state it has led to. -/
structure Reconciled (past : List (State × Request)) (s : State) : Prop where
  /-- Every instance that was started has finished, or was aborted, or is at work. -/
  instances : (e.totals past).instancesSpawned = (e.totals past).instancesFinished +
    (e.totals past).instancesAborted + s.instances.countP fun i => !i.status.isTerminal
  /-- Every call that was dispatched was cancelled, or its result was accepted, or it is in
  flight. -/
  calls : (e.totals past).actionsDispatched = (e.totals past).actionsCancelled +
    (e.acceptedOver past).length + s.calls.inFlight
  late : (e.totals past).lateResults = (e.lateOver past).length
  /-- Every result that is handed in is accepted, or it is late. -/
  results : ∀ p ∈ past, e.acceptedBy p.1 p.2 ++ e.lateBy p.1 p.2 = resultBy p.1 p.2

end Engine

section Totals

open Engine

variable {e : Engine} {ids : IdSource} {past : List (State × Request)} {s : State}

/-- The identity of what is asked for is that of the call, if it is one. -/
theorem sublist_calls (es : List Emission) :
    ((es.filterMap Emission.call?).map InvocationId.text).Sublist (es.map Emission.id) := by
  rw [List.map_filterMap]
  induction es with
  | nil => exact List.Sublist.refl _
  | cons m es ih =>
    rw [List.map_cons, List.filterMap_cons, Emission.call?, Emission.id]
    cases m.intent with
    | send event target => exact ih.cons _
    | call r => exact ih.cons_cons _

/-- Calls are handed out once if identities are. -/
theorem nodup_wonOver (hd : (e.issuedOver past).Nodup) : (e.wonOver past).Nodup := by
  have hwon (round : Step × Event) : ((e.wonIn round).map InvocationId.text).Sublist
      (e.issuedInRound round.2 round.1) := by
    have hwinners := (Conflict.settles_resolve e.config.tieBreak
      (emissionsOf (e.gather round.2 round.1).2)).winners_sublist
    exact (sublist_calls _).trans ((hwinners.map Emission.id).trans (List.sublist_append_right _ _))
  have htexts : (e.wonOver past).map InvocationId.text =
      past.flatMap fun p => (e.roundsBy p.1 p.2).flatMap fun round =>
        (e.wonIn round).map InvocationId.text := by
    simp only [wonOver, List.map_flatMap]
  refine List.Nodup.of_map InvocationId.text ?_
  rw [htexts]
  exact hd.sublist (sublist_issuedOver hwon past)

/-- **The books of a run balance.** -/
theorem Engine.History.booked (h : e.History ids past s) (hd : (e.wonOver past).Nodup) :
    (∀ n, (e.wonOver past).count n = (s.calls.carries n).toNat + (e.acceptedOver past).count n +
      (e.cancelledOver past).count n) ∧
    ∀ n, Dict.has s.calls n = true → n ∈ e.wonOver past := by
  induction h with
  | initial => exact ⟨fun _ => rfl, nofun⟩
  | @respond past s before r ih =>
    have hwon : e.wonOver (past ++ [(s, r)]) =
        e.wonOver past ++ (e.roundsBy s r).flatMap e.wonIn := by
      rw [wonOver, List.flatMap_append, List.flatMap_singleton, ← wonOver]
    have haccepted : e.acceptedOver (past ++ [(s, r)]) =
        e.acceptedOver past ++ e.acceptedBy s r := by
      rw [acceptedOver, List.flatMap_append, List.flatMap_singleton, ← acceptedOver]
    have hcancelled : e.cancelledOver (past ++ [(s, r)]) =
        e.cancelledOver past ++ Signal.cancellationsIn (e.respond s r).signals := by
      rw [cancelledOver, List.flatMap_append, List.flatMap_singleton, ← cancelledOver]
    rw [hwon] at hd ⊢
    rw [haccepted, hcancelled]
    obtain ⟨hbalance, hknown⟩ := ih hd.of_append_left
    have hbooked := booked_respond e s r
    refine ⟨fun n => ?_, fun n hn => List.mem_append.2 ((hbooked.known n hn).imp_left (hknown n))⟩
    have honce := List.nodup_iff_count_le_one.1 hd n
    have hbefore := hbalance n
    rw [List.count_append] at honce
    -- what is in the table was handed out before, so it is not handed out again
    have hnow := hbooked.balance n (by
      cases hn : Dict.has s.calls n with
      | false => exact Nat.le_trans (Nat.le_add_left _ _) honce
      | true =>
        have := List.count_pos_iff.2 (hknown n hn)
        rw [Bool.toNat_true]
        omega)
    simp only [List.count_append]
    omega
  | setGlobal before path value ih => exact ih hd

/-- A result is accepted or late. -/
theorem acceptedOf_append_lateOf (e : Engine) (s : State) (event : Event) :
    e.acceptedOf s event ++ e.lateOf s event = resultOf event := by
  have hnot : ¬(event.name = Event.actionResultName ∧ (none : Option Step).isSome = true) :=
    fun h => Bool.false_ne_true h.2
  cases hcheck : event.check with
  | error err =>
    have hclosed : e.openingOf? s event = none := by rw [openingOf?, hcheck]
    rw [acceptedOf, hclosed, if_neg hnot, lateOf, resultOf, hcheck]
    rfl
  | ok _ =>
    by_cases hresult : event.name = Event.actionResultName
    · have hopens : e.openingOf? s event =
          (event.invocation?.bind fun _ => (e.beginStep s).state.calls.accept? event).map
            fun calls => e.opened s event fun t => { t with calls } := by
        rw [openingOf?, hcheck]
        exact if_pos hresult
      rw [acceptedOf, hopens]
      cases hnames : event.invocation? with
      | none =>
        rw [Option.bind_none, Option.map_none, if_neg hnot, lateOf_nameless hnames, resultOf,
          hcheck, hnames]
        rfl
      | some n =>
        rw [Option.bind_some]
        cases haccept : (e.beginStep s).state.calls.accept? event with
        | none =>
          rw [Option.map_none, if_neg hnot, lateOf_late hcheck hnames haccept, resultOf, hcheck,
            hnames]
          rfl
        | some calls =>
          rw [Option.map_some, if_pos ⟨hresult, rfl⟩, lateOf_accepted hnames haccept, resultOf,
            hcheck, List.append_nil, hnames]
    · have hnameless : event.invocation? = none := if_neg hresult
      rw [acceptedOf, if_neg (fun h => hresult h.1), lateOf_nameless hnameless, resultOf, hcheck,
        hnameless]
      rfl

theorem acceptedBy_append_lateBy (e : Engine) (s : State) (r : Request) :
    e.acceptedBy s r ++ e.lateBy s r = resultBy s r := by
  cases r with
  | named name payload =>
    exact acceptedOf_append_lateOf e { s with ids := s.ids.nextEvent.2 }
      ⟨s.ids.nextEvent.1, name, payload, .external⟩
  | event event => exact acceptedOf_append_lateOf e s event
  | abort id reason => rfl

/-- Between requests all calls in the table are in flight. -/
theorem count_keys_calls (h : s.Tidy none) (n : InvocationId) :
    (Dict.keys s.calls).count n = (s.calls.carries n).toNat := by
  rw [Calls.carries]
  cases hn : Dict.get? s.calls n with
  | none => exact List.count_eq_zero.2 (Dict.get?_eq_none_iff.1 hn)
  | some c =>
    have hmem := Dict.mem_of_get? hn
    have hflight : c.isInFlight = true := decide_eq_true (h.calls _ hmem (Option.some_ne_none _)).1
    rw [Option.any_some, hflight]
    exact List.count_eq_one_of_mem h.filed.sorted.nodup_keys
      (List.mem_map_of_mem (f := Prod.fst) hmem)

theorem inFlight_eq (h : s.Tidy none) : s.calls.inFlight = (Dict.keys s.calls).length := by
  rw [Calls.inFlight, List.countP_eq_length.2 fun c hc => ?_]
  · exact (List.length_map ..).trans (List.length_map ..).symm
  · obtain ⟨x, hx, rfl⟩ := List.mem_map.1 hc
    exact decide_eq_true (h.calls x hx (Option.some_ne_none _)).1

/-- What a run has to say about calls is said of every request. -/
theorem filterMap_observedOver {β : Type} (f : Observation → Option β)
    {g : State × Request → List β} (h : ∀ p ∈ past,
      (Signal.observationsIn (e.respond p.1 p.2).signals).filterMap f = g p) :
    (e.observedOver past).filterMap f = past.flatMap g := by
  rw [observedOver, List.filterMap_flatMap]
  exact List.flatMap_congr h

/-- Every call that was handed out was cancelled, or its result was accepted, or it is in
flight. -/
theorem length_wonOver (h : e.History ids past s) (hissued : (e.issuedOver past).Nodup) :
    (e.wonOver past).length =
      (e.cancelledOver past).length + (e.acceptedOver past).length + s.calls.inFlight := by
  have hperm : (e.wonOver past).Perm
      (e.cancelledOver past ++ e.acceptedOver past ++ Dict.keys s.calls) := by
    refine List.perm_iff_count.2 fun n => ?_
    rw [List.count_append, List.count_append, count_keys_calls h.tidy,
      (h.booked (nodup_wonOver hissued)).1 n]
    omega
  rw [hperm.length_eq, List.length_append, List.length_append, inFlight_eq h.tidy]

namespace Engine

/-- **The totals agree with the state**, after every request of a run, if the identities that are
handed out are distinct. -/
theorem totals_reconcile (h : e.History ids past s) (hissued : (e.issuedOver past).Nodup) :
    e.Reconciled past s := by
  obtain ⟨gone, hannals⟩ := h.annals hissued
  have hcalls {f : Tally → Nat} {g : Observation → Option InvocationId}
      {k : State × Request → List InvocationId} (hzero : f .zero = 0)
      (hf : ∀ t o, f (t.record o) = f t + ((g o).isSome).toNat)
      (hk : ∀ p ∈ past,
        (Signal.observationsIn (e.respond p.1 p.2).signals).filterMap g = k p) :
      f (e.totals past) = (past.flatMap k).length := by
    rw [totals, Tally.ofObservations_count hzero hf, ← List.length_filterMap_eq_countP,
      filterMap_observedOver g hk]
  have hdispatched : (e.totals past).actionsDispatched = (e.wonOver past).length :=
    hcalls (g := Observation.dispatched?) rfl (fun t o => by cases o <;> rfl) fun p hp =>
      (hannals.echoes p hp).dispatched.trans (booked_respond e p.1 p.2).dispatched
  have hcancelled : (e.totals past).actionsCancelled = (e.cancelledOver past).length :=
    hcalls (g := Observation.cancelled?) rfl (fun t o => by cases o <;> rfl) fun p hp =>
      (hannals.echoes p hp).cancelled
  have hspawned : (e.totals past).instancesSpawned =
      (e.observedOver past).countP Observation.isSpawn :=
    Tally.ofObservations_count rfl (fun t o => by cases o <;> rfl) _
  have hclosed : (e.totals past).instancesFinished + (e.totals past).instancesAborted =
      (e.observedOver past).countP Observation.isClosing :=
    Tally.ofObservations_count (f := fun t => t.instancesFinished + t.instancesAborted) rfl
      (fun t o => by cases o <;> simp [Tally.record, Observation.isClosing] <;> omega) _
  refine ⟨?_, ?_, ?_, fun p _ => acceptedBy_append_lateBy e p.1 p.2⟩
  · rw [hspawned, hclosed]
    exact hannals.narrates.spawns (drained_reachable h.reachable)
  · rw [hdispatched, hcancelled]
    exact length_wonOver h hissued
  · exact hcalls (g := Observation.late?) rfl (fun t o => by cases o <;> rfl) fun p hp =>
      (hannals.echoes p hp).late

end Engine

end Totals

end

namespace Engine

/-! ## A busy engine -/

/-- The event both flows start on, with another identity. -/
def askAs (id : String) : Event := { ask with id := ⟨id⟩ }

/-- A call is answered, twice; the next one is cancelled because its instance is aborted, and the
last one is in flight. -/
def inquiries : List Request :=
  [.event ask, .event answer, .event answer, .event (askAs "again"),
    .abort ⟨"c584133a-c916-4b3c-961e-bc4b0828448a"⟩ "enough", .event (askAs "once more")]

/-- Those requests, each with the state in which it is made. -/
def inquired : List (State × Request) :=
  askers.along (fun s r => [(s, r)]) (.initial (.seeded 0)) inquiries

/-- What is counted of them. -/
def inquiryTally : Tally where
  instancesSpawned := 6
  instancesFinished := 4
  instancesAborted := 1
  emissionsOverridden := 3
  ties := 3
  actionsDispatched := 3
  actionsCancelled := 1
  lateResults := 1
  activationLimits := 0
  budgetsExhausted := 0

/-- Of six instances one is at work, and of three calls one is in flight. -/
theorem totals_reconcile_askers : askers.totals inquired = inquiryTally ∧
    askers.acceptedOver inquired = [asked] ∧
    askers.Reconciled inquired (askers.after (.initial (.seeded 0)) inquiries) ∧
    ((askers.after (.initial (.seeded 0)) inquiries).instances.countP
      fun i => !i.status.isTerminal) = 1 ∧
    (askers.after (.initial (.seeded 0)) inquiries).calls.inFlight = 1 := by
  have hpast := (@History.initial _ _ _ askers (.seeded 0)).along inquiries
  rw [List.nil_append] at hpast
  obtain ⟨hissued, htotals, haccepted⟩ : (askers.issuedOver inquired).Nodup ∧
      askers.totals inquired = inquiryTally ∧ askers.acceptedOver inquired = [asked] := by
    decide +kernel
  have hall : askers.Reconciled inquired (askers.after (.initial (.seeded 0)) inquiries) :=
    totals_reconcile hpast hissued
  have hinstances := hall.instances
  have hcalls := hall.calls
  rw [htotals] at hinstances hcalls
  rw [haccepted] at hcalls
  have hatWork := Nat.add_left_cancel (n := 5) (m := 1) hinstances
  have hinFlight := Nat.add_left_cancel (n := 2) (m := 1) hcalls
  exact ⟨htotals, haccepted, hall, hatWork.symm, hinFlight.symm⟩

end Engine

end EventFlow

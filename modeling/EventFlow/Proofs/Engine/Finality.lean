import EventFlow.Proofs.Engine.Lifetime
import EventFlow.Query.Eval

/-!
# Ends are final

Over a whole run, an instance that has ended is frozen in the round of its end, its end is announced
once, in that round, and it can be seen for just as many steps as the configuration says.  One that
has not ended never leaves.

## What is here

* `Engine.momentsOver` and `Engine.endingsOver` are the moments and the announcements of a run.
* `State.Follows` relates two moments that follow each other, and `State.Retains` any two.
* `Engine.Conclusive` puts together what holds of the ends in a run.

**`ends_are_final`** is the result, and `ends_are_final_naps` a run in which an instance is let go.
-/

set_option autoImplicit false

namespace EventFlow

section

variable {Compiled Found : Type} [Query.Library Compiled Found]

/-- What happens to instances from one moment to the next: whoever has not ended stays, and whoever
has got a date has ended in the step under way. -/
structure State.Follows (s s' : State) : Prop where
  stays : ∀ i ∈ s.instances, i.status.isTerminal = false →
    ∃ i' ∈ s'.instances, i'.origin = i.origin
  dates : ∀ i' ∈ s'.instances, ∀ t, i'.terminatedAt = some t →
    t = s'.step ∨ ∃ i ∈ s.instances, i.origin = i'.origin ∧ i.terminatedAt = some t

/-- What becomes of instances that have ended, from a moment to a later one: nothing of them
changes, and they are there just as long as they are to be kept. -/
structure State.Retains (g : Nat) (s s' : State) : Prop where
  frozen : ∀ i ∈ s.instances, i.status.isTerminal = true →
    ∀ i' ∈ s'.instances, i'.createdAt = i.createdAt →
      i'.origin = i.origin ∧ i'.status = i.status ∧ i'.heads = i.heads ∧
        i'.abortReason = i.abortReason ∧ i'.terminatedAt = i.terminatedAt
  kept : ∀ i ∈ s.instances, ∀ t, i.terminatedAt = some t →
    ((∃ i' ∈ s'.instances, i'.createdAt = i.createdAt) ↔ s'.step ≤ t + g)

namespace Engine

variable (e : Engine)

/-- The moments of a run. -/
def momentsOver (past : List (State × Request)) : List State :=
  past.flatMap fun p => p.1 :: e.momentsBy p.1 p.2

/-- The ends that are announced in a run. -/
def endingsOver (past : List (State × Request)) : List Ending :=
  past.flatMap fun p => (e.closingsBy p.1 p.2).flatMap Step.endings

/-- What holds of the ends of instances in a run that has led to a state. -/
structure Conclusive (past : List (State × Request)) (s : State) : Prop where
  /-- At every moment an instance has a date if and only if it has ended, and the date is neither
  ahead nor longer ago than instances are kept. -/
  dated : ∀ m ∈ e.momentsOver past ++ [s], m.Dated e.config.graceSteps
  /-- Whoever has not ended stays, and is dated in the step in which it ends. -/
  follows : (e.momentsOver past ++ [s]).IsChain State.Follows
  /-- Whoever has ended is frozen, and kept as long as the configuration says. -/
  retains : (e.momentsOver past ++ [s]).Pairwise (State.Retains e.config.graceSteps)
  /-- The end of an instance was announced once, in its step, and not before it has ended. -/
  announced : ∀ i ∈ s.instances,
    match i.terminatedAt with
    | some t => ∃ id, (e.endingsOver past).filter (·.number = i.createdAt) =
        [⟨i.createdAt, t, i.ending id⟩]
    | none => (e.endingsOver past).filter (·.number = i.createdAt) = []
  /-- No end is ever announced twice. -/
  once : ((e.endingsOver past).map Ending.number).Nodup
  /-- Announcements are queued in the step whose end they tell of, and nothing else is queued when
  instances are wound up. -/
  queued : ∀ p ∈ past, ∀ c ∈ e.closingsBy p.1 p.2, c.state.step = p.1.step + 1 ∧
    (windUpEnded c).queue = c.queue ++ c.endings.map Ending.event

/-- A moment comes before another one. -/
structure Precedes (g : Nat) (m m' : State) : Prop where
  before : m.Dated g
  after : m'.Dated g
  step : m.step ≤ m'.step
  fresh : m.nextInstance ≤ m'.nextInstance
  known : ∀ i' ∈ m'.instances, i'.createdAt < m.nextInstance → ∃ i ∈ m.instances, i.Lasts i'
  kept : ∀ i ∈ m.instances, ∀ t, i.terminatedAt = some t → m'.step ≤ t + g →
    ∃ i' ∈ m'.instances, i.Lasts i'

end Engine

section Finality

open Engine

variable {e : Engine} {m m' m'' s : State} {g : Nat} {i i' : Instance} {ids : IdSource}
  {past : List (State × Request)}

/-! ## Between two moments -/

theorem Engine.Precedes.trans (h : Precedes g m m') (h' : Precedes g m' m'') :
    Precedes g m m'' where
  before := h.before
  after := h'.after
  step := Nat.le_trans h.step h'.step
  fresh := Nat.le_trans h.fresh h'.fresh
  known y hy hold := by
    obtain ⟨x, hx, hlasts'⟩ := h'.known y hy (Nat.lt_of_lt_of_le hold h.fresh)
    obtain ⟨i, hi, hlasts⟩ := h.known x hx (hlasts'.createdAt ▸ hold)
    exact ⟨i, hi, hlasts.trans hlasts'⟩
  kept i hi t hat hle := by
    obtain ⟨x, hx, hlasts⟩ := h.kept i hi t hat (Nat.le_trans h'.step hle)
    have hdate : x.terminatedAt = some t := (hlasts.dated (by rw [hat]; rfl)).trans hat
    obtain ⟨y, hy, hlasts'⟩ := h'.kept x hx t hdate hle
    exact ⟨y, hy, hlasts.trans hlasts'⟩

instance : Trans (Precedes g) (Precedes g) (Precedes g) := ⟨Precedes.trans⟩

/-- An instance with the number of an earlier one is what has become of it. -/
theorem Engine.Precedes.lasts (h : Precedes g m m') (hi : i ∈ m.instances)
    (hi' : i' ∈ m'.instances) (hnumber : i'.createdAt = i.createdAt) : i.Lasts i' := by
  have hold : i'.createdAt < m.nextInstance := by
    rw [hnumber]
    exact h.before.below _ (List.mem_map_of_mem hi)
  obtain ⟨x, hx, hlasts⟩ := h.known i' hi' hold
  rwa [h.before.eq_of_createdAt hi hx (hnumber.symm.trans hlasts.createdAt)]

theorem Engine.Precedes.retains (h : Precedes g m m') : m.Retains g m' where
  frozen i hi hend i' hi' hnumber := by
    have hlasts := h.lasts hi hi' hnumber
    obtain ⟨hstatus, hheads, hreason⟩ := hlasts.ended hend
    exact ⟨hlasts.origin, hstatus, hheads, hreason,
      hlasts.dated (by rw [h.before.marked i hi, hend])⟩
  kept i hi t hat := by
    constructor
    · rintro ⟨i', hi', hnumber⟩
      have hdate := (h.lasts hi hi' hnumber).dated (by rw [hat]; rfl)
      exact (h.after.recent i' hi' t (hdate.trans hat)).2
    · intro hle
      obtain ⟨i', hi', hlasts⟩ := h.kept i hi t hat hle
      exact ⟨i', hi', hlasts.createdAt⟩

/-- Nobody is let go who is not stale. -/
theorem mem_counted (hi : i ∈ m.instances)
    (hfresh : ∀ t, i.terminatedAt = some t → m.step + 1 ≤ t + e.config.graceSteps) :
    i ∈ (e.counted m).instances := by
  refine List.mem_filter.2 ⟨hi, ?_⟩
  rw [isStale]
  split
  · next t hat =>
    have := hfresh t hat
    simp only [gt_iff_lt, Bool.not_eq_true', decide_eq_false_iff_not]
    omega
  · rfl

theorem Engine.Passes.precedes (h : e.Passes m m') (hm : m.Dated e.config.graceSteps)
    (hm' : m'.Dated e.config.graceSteps) : Precedes e.config.graceSteps m m' := by
  rcases h with h | h
  · exact ⟨hm, hm', h.step.ge, h.fresh, h.known, fun i hi _ _ _ => h.stays i hi⟩
  · have hstep : m'.step = m.step + 1 := h.step
    refine ⟨hm, hm', by omega, h.fresh, fun i' hi' hold => ?_, fun i hi t hat hle => ?_⟩
    · obtain ⟨i, hi, hlasts⟩ := h.known i' hi' hold
      exact ⟨i, (List.mem_filter.1 hi).1, hlasts⟩
    · refine h.stays i (mem_counted hi fun n hn => ?_)
      rw [hat] at hn
      cases hn
      omega

theorem Engine.Passes.follows (h : e.Passes m m') (hm : m.Dated e.config.graceSteps) :
    m.Follows m' := by
  have hleads {t : State} (h : t.Leads m') (hin : ∀ i ∈ t.instances, i ∈ m.instances)
      (hlive : ∀ i ∈ m.instances, i.status.isTerminal = false → i ∈ t.instances) :
      m.Follows m' := by
    refine ⟨fun i hi hend => ?_, fun i' hi' n hat => ?_⟩
    · obtain ⟨i', hi', hlasts⟩ := h.stays i (hlive i hi hend)
      exact ⟨i', hi', hlasts.origin⟩
    · refine (h.dates i' hi' n hat).imp_right ?_
      rintro ⟨i, hi, hlasts, hdate⟩
      exact ⟨i, hin i hi, hlasts.origin.symm, hdate⟩
  rcases h with h | h
  · exact hleads h (fun _ hi => hi) fun _ hi _ => hi
  · refine hleads h (fun i hi => (List.mem_filter.1 hi).1) fun i hi hend => ?_
    refine mem_counted hi fun t hat => ?_
    have hmarked := hm.marked i hi
    rw [hat, hend] at hmarked
    cases hmarked

/-! ## Runs -/

theorem step_closingsBy (e : Engine) (s : State) (r : Request) :
    ∀ c ∈ e.closingsBy s r, c.state.step = s.step + 1 := by
  have hproceeds := e.proceeds s r
  rw [closingsBy, roundsBy]
  generalize e.opening? s r = o at hproceeds ⊢
  generalize e.closing? s r = c at hproceeds ⊢
  have hrounds {o : Step} (ho : o.state.step = s.step + 1) :
      ∀ c ∈ (e.roundsFrom e.config.maxEventsPerStep o).map fun round => e.compete round.2 round.1,
        c.state.step = s.step + 1 := by
    rw [List.forall_mem_map]
    intro round hround
    rw [(grows_compete e round.2 round.1).step]
    exact (runQueue_preserves (P := fun m => m.step = s.step + 1)
      (fun t event ht => (leads_round e t event).step.trans ht) _ ho).2 round hround
  cases hproceeds with
  | rests => exact List.forall_mem_nil _
  | opens hbegins => exact hrounds hbegins.grows.step
  | closes hbegins =>
    refine List.forall_mem_append.2 ⟨List.forall_mem_singleton.2 hbegins.step, hrounds ?_⟩
    exact (step_windUpEnded _).trans hbegins.step

theorem Engine.momentsOver_concat (e : Engine) (past : List (State × Request)) (s : State)
    (r : Request) : e.momentsOver (past ++ [(s, r)]) =
      e.momentsOver past ++ s :: e.momentsBy s r := by
  rw [momentsOver, List.flatMap_append, List.flatMap_singleton]
  rfl

theorem Engine.History.lived (h : e.History ids past s) :
    s.Lived e.config.graceSteps (e.endingsOver past) ∧
      ∀ m ∈ e.momentsOver past, ∃ told, m.Lived e.config.graceSteps told := by
  induction h with
  | initial =>
    exact ⟨⟨⟨⟨List.Pairwise.nil, nofun⟩, nofun, nofun⟩, List.nodup_nil, nofun, nofun, nofun⟩,
      List.forall_mem_nil _⟩
  | respond before r ih =>
    obtain ⟨hlived, hmoments⟩ := ih
    refine ⟨?_, ?_⟩
    · rw [endingsOver, List.flatMap_append, List.flatMap_singleton]
      exact lived_respond e hlived r
    · rw [momentsOver_concat]
      exact List.forall_mem_append.2
        ⟨hmoments, List.forall_mem_cons.2 ⟨⟨_, hlived⟩, lived_moments e hlived r⟩⟩
  | setGlobal before path value ih =>
    exact ⟨ih.1.same (State.same_of_instances rfl rfl rfl), ih.2⟩

theorem Engine.History.passes (h : e.History ids past s) :
    (e.momentsOver past ++ [s]).IsChain e.Passes := by
  -- the last moment may be replaced by one that looks the same
  have hlast {ms : List State} {m m' : State} (hms : (ms ++ [m]).IsChain e.Passes)
      (hsame : m.Same m') : (ms ++ [m']).IsChain e.Passes := by
    rw [List.isChain_append] at hms ⊢
    refine ⟨hms.1, List.isChain_singleton _, fun x hx y hy => ?_⟩
    cases hy
    exact (hms.2.2 x hx m rfl).trans hsame.grows.leads
  induction h with
  | initial => exact List.isChain_singleton _
  | respond before r ih =>
    rename_i past s
    rw [momentsOver_concat, momentsBy, List.append_assoc, List.cons_append, List.append_assoc]
    refine List.isChain_split.2 ⟨ih, ?_⟩
    rw [List.singleton_append, ← List.cons_append, List.isChain_split, List.cons_append]
    exact ⟨passes_respond e s r, List.isChain_pair.2 (.inl (State.grows_refl _).leads)⟩
  | setGlobal before path value ih => exact hlast ih (State.same_of_instances rfl rfl rfl)

/-- Where no number occurs twice, an announcement is found by its number. -/
theorem filter_number_eq {endings : List Ending} {a : Ending}
    (hd : (endings.map Ending.number).Nodup) (ha : a ∈ endings) :
    endings.filter (·.number = a.number) = [a] := by
  induction endings with
  | nil => cases ha
  | cons b endings ih =>
    obtain ⟨hnot, hd⟩ := List.nodup_cons.1 hd
    rcases List.mem_cons.1 ha with rfl | ha
    · have hnone : endings.filter (·.number = a.number) = [] :=
        List.filter_eq_nil_iff.2 fun x hx heq =>
          hnot (of_decide_eq_true heq ▸ List.mem_map_of_mem hx)
      rw [List.filter_cons, if_pos (decide_eq_true rfl), hnone]
    · rw [List.filter_cons_of_neg, ih hd ha]
      rw [decide_eq_true_eq]
      exact fun heq => hnot (heq ▸ List.mem_map_of_mem ha)

/-- **Ends are final.**  At every moment of a run, instances have a date if and only if they have
ended; they end in the step under way, are frozen from the round of their ends on, are announced
once and in the same step, and are kept for as many steps as the configuration says.  Whoever has
not ended never leaves. -/
theorem ends_are_final (h : e.History ids past s) : e.Conclusive past s := by
  obtain ⟨hlived, hmoments⟩ := h.lived
  have hdated : ∀ m ∈ e.momentsOver past ++ [s], m.Dated e.config.graceSteps :=
    List.forall_mem_append.2 ⟨fun m hm => (hmoments m hm).elim fun _ hl => hl.toDated,
      List.forall_mem_singleton.2 hlived.toDated⟩
  have hpasses := h.passes
  refine ⟨hdated, ?_, ?_, fun i hi => ?_, hlived.once, fun p _ c hc =>
    ⟨step_closingsBy e p.1 p.2 c hc, queue_windUpEnded_eq c⟩⟩
  · exact hpasses.imp_of_mem_imp fun m m' hm _ hpass => hpass.follows (hdated m hm)
  · have hprecedes : (e.momentsOver past ++ [s]).IsChain (Precedes e.config.graceSteps) :=
      hpasses.imp_of_mem_imp fun m m' hm hm' hpass => hpass.precedes (hdated m hm) (hdated m' hm')
    exact hprecedes.pairwise.imp Precedes.retains
  · split
    · next t hat =>
      obtain ⟨id, hmem⟩ := hlived.announced i hi t hat
      exact ⟨id, filter_number_eq hlived.once hmem⟩
    · next hnone =>
      have hsilent := hlived.silent i hi hnone
      refine List.filter_eq_nil_iff.2 fun a ha hnumber => hsilent ?_
      exact of_decide_eq_true hnumber ▸ List.mem_map_of_mem ha

end Finality

end

open Engine

/-! ## A nap that is aborted -/

/-- The second nap is aborted, and two more events follow. -/
def farewell : List Request :=
  disturbances ++ [.event (plain "6" "tick"), .event (plain "7" "tock")]

/-- Those requests, each with the state in which it is made. -/
def farewelled : List (State × Request) :=
  naps.along (fun s r => [(s, r)]) (.initial (.seeded 0)) farewell

/-- The nap that is aborted in the fifth step is announced then, and is still there after the sixth
one; after the seventh one only the other nap is there. -/
theorem ends_are_final_naps :
    (naps.endingsOver farewelled).map (fun a => (a.number, a.step, a.event.name)) =
        [(1, 5, Event.abortedName)] ∧
      (naps.after (.initial (.seeded 0)) (farewell.take 6)).numbers = [0, 1] ∧
      (naps.after (.initial (.seeded 0)) farewell).numbers = [0] ∧
      naps.Conclusive farewelled (naps.after (.initial (.seeded 0)) farewell) := by
  have hpast := (@History.initial _ _ _ naps (.seeded 0)).along farewell
  rw [List.nil_append] at hpast
  exact ⟨by decide +kernel, by decide +kernel, by decide +kernel, ends_are_final hpast⟩

end EventFlow

import EventFlow.Proofs.Instance.Origin

/-!
# What an instance reports of a call

An instance makes observations of two kinds when its heads move: that a head was aborted, and that
the instance has come to its end.  The first are made as it happens, the last one behind them when
the status is brought up to date, and so it is made once.

## What is here

* `Instance.Loses` relates an instance and what moving heads makes of it before the status is
  brought up to date; `exists_loses_step` proves it of every step of a machine.
* `Instance.Reports` relates an instance and what a call makes of it: the observations that are
  added are those of the heads that were lost, and behind them the one that it has ended
  (`Instance.closing`), if it has.  **`exists_reports_start`**, `exists_reports_advance?` and
  `reports_abort` prove it of every call.
-/

set_option autoImplicit false

namespace EventFlow

variable {Compiled Found : Type} [Query.Library Compiled Found]

/-- The head that an observation says was aborted, and the reason. -/
def Observation.loss? : Observation → Option (HeadId × String)
  | headAborted _ head reason => some (head, reason)
  | _ => none

/-- Whether an observation says that an instance has come to its end. -/
def Observation.isClosing : Observation → Bool
  | instanceFinished .. | instanceAborted .. => true
  | _ => false

namespace Instance

/-- The observation that a head of the instance was aborted. -/
def lossOf (i : Instance) (loss : HeadId × String) : Observation :=
  .headAborted i.id loss.1 loss.2

/-- The observation that the instance has come to its end, if it has. -/
def closing (i : Instance) : List Observation :=
  match i.status with
  | .finished => [.instanceFinished i.id i.flow]
  | .aborted => [.instanceAborted i.id i.flow (i.abortReason.getD "")]
  | _ => []

/-- `i'` is `i` with heads moved, of which some were lost. -/
structure Loses (i i' : Instance) (lost : List (HeadId × String)) : Prop where
  origin : i'.origin = i.origin
  status : i'.status = i.status
  observations : i'.observations = i.observations ++ lost.map i.lossOf

/-- `i'` is what a call has made of `i`: some heads were lost, and it may have come to its end. -/
structure Reports (i i' : Instance) (lost : List (HeadId × String)) : Prop where
  origin : i'.origin = i.origin
  observations : i'.observations = i.observations ++ lost.map i.lossOf ++ i'.closing

end Instance

section Reporting

open Instance

variable {program : Program} {i i' i'' : Instance} {lost lost' : List (HeadId × String)}
  {w w' : World} {e : Event} {id : HeadId} {f : Effects}

theorem loss?_lossOf (i : Instance) (lost : List (HeadId × String)) :
    (lost.map i.lossOf).filterMap Observation.loss? = lost := by
  rw [List.filterMap_map, show Observation.loss? ∘ i.lossOf = some from rfl, List.filterMap_some]

theorem isClosing_lossOf (i : Instance) (lost : List (HeadId × String)) :
    (lost.map i.lossOf).filter Observation.isClosing = [] :=
  List.filter_eq_nil_iff.2 fun o ho => by
    obtain ⟨l, -, rfl⟩ := List.mem_map.1 ho
    exact Bool.false_ne_true

theorem closing_of_live (hlive : i.status.isTerminal = false) : i.closing = [] := by
  rw [closing]
  split
  · next hs =>
    rw [hs] at hlive
    cases hlive
  · next hs =>
    rw [hs] at hlive
    cases hlive
  · rfl

theorem isClosing_closing (i : Instance) : i.closing.filter Observation.isClosing = i.closing := by
  rw [closing]
  split <;> rfl

theorem loss?_closing (i : Instance) : i.closing.filterMap Observation.loss? = [] := by
  rw [closing]
  split <;> rfl

/-- Exactly the instances that have ended have something to say about it, and that once. -/
theorem length_closing (i : Instance) :
    i.closing.length = if i.status.isTerminal then 1 else 0 := by
  rw [closing]
  split
  · next hs => rw [hs]; rfl
  · next hs => rw [hs]; rfl
  · next hf ha =>
    cases hs : i.status with
    | finished => exact absurd hs hf
    | aborted => exact absurd hs ha
    | _ => rfl

theorem lossOf_congr (h : i'.origin = i.origin) : i'.lossOf = i.lossOf := by
  funext loss
  rw [lossOf, lossOf, show i'.id = i.id from congrArg Origin.id h]

/-! ## Operations on heads -/

theorem loses_nil (horigin : i'.origin = i.origin) (hstatus : i'.status = i.status)
    (hobs : i'.observations = i.observations) : i.Loses i' [] :=
  ⟨horigin, hstatus, by rw [hobs, List.map_nil, List.append_nil]⟩

theorem Instance.Loses.trans (h : i.Loses i' lost) (h' : i'.Loses i'' lost') :
    i.Loses i'' (lost ++ lost') where
  origin := h'.origin.trans h.origin
  status := h'.status.trans h.status
  observations := by
    rw [h'.observations, h.observations, lossOf_congr h.origin, List.map_append, List.append_assoc]

/-- The heads that wait in vain, each with the reason it is aborted for. -/
def Instance.vainLosses (i : Instance) : List (HeadId × String) :=
  i.heads.filterMap fun h =>
    (vain? i.brokenForks h).map fun group => (h.id, siblingReason group)

theorem loses_settleOnce (i : Instance) : i.Loses i.settleOnce i.vainLosses := by
  refine ⟨rfl, rfl, ?_⟩
  rw [vainLosses, List.map_filterMap]
  simp only [settleOnce, vainObservations, Option.map_map]
  rfl

theorem exists_loses_settle (i : Instance) : ∃ lost, i.Loses i.settle lost := by
  fun_induction settle i with
  | case1 i _ ih =>
    obtain ⟨lost, hlost⟩ := ih
    exact ⟨_, (loses_settleOnce i).trans hlost⟩
  | case2 i _ => exact ⟨_, loses_settleOnce i⟩

/-- The instance with the head at a place aborted, before it has settled. -/
def Instance.lose (i : Instance) (k : Nat) (h : Head) (reason : String) : Instance :=
  { (i.setHead k { h with state := .aborted reason }).observe (.headAborted i.id h.id reason) with
    abortReason := some (i.abortReason.getD reason) }

theorem abortHead_eq (i : Instance) (k : Nat) (h : Head) (reason : String) :
    i.abortHead k h reason = (i.lose k h reason).settle := rfl

theorem loses_lose (i : Instance) (k : Nat) (h : Head) (reason : String) :
    i.Loses (i.lose k h reason) [(h.id, reason)] := ⟨rfl, rfl, rfl⟩

theorem exists_loses_abortHead (i : Instance) (k : Nat) (h : Head) (reason : String) :
    ∃ lost, i.Loses (i.abortHead k h reason) lost := by
  obtain ⟨lost, hlost⟩ := exists_loses_settle (i.lose k h reason)
  exact ⟨_, (loses_lose i k h reason).trans hlost⟩

theorem exists_loses_arrive (i : Instance) (k : Nat) (h : Head) :
    ∃ lost, i.Loses (i.arrive k h).1 lost := by
  rw [arrive]
  split
  · exact ⟨[], loses_nil rfl rfl rfl⟩
  · next b _ _ =>
    obtain ⟨lost, hlost⟩ := exists_loses_settle (i.setHead k { h with state := .atJoin b.group })
    have hsettled := Loses.trans (loses_nil rfl rfl rfl :
      i.Loses (i.setHead k { h with state := .atJoin b.group }) []) hlost
    simp only
    split
    · split
      · exact ⟨_, hsettled⟩
      · split
        · exact ⟨_, hsettled⟩
        · exact ⟨_, hsettled.trans (loses_nil rfl rfl rfl)⟩
    · exact ⟨_, hsettled⟩

/-- **A step reports the heads that it loses.** -/
theorem exists_loses_step {m m' : Machine} (hs : m.step? program = some m') :
    ∃ lost, m.inst.Loses m'.inst lost := by
  rcases Machine.step?_cases hs with ⟨-, rest, -, hinst, -, -⟩ | ⟨x, k, hr, ht⟩
  · rw [hinst]
    exact ⟨[], loses_nil rfl rfl rfl⟩
  · cases ht with
    | go x' on hid asks inst queue calls =>
      rw [inst]
      exact ⟨[], loses_nil rfl rfl rfl⟩
    | abort reason inst queue =>
      rw [inst]
      exact exists_loses_abortHead ..
    | fork first others hfetch inst queue =>
      rw [inst]
      exact ⟨[], loses_nil rfl rfl rfl⟩
    | arrive hfetch inst queue =>
      rw [inst]
      exact exists_loses_arrive ..

theorem exists_loses_run (program : Program) (m : Machine) :
    ∃ lost, m.inst.Loses (m.run program).inst lost :=
  Machine.run_of_step (P := fun m' => ∃ lost, m.inst.Loses m'.inst lost)
    (fun m' m'' ⟨_, hm⟩ hs => by
      obtain ⟨_, hstep⟩ := exists_loses_step hs
      exact ⟨_, hm.trans hstep⟩)
    ⟨[], loses_nil rfl rfl rfl⟩

/-! ## Calls -/

/-- Bringing the status up to date reports the end, if it has come. -/
theorem Instance.Loses.refresh (h : i.Loses i' lost) (hlive : i.status.isTerminal = false) :
    i.Reports i'.refresh lost := by
  refine ⟨(origin_refresh i').trans h.origin, ?_⟩
  have hlive' : i'.status.isTerminal = false := by rwa [h.status]
  rw [← h.observations, Instance.refresh, if_neg (Bool.eq_false_iff.1 hlive')]
  simp only
  split
  · next hs =>
    rw [closing]
    simp only [observe] at hs ⊢
    rw [hs]
  · next hs =>
    rw [closing]
    simp only [observe] at hs ⊢
    rw [hs]
  · next hf ha =>
    have hclosing : ({ i' with status := i'.summary } : Instance).closing = [] := by
      rw [closing]
      split
      · next hs => exact absurd hs hf
      · next hs => exact absurd hs ha
      · rfl
    rw [hclosing, List.append_nil]

theorem exists_reports_runHeads (program : Program) (hlive : i.status.isTerminal = false)
    (w : World) (queue : List HeadId) :
    ∃ lost, i.Reports (i.runHeads program w queue).1 lost := by
  obtain ⟨lost, hlost⟩ := exists_loses_run program ⟨i, w, .none, queue⟩
  exact ⟨lost, hlost.refresh hlive⟩

/-- **Starting an instance reports what has become of it.** -/
theorem exists_reports_start (program : Program) (hlive : i.status.isTerminal = false) (w : World) :
    ∃ lost, i.Reports (i.start program w).1 lost := exists_reports_runHeads program hlive w _

theorem exists_reports_advance? (ha : i.advance? program w id e = some (i', w', f)) :
    ∃ lost, i.Reports i' lost := by
  have hlive := not_ended_of_advance? ha
  rw [advance?] at ha
  split at ha
  · cases ha
  · simp only [Option.bind_eq_bind, Option.bind_eq_some_iff, Prod.exists, Option.pure_def,
      Option.some.injEq] at ha
    obtain ⟨h, k, -, x, -, hrun⟩ := ha
    obtain ⟨lost, hlost⟩ := exists_reports_runHeads program
      (i := i.setHead k (resume h x e w).1) hlive (resume h x e w).2 [id]
    rw [hrun] at hlost
    exact ⟨lost, hlost.origin, hlost.observations⟩

/-- An abort from outside reports no heads, only the end. -/
theorem reports_abort (hlive : i.status.isTerminal = false) (reason : String) :
    i.Reports (i.abort reason) [] := by
  rw [abort_eq, if_neg (Bool.eq_false_iff.1 hlive)]
  exact Loses.refresh (loses_nil rfl rfl rfl : i.Loses (i.stopAll reason) []) hlive

end Reporting

end EventFlow

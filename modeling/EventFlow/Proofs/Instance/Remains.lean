import EventFlow.Proofs.Instance.Asking
import EventFlow.Proofs.Instance.Reached

/-!
# What an instance remains

However its heads move, an instance keeps its identity and its flow, the step in which it ended and
the list of its emissions that lost; those are for the engine to write.  One that has ended does not
come back to life.  What an instance observes meanwhile is about itself and its heads.

## What is here

* `Observation.isPersonal` tells the observations apart that instances make.
* `Instance.Remains` says that an instance has become another one by moving heads.

**`remains_runHeads`**, `remains_start`, `remains_advance?` and `remains_abort` prove it of every
call, whatever the instance, and the effects of a call are stamped with its identity.
-/

set_option autoImplicit false

namespace EventFlow

variable {Compiled Found : Type} [Query.Library Compiled Found]

/-- Whether an observation is one that an instance makes. -/
def Observation.isPersonal : Observation → Bool
  | instanceSpawned .. | instanceFinished .. | instanceAborted .. | headAborted .. => true
  | _ => false

/-- An instance has nothing to hand on but observations of its own. -/
def Instance.Personal (i : Instance) : Prop := ∀ o ∈ i.observations, o.isPersonal = true

/-- What is still so of an instance when heads have moved. -/
structure Instance.Remains (i i' : Instance) : Prop where
  id : i'.id = i.id
  flow : i'.flow = i.flow
  overridden : i'.overridden = i.overridden
  terminatedAt : i'.terminatedAt = i.terminatedAt
  status : i.status.isTerminal = true → i'.status = i.status
  personal : i.Personal → i'.Personal

section Remaining

open Instance

variable {program : Program} {i i' i'' : Instance} {h : Head} {k : Nat} {w w' : World} {e : Event}
  {id : HeadId} {f : Effects}

theorem remains_refl (i : Instance) : i.Remains i :=
  ⟨rfl, rfl, rfl, rfl, fun _ => rfl, fun hp => hp⟩

theorem Instance.Remains.trans (h : i.Remains i') (h' : i'.Remains i'') : i.Remains i'' :=
  ⟨h'.id.trans h.id, h'.flow.trans h.flow, h'.overridden.trans h.overridden,
    h'.terminatedAt.trans h.terminatedAt,
    fun hend => (h'.status (by rwa [h.status hend])).trans (h.status hend),
    h'.personal ∘ h.personal⟩

theorem Instance.Personal.append {os : List Observation} (hp : i.Personal)
    (hos : ∀ o ∈ os, o.isPersonal = true) :
    ({ i with observations := i.observations ++ os } : Instance).Personal := fun o ho =>
  (List.mem_append.1 ho).elim (hp o) (hos o)

/-! ## Operations on heads -/

theorem remains_setHead (i : Instance) (k : Nat) (h : Head) : i.Remains (i.setHead k h) :=
  ⟨rfl, rfl, rfl, rfl, fun _ => rfl, fun hp => hp⟩

theorem remains_observe {o : Observation} (ho : o.isPersonal = true) (i : Instance) :
    i.Remains (i.observe o) :=
  ⟨rfl, rfl, rfl, rfl, fun _ => rfl, fun hp => hp.append (List.forall_mem_singleton.2 ho)⟩

theorem remains_settleOnce (i : Instance) : i.Remains i.settleOnce := by
  refine ⟨rfl, rfl, rfl, rfl, fun _ => rfl, fun hp => hp.append fun o ho => ?_⟩
  obtain ⟨h, -, hvain⟩ := List.mem_filterMap.1 ho
  obtain ⟨g, -, rfl⟩ := Option.map_eq_some_iff.1 hvain
  rfl

theorem remains_settle (i : Instance) : i.Remains i.settle := by
  fun_induction settle i with
  | case1 i _ ih => exact (remains_settleOnce i).trans ih
  | case2 i _ => exact remains_settleOnce i

theorem remains_abortHead (i : Instance) (k : Nat) (h : Head) (reason : String) :
    i.Remains (i.abortHead k h reason) := by
  have hset := remains_setHead i k { h with state := .aborted reason }
  have hobserve := @remains_observe (.headAborted i.id h.id reason) rfl
    (i.setHead k { h with state := .aborted reason })
  have hreason (i : Instance) (abortReason : Option String) :
      i.Remains { i with abortReason } := ⟨rfl, rfl, rfl, rfl, fun _ => rfl, fun hp => hp⟩
  exact ((hset.trans hobserve).trans (hreason _ _)).trans (remains_settle _)

theorem remains_arrive (i : Instance) (k : Nat) (h : Head) : i.Remains (i.arrive k h).1 := by
  rw [arrive]
  split
  · exact remains_setHead i k _
  · next b _ _ =>
    have hsettled := (remains_setHead i k { h with state := .atJoin b.group }).trans
      (remains_settle _)
    simp only
    split
    · split
      · exact hsettled
      · split
        · exact hsettled
        · exact hsettled.trans ⟨rfl, rfl, rfl, rfl, fun _ => rfl, fun hp => hp⟩
    · exact hsettled

theorem remains_refresh (i : Instance) : i.Remains i.refresh := by
  rw [refresh]
  split
  · exact remains_refl i
  · next hlive =>
    have hstatus : i.Remains { i with status := i.summary } :=
      ⟨rfl, rfl, rfl, rfl, fun hend => absurd hend hlive, fun hp => hp⟩
    simp only
    split
    · exact hstatus.trans (remains_observe rfl _)
    · exact hstatus.trans (remains_observe rfl _)
    · exact hstatus

/-! ## Calls -/

theorem remains_abort (i : Instance) (reason : String) : i.Remains (i.abort reason) := by
  rw [abort_eq]
  split
  · exact remains_refl i
  · have hstop : i.Remains (i.stopAll reason) := ⟨rfl, rfl, rfl, rfl, fun _ => rfl, fun hp => hp⟩
    exact hstop.trans (remains_refresh _)

theorem remains_step {m m' : Machine} (hs : m.step? program = some m') :
    m.inst.Remains m'.inst := by
  rcases Machine.step?_cases hs with ⟨-, rest, -, hinst, -, -⟩ | ⟨x, k, hr, ht⟩
  · rw [hinst]
    exact remains_refl _
  · cases ht with
    | go x' on hid asks inst queue calls =>
      rw [inst]
      exact remains_setHead ..
    | abort reason inst queue =>
      rw [inst]
      exact remains_abortHead ..
    | fork first others hfetch inst queue =>
      rw [inst]
      exact ⟨rfl, rfl, rfl, rfl, fun _ => rfl, fun hp => hp⟩
    | arrive hfetch inst queue =>
      rw [inst]
      exact remains_arrive ..

/-- **Running heads leaves an instance what it is**, and what they ask for bears its identity. -/
theorem remains_runHeads (program : Program) (i : Instance) (w : World) (queue : List HeadId) :
    i.Remains (i.runHeads program w queue).1 ∧ (i.runHeads program w queue).2.2.Stamped i.id := by
  obtain ⟨hrun, hst⟩ := @Machine.run_of_step _ _ _ program ⟨i, w, .none, queue⟩
    (fun m => i.Remains m.inst ∧ m.effects.Stamped i.id)
    (fun m m' hm hs => ⟨hm.1.trans (remains_step hs),
      (hm.1.id ▸ Machine.grows_of_step? hs).stamped hm.2⟩)
    ⟨remains_refl i, stamped_none i.id⟩
  exact ⟨hrun.trans (remains_refresh _), hst⟩

theorem remains_start (program : Program) (i : Instance) (w : World) :
    i.Remains (i.start program w).1 ∧ (i.start program w).2.2.Stamped i.id :=
  remains_runHeads program i w _

theorem remains_advance? (ha : i.advance? program w id e = some (i', w', f)) :
    i.Remains i' ∧ f.Stamped i.id := by
  rw [advance?] at ha
  split at ha
  · cases ha
  · simp only [Option.bind_eq_bind, Option.bind_eq_some_iff, Prod.exists, Option.pure_def,
      Option.some.injEq] at ha
    obtain ⟨h, k, -, x, -, hrun⟩ := ha
    have hruns := remains_runHeads program (i.setHead k (resume h x e w).1) (resume h x e w).2 [id]
    rw [hrun] at hruns
    exact ⟨(remains_setHead ..).trans hruns.1, hruns.2⟩

end Remaining

end EventFlow

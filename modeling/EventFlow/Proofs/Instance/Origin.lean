import EventFlow.Proofs.Instance.Remains

/-!
# Where an instance comes from, and that its end is final

What an instance is given when it is started stays with it: its identity, its flow and priority, its
number in the order of creation, and who has started it.  Of an instance that has ended much more
stays, since no head of it moves any more.

## What is here

* `Instance.origin` is what an instance is given.  `origin_runHeads`, `origin_start`,
  `origin_advance?` and `origin_abort` say that no call changes it, whatever the instance.
* `Emission.Bears` says that an emission bears what its instance was given, and `bears_start` and
  `bears_advance?` that all emissions of a call do.
* `Instance.Lasts` relates an instance and what has become of it: if it has ended, then its status,
  its heads, and the reason it was aborted for are what they were.
-/

set_option autoImplicit false

namespace EventFlow

variable {Compiled Found : Type} [Query.Library Compiled Found]

/-- What an instance is given when it is started. -/
structure Instance.Origin where
  id : InstanceId
  flow : FlowId
  priority : Int
  createdAt : Nat
  parent : Option InstanceId

/-- Where an instance comes from. -/
def Instance.origin (i : Instance) : Instance.Origin :=
  ⟨i.id, i.flow, i.priority, i.createdAt, i.parent⟩

/-- An emission bears what an instance was given: its identity, its flow, its priority and its
number. -/
structure Emission.Bears (m : Emission) (o : Instance.Origin) : Prop where
  id : m.instanceId = o.id
  flow : m.flow = o.flow
  priority : m.priority = o.priority
  createdAt : m.createdAt = o.createdAt

/-- What becomes of an instance: it keeps its origin, and everything else once it has ended. -/
structure Instance.Lasts (i i' : Instance) : Prop where
  origin : i'.origin = i.origin
  ended : i.status.isTerminal = true →
    i'.status = i.status ∧ i'.heads = i.heads ∧ i'.abortReason = i.abortReason
  dated : i.terminatedAt.isSome = true → i'.terminatedAt = i.terminatedAt

section Origins

open Instance

variable {program : Program} {i i' i'' : Instance} {w w' : World} {e : Event} {id : HeadId}
  {f : Effects}

/-! ## Operations on heads -/

theorem origin_settle (i : Instance) : i.settle.origin = i.origin := by
  fun_induction settle i with
  | case1 i _ ih => exact ih
  | case2 i _ => rfl

theorem origin_abortHead (i : Instance) (k : Nat) (h : Head) (reason : String) :
    (i.abortHead k h reason).origin = i.origin := origin_settle _

theorem origin_arrive (i : Instance) (k : Nat) (h : Head) :
    (i.arrive k h).1.origin = i.origin := by
  rw [arrive]
  split
  · rfl
  · next b _ _ =>
    have hsettled := origin_settle (i.setHead k { h with state := .atJoin b.group })
    simp only
    split
    · split
      · exact hsettled
      · split <;> exact hsettled
    · exact hsettled

theorem origin_refresh (i : Instance) : i.refresh.origin = i.origin := by
  rw [refresh]
  split
  · rfl
  · simp only
    split <;> rfl

/-! ## Calls -/

theorem origin_step {m m' : Machine} (hs : m.step? program = some m') :
    m'.inst.origin = m.inst.origin := by
  rcases Machine.step?_cases hs with ⟨-, rest, -, hinst, -, -⟩ | ⟨x, k, hr, ht⟩
  · rw [hinst]
  · cases ht with
    | go x' on hid asks inst queue calls =>
      rw [inst]
      rfl
    | abort reason inst queue =>
      rw [inst]
      exact origin_abortHead ..
    | fork first others hfetch inst queue =>
      rw [inst]
      rfl
    | arrive hfetch inst queue =>
      rw [inst]
      exact origin_arrive ..

/-- **Running heads leaves an instance where it comes from.** -/
theorem origin_runHeads (program : Program) (i : Instance) (w : World) (queue : List HeadId) :
    (i.runHeads program w queue).1.origin = i.origin := by
  have hrun := @Machine.run_of_step _ _ _ program ⟨i, w, .none, queue⟩
    (fun m => m.inst.origin = i.origin) (fun m m' hm hs => (origin_step hs).trans hm) rfl
  exact (origin_refresh _).trans hrun

theorem origin_start (program : Program) (i : Instance) (w : World) :
    (i.start program w).1.origin = i.origin := origin_runHeads program i w _

theorem origin_advance? (ha : i.advance? program w id e = some (i', w', f)) :
    i'.origin = i.origin := by
  rw [advance?] at ha
  split at ha
  · cases ha
  · simp only [Option.bind_eq_bind, Option.bind_eq_some_iff, Prod.exists, Option.pure_def,
      Option.some.injEq] at ha
    obtain ⟨h, k, -, x, -, hrun⟩ := ha
    have horigin := origin_runHeads program (i.setHead k (resume h x e w).1) (resume h x e w).2 [id]
    rw [hrun] at horigin
    exact horigin

theorem origin_abort (i : Instance) (reason : String) : (i.abort reason).origin = i.origin := by
  rw [abort_eq]
  split
  · rfl
  · exact origin_refresh (i.stopAll reason)

/-! ## Emissions -/

/-- What an instruction emits bears the origin of the instance. -/
theorem bears_execute (i : Instance) (w : World) (h : Head) (instr : Instruction) :
    ∀ m ∈ (i.execute w h instr).2.2.emissions, m.Bears i.origin := by
  have hnone : ∀ m ∈ Effects.none.emissions, m.Bears i.origin := List.forall_mem_nil _
  have hone (intent : Intent) (key : Option String) :
      ∀ m ∈ (Effects.ofEmission (i.emission h intent key)).emissions, m.Bears i.origin :=
    List.forall_mem_singleton.2 ⟨rfl, rfl, rfl, rfl⟩
  cases instr with
  | send event =>
    simp only [execute, executeSend]
    split
    · exact hnone
    · exact hone _ _
  | call spec =>
    simp only [execute, executeCall]
    split
    · exact hnone
    · split <;> exact hone _ _
  | branch condition otherwise =>
    simp only [execute]
    split <;> exact hnone
  | fork starts => cases starts <;> exact hnone
  | assign target value =>
    simp only [execute]
    split <;> exact hnone
  | _ => exact List.forall_mem_nil _

theorem emissions_turn (program : Program) (m : Machine) (k : Nat) (h : Head) :
    (m.turn program k h).effects.emissions = m.effects.emissions ++
      (m.inst.execute m.world h (program.fetch h.position)).2.2.emissions := by
  rw [Machine.turn]
  generalize m.inst.execute m.world h (program.fetch h.position) = r
  obtain ⟨turn, world, effects⟩ := r
  cases turn <;> simp [Effects.append, Effects.ofHeads]

/-- **What running heads emit bears the origin of the instance.** -/
theorem bears_runHeads (program : Program) (i : Instance) (w : World) (queue : List HeadId) :
    ∀ m ∈ (i.runHeads program w queue).2.2.emissions, m.Bears i.origin := by
  refine (@Machine.run_of_step _ _ _ program ⟨i, w, .none, queue⟩
    (fun m => m.inst.origin = i.origin ∧ ∀ x ∈ m.effects.emissions, x.Bears i.origin)
    ?_ ⟨rfl, List.forall_mem_nil _⟩).2
  rintro m m' ⟨horigin, hbears⟩ hs
  refine ⟨(origin_step hs).trans horigin, ?_⟩
  rcases Machine.step?_eq hs with ⟨id, rest, -, rfl, -⟩ | ⟨h, k, -, rfl⟩
  · exact hbears
  · rw [emissions_turn, List.forall_mem_append]
    exact ⟨hbears, horigin ▸ bears_execute m.inst m.world h (program.fetch h.position)⟩

theorem bears_start (program : Program) (i : Instance) (w : World) :
    ∀ m ∈ (i.start program w).2.2.emissions, m.Bears i.origin := bears_runHeads program i w _

theorem bears_advance? (ha : i.advance? program w id e = some (i', w', f)) :
    ∀ m ∈ f.emissions, m.Bears i.origin := by
  rw [advance?] at ha
  split at ha
  · cases ha
  · simp only [Option.bind_eq_bind, Option.bind_eq_some_iff, Prod.exists, Option.pure_def,
      Option.some.injEq] at ha
    obtain ⟨h, k, -, x, -, hrun⟩ := ha
    have hbears := bears_runHeads program (i.setHead k (resume h x e w).1) (resume h x e w).2 [id]
    rw [hrun] at hbears
    exact hbears

/-! ## What lasts -/

theorem lasts_refl (i : Instance) : i.Lasts i := ⟨rfl, fun _ => ⟨rfl, rfl, rfl⟩, fun _ => rfl⟩

theorem Instance.Lasts.trans (h : i.Lasts i') (h' : i'.Lasts i'') : i.Lasts i'' where
  origin := h'.origin.trans h.origin
  ended hend := by
    obtain ⟨hstatus, hheads, hreason⟩ := h.ended hend
    obtain ⟨hstatus', hheads', hreason'⟩ := h'.ended (by rwa [hstatus])
    exact ⟨hstatus'.trans hstatus, hheads'.trans hheads, hreason'.trans hreason⟩
  dated hsome := (h'.dated (by rwa [h.dated hsome])).trans (h.dated hsome)

theorem Instance.Lasts.createdAt (h : i.Lasts i') : i'.createdAt = i.createdAt :=
  congrArg Origin.createdAt h.origin

/-- No event moves a head of an instance that has ended. -/
theorem not_ended_of_advance? {r : Instance × World × Effects}
    (h : i.advance? program w id e = some r) : i.status.isTerminal = false := by
  rw [Instance.advance?] at h
  split at h
  · cases h
  · next hdeaf =>
    rw [Instance.isDeafTo, Bool.or_eq_true, not_or, Bool.not_eq_true] at hdeaf
    exact hdeaf.1

theorem lasts_advance? (ha : i.advance? program w id e = some (i', w', f)) : i.Lasts i' where
  origin := origin_advance? ha
  ended hend := by
    rw [not_ended_of_advance? ha] at hend
    cases hend
  dated _ := (remains_advance? ha).1.terminatedAt

theorem lasts_abort (i : Instance) (reason : String) : i.Lasts (i.abort reason) where
  origin := origin_abort i reason
  ended hend := by
    rw [abort_eq, if_pos hend]
    exact ⟨rfl, rfl, rfl⟩
  dated _ := (remains_abort i reason).terminatedAt

end Origins

end EventFlow

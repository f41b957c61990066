import EventFlow.Proofs.Instance.Reached
import EventFlow.Proofs.Instance.Sound

/-!
# Running keeps instances sound

A machine knows which heads are still to run.  It is sound when its instance is and no ready head is
forgotten, and this is what every step keeps; so a call, which runs a machine until its queue is
empty, leaves a sound instance behind in which no head is ready.

## What is here

* `Machine.Sound` and `Sound.step`, one case for each thing a step can do.
* `sound_starting` and `sound_advancing`: calls set sound machines going.
* **`Instance.Reached.rests`** and **`Machine.Passed.sound`**: what calls lead to and pass through.
-/

set_option autoImplicit false

namespace EventFlow

variable {Compiled Found : Type} [Query.Library Compiled Found]

namespace Machine

/-- A machine whose instance is sound and that has all ready heads in its queue. -/
structure Sound (program : Program) (Safe : Nat → Prop) (J : Nat → List Nat) (m : Machine) :
    Prop where
  inst : m.inst.Sound program Safe J
  queued : ∀ h ∈ m.inst.heads, h.state = .ready → h.id ∈ m.queue

section Sound

variable {program : Program} {Safe : Nat → Prop} {J : Nat → List Nat} {m m' : Machine}
  {h : Head} {k g : Nat}

open Instance

/-! ## Steps -/

/-- A head that changes keeps its place in the queue. -/
theorem Sound.queued_setHead (hm : m.Sound program Safe J) (hr : m.Runs h k) {h' x : Head}
    (hid : h'.id = h.id) (hx : x ∈ (m.inst.setHead k h').heads) (hready : x.state = .ready) :
    x.id ∈ m.queue := by
  rcases (mem_setHead hm.inst.distinct hr.getElem?).1 hx with rfl | ⟨hx, -⟩
  · obtain ⟨rest, hq⟩ := hr.queue
    rw [hid, hq]
    exact .head _
  · exact hm.queued x hx hready

theorem Sound.queued_stops (hm : m.Sound program Safe J) (hr : m.Runs h k) {i' : Instance}
    {h' x : Head} (hst : (m.inst.setHead k h').Stops i') (hid : h'.id = h.id) (hx : x ∈ i'.heads)
    (hready : x.state = .ready) : x.id ∈ m.queue := by
  rcases hst.mem hx with hx | ⟨y, -, reason, rfl⟩
  · exact hm.queued_setHead hr hid hx hready
  · cases hready

/-- Of the heads of a fork, the first one goes on and the others are queued. -/
theorem Sound.queued_fork (hm : m.Sound program Safe J) (hr : m.Runs h k) {first : Nat}
    {others : List Nat} {x : Head} (hx : x ∈ (m.inst.fork k h first others).1.heads)
    (hready : x.state = .ready) : x.id ∈ m.queue ++ (m.inst.fork k h first others).2 := by
  rw [List.mem_append]
  rcases (mem_fork hm.inst.distinct hr.getElem?).1 hx with ⟨hx, -⟩ | ⟨_ | j, start, hj, rfl⟩
  · exact .inl (hm.queued x hx hready)
  · obtain ⟨rest, hq⟩ := hr.queue
    rw [hq]
    exact .inl (.head _)
  · refine .inr (List.mem_map.2 ⟨_, List.mem_map.2 ⟨(start, j), ?_, rfl⟩, rfl⟩)
    exact List.mem_zipIdx_iff_getElem?.2 hj

/-- The head that goes on behind a join is queued. -/
theorem Sound.queued_arrive (hp : program.Pairs Safe J) (hm : m.Sound program Safe J)
    (hr : m.Runs h k) (hfetch : program.fetch h.position = .join) {x : Head}
    (hx : x ∈ (m.inst.arrive k h).1.heads) (hready : x.state = .ready) :
    x.id ∈ wake m.queue h.id (m.inst.arrive k h).2 := by
  have hk := hr.getElem?
  obtain ⟨b, bs, hb⟩ := hm.inst.exists_branch hp hr.mem hfetch
  have hl := hm.inst.toLaid.atJoin hp hk hfetch hb
  have hold {x : Head} (hx : x ∈ (m.inst.atJoin k h b.group).heads)
      (hready : x.state = .ready) : x.id ∈ m.queue := by
    have hst : (m.inst.setHead k (waiter h b.group)).Stops (m.inst.atJoin k h b.group) :=
      stops_settle _
    exact hm.queued_stops hr hst rfl hx hready
  rcases arrive_cases hm.inst.distinct hk hb with
    ⟨-, he⟩ | ⟨-, -, he⟩ | ⟨first, place, others, -, ha, -, he⟩ <;> rw [he] at hx ⊢
  · exact hold hx hready
  · exact hold hx hready
  · rw [wake]
    rcases (mem_merge hl.distinct ha).1 hx with rfl | ⟨hx, -⟩
    · split
      · next hid =>
        obtain ⟨rest, hq⟩ := hr.queue
        rw [← hid] at hq
        rw [hq]
        exact .head _
      · exact List.mem_append_right _ (.head _)
    · split
      · exact hold hx hready
      · exact List.mem_append_left _ (hold hx hready)

/-- The forks that heads of a sound machine stand at have branches. -/
theorem Sound.branches (hp : program.Pairs Safe J) (hm : m.Sound program Safe J) :
    ∀ h ∈ m.inst.heads, program.fetch h.position ≠ .fork [] := by
  intro h hh hfetch
  obtain ⟨L, hL⟩ := hm.inst.tracked
  exact (hp.fork _ _ (hL h hh).1 hfetch).1 rfl

/-- The steps of a machine keep it sound. -/
theorem Sound.step (hp : program.Pairs Safe J) (hm : m.Sound program Safe J)
    (hs : m.step? program = some m') : m'.Sound program Safe J := by
  rcases step?_cases hs with ⟨id, rest, hq, hinst, hq', hidle⟩ | ⟨h, k, hr, ht⟩
  · refine ⟨hinst ▸ hm.inst, fun x hx hready => ?_⟩
    rw [hinst] at hx
    have hmem := hm.queued x hx hready
    rw [hq, List.mem_cons] at hmem
    rw [hq']
    refine hmem.resolve_left ?_
    rintro rfl
    obtain ⟨k, hslot⟩ := exists_slot hm.inst.distinct hx
    exact hidle x k hslot hready
  · have hk := hr.getElem?
    have hsafe := hm.branches hp h hr.mem
    cases ht with
    | go h' on id asks inst queue calls =>
      refine ⟨?_, fun x hx hready => ?_⟩
      · rw [inst]
        exact hm.inst.goOn hp hk (by rw [hr.ready]; rfl) (on hsafe)
      · rw [inst] at hx
        rw [queue]
        exact hm.queued_setHead hr (on hsafe).id hx hready
    | abort reason inst queue =>
      refine ⟨?_, fun x hx hready => ?_⟩
      · rw [inst]
        exact hm.inst.abortHead hp hk reason
      · rw [inst] at hx
        rw [queue]
        exact hm.queued_stops hr (stops_abortHead ..) rfl hx hready
    | fork first others hfetch inst queue =>
      refine ⟨?_, fun x hx hready => ?_⟩
      · rw [inst]
        exact hm.inst.fork hp hk hr.ready hfetch
      · rw [inst] at hx
        rw [queue]
        exact hm.queued_fork hr hx hready
    | arrive hfetch inst queue =>
      refine ⟨?_, fun x hx hready => ?_⟩
      · rw [inst]
        exact hm.inst.arrive hp hk hfetch
      · rw [inst] at hx
        rw [queue]
        exact hm.queued_arrive hp hr hfetch hx hready

/-- A sound machine that has stopped has no ready heads. -/
theorem Sound.idle (hm : m.Sound program Safe J) (hq : m.queue = []) :
    ∀ h ∈ m.inst.heads, h.state ≠ .ready := by
  intro h hh hready
  have := hm.queued h hh hready
  rw [hq] at this
  cases this

/-- A sound machine leaves a sound instance behind, without ready heads. -/
theorem Sound.run (hp : program.Pairs Safe J) (hm : m.Sound program Safe J) :
    (m.run program).inst.Sound program Safe J ∧
      ∀ h ∈ (m.run program).inst.heads, h.state ≠ .ready := by
  have hstep (m m' : Machine) (hm : m.Sound program Safe J) (hs : m.step? program = some m') :
      m'.Sound program Safe J := hm.step hp hs
  have hrun : (m.run program).Sound program Safe J := run_of_step hstep hm
  exact ⟨hrun.inst, hrun.idle (queue_run hstep (fun m hm => not_stalls (hm.branches hp)) hm)⟩

/-! ## Machines that calls pass through -/

theorem sound_starting (hp : program.Pairs Safe J) (id : InstanceId) (flow : FlowId)
    (priority : Int) (createdAt : Nat) (parent : Option InstanceId) (bindings : Bindings)
    (specificity : Nat) (w : World) :
    (starting (.spawn id flow priority createdAt parent bindings specificity) w).Sound
      program Safe J := by
  generalize hi : Instance.spawn id flow priority createdAt parent bindings specificity = i
  have hheads : i.heads = [⟨⟨0⟩, 0, .ready, Dict.ofList bindings, [], specificity⟩] := by
    rw [← hi]
    rfl
  have hforest : ∃ origin, Forest origin i.nextHead i.nextGroup i.On := by
    refine ⟨fun _ => ⟨0, []⟩, ?_⟩
    rw [← hi]
    refine Forest.root fun id bs => ⟨?_, ?_⟩
    · rintro ⟨x, hx, rfl, rfl⟩
      obtain rfl := List.mem_singleton.1 hx
      exact ⟨rfl, rfl⟩
    · rintro ⟨rfl, rfl⟩
      exact ⟨_, List.mem_singleton_self _, rfl, rfl⟩
  have honly : ∀ x ∈ i.heads, x.position = 0 ∧ x.state = .ready ∧ x.branches = [] := by
    intro x hx
    rw [hheads] at hx
    obtain rfl := List.mem_singleton.1 hx
    exact ⟨rfl, rfl, rfl⟩
  refine ⟨⟨⟨?_, hforest, ⟨fun _ => [], fun x hx => ?_⟩, fun x hx => ?_⟩,
    fun x hx g hj => ?_, fun x hx b bs hb => ?_⟩, fun x hx hr => ?_⟩
  · rw [show (starting i w).inst = i from rfl, hheads]
    simp
  · obtain ⟨hpos, -, hbs⟩ := honly x hx
    rw [hpos, hbs]
    exact hp.start
  · rw [Head.Stands, (honly x hx).2.1]
    trivial
  · rw [(honly x hx).2.1] at hj
    cases hj
  · rw [(honly x hx).2.2] at hb
    cases hb
  · exact List.mem_map_of_mem (List.mem_filter.2 ⟨hx, by rw [hr]; rfl⟩)

/-- An event moves a head to an exit of the instruction it stands at. -/
theorem resume_mem_exits {e : Event} {x : HeadMatch} (hst : h.Stands program)
    (hm : h.match? e = some x) :
    x.resume ∈ program.exits h.position ∧ h.state.isAborted = false := by
  obtain ⟨y, hy, hmatch⟩ := List.exists_of_findSome?_eq_some hm
  have hresume : x.resume = y.resume := by
    obtain ⟨bindings, -, rfl⟩ := Option.map_eq_some_iff.1 hmatch
    rfl
  rw [hresume]
  exact hst.resume hy

/-- A head that an event moves goes on. -/
theorem goesOn_resume {e : Event} {x : HeadMatch} (hst : h.Stands program)
    (hm : h.match? e = some x) (w : World) : h.GoesOn program (resume h x e w).1 := by
  obtain ⟨bindings, hb⟩ := bindOption_head x.result (.obj e.payload)
    { h with
      bindings := x.bindings
      position := x.resume
      specificity := x.specificity
      state := .ready } w
  rw [resume, hb]
  exact ⟨rfl, rfl, .inr (resume_mem_exits hst hm).1, trivial, rfl, rfl⟩

theorem sound_advancing (hp : program.Pairs Safe J) {i : Instance} {w : World} {id : HeadId}
    {e : Event} (hi : i.Sound program Safe J) (hready : ∀ h ∈ i.heads, h.state ≠ .ready)
    (ha : advancing? i w id e = some m) : m.Sound program Safe J := by
  rw [advancing?] at ha
  split at ha
  · cases ha
  · simp only [Option.bind_eq_bind, Option.bind_eq_some_iff, Prod.exists,
      Option.pure_def, Option.some.injEq] at ha
    obtain ⟨h, k, hslot, x, hx, rfl⟩ := ha
    have hk := getElem?_of_slot? hslot
    have hid : h.id = id := by
      have := List.find?_some hslot
      simpa using this
    have hst := hi.stands h (List.mem_of_getElem? hk)
    have hgo := goesOn_resume hst hx w
    refine ⟨hi.goOn hp hk (resume_mem_exits hst hx).2 hgo, fun y hy hr => List.mem_singleton.2 ?_⟩
    rcases (mem_setHead hi.distinct hk).1 hy with rfl | ⟨hy, -⟩
    · rw [hgo.id, hid]
    · exact absurd hr (hready y hy)

end Sound

end Machine

/-! ## Instances that calls lead to -/

namespace Instance

variable {program : Program} {Safe : Nat → Prop} {J : Nat → List Nat} {i i' : Instance}

theorem Sound.refresh (hi : i.Sound program Safe J) : i.refresh.Sound program Safe J := by
  have heads := i.heads_refresh
  refine ⟨hi.toLaid.stops i.stops_refresh, ?_, hi.pending.of_subset fun x hx _ _ => heads ▸ hx⟩
  rintro x hx g hj ⟨y, hy, hb⟩
  exact hi.unbroken x (heads ▸ hx) g hj ⟨y, heads ▸ hy, hb⟩

/-- An abort from outside leaves nobody waiting. -/
theorem Sound.abort (hi : i.Sound program Safe J) (reason : String) :
    (i.abort reason).Sound program Safe J := by
  rw [abort_eq]
  split
  · exact hi
  · have hnone : ∀ x ∈ (i.stopAll reason).heads, ∀ g, x.state ≠ .atJoin g := by
      intro x hx g hj
      have ht := isTerminal_of_mem_stopAll hx
      rw [Head.isTerminal, hj] at ht
      cases ht
    refine Sound.refresh ⟨hi.toLaid.stops (i.stops_stopAll reason), ?_, ?_⟩
    · exact fun x hx g hj => absurd hj (hnone x hx g)
    · exact fun x hx b bs _ hj => absurd hj (hnone x hx _)

/-- An instance that has not come to its end after a call has a live head. -/
theorem live_refresh (h : i.refresh.status.isTerminal = false) :
    i.refresh.heads.all Head.isTerminal = false := by
  rw [heads_refresh]
  by_contra hall
  have hall : i.heads.all Head.isTerminal = true := by simpa using hall
  have hsummary : i.summary.isTerminal = true := by
    rw [summary, if_pos hall]
    split <;> rfl
  have hstatus : i.refresh.status.isTerminal = true := by
    rw [Instance.refresh]
    split
    · assumption
    · simp only
      split <;> exact hsummary
  rw [h] at hstatus
  cases hstatus

/-- What a call leaves behind. -/
structure Rests (program : Program) (Safe : Nat → Prop) (J : Nat → List Nat) (i : Instance) :
    Prop where
  sound : i.Sound program Safe J
  idle : ∀ h ∈ i.heads, h.state ≠ .ready
  live : i.status.isTerminal = false → i.heads.all Head.isTerminal = false

/-- An abort from outside leaves an instance at rest. -/
theorem Rests.abort (hi : i.Rests program Safe J) (reason : String) :
    (i.abort reason).Rests program Safe J := by
  refine ⟨hi.sound.abort reason, ?_, ?_⟩
  · rw [abort_eq]
    split
    · exact hi.idle
    · rw [heads_refresh]
      intro x hx hr
      have ht := isTerminal_of_mem_stopAll hx
      rw [Head.isTerminal, hr] at ht
      cases ht
  · rw [abort_eq]
    split
    · exact hi.live
    · exact live_refresh

/-- What a machine leaves behind when it has run all heads is at rest. -/
theorem Sound.rests (hi : i.Sound program Safe J) (hidle : ∀ h ∈ i.heads, h.state ≠ .ready) :
    i.refresh.Rests program Safe J :=
  ⟨hi.refresh, by rwa [heads_refresh], live_refresh⟩

theorem rests_outcome (hp : program.Pairs Safe J) {m : Machine} (hm : m.Sound program Safe J) :
    (m.run program).outcome.1.Rests program Safe J := by
  obtain ⟨hsound, hidle⟩ := hm.run hp
  exact hsound.rests hidle

/-- Every call leaves an instance behind that is sound and at rest. -/
theorem Reached.rests (hp : program.Pairs Safe J) (hi : i.Reached program) :
    i.Rests program Safe J := by
  induction hi with
  | start id flow priority createdAt parent bindings specificity w =>
    rw [start_eq]
    exact rests_outcome hp (Machine.sound_starting hp ..)
  | advance w id e before moved ih =>
    rw [advance?_eq] at moved
    obtain ⟨m, ha, rfl⟩ := Option.map_eq_some_iff.1 moved
    exact rests_outcome hp (Machine.sound_advancing hp ih.sound ih.idle ha)
  | abort reason before ih => exact ih.abort reason

end Instance

theorem Machine.Passed.sound {program : Program} {Safe : Nat → Prop} {J : Nat → List Nat}
    {m : Machine} (hp : program.Pairs Safe J) (hm : m.Passed program) :
    m.Sound program Safe J := by
  induction hm with
  | start => exact sound_starting hp ..
  | advance w id e before set =>
    have hrests := before.rests hp
    exact sound_advancing hp hrests.sound hrests.idle set
  | step before step ih => exact ih.step hp step

end EventFlow

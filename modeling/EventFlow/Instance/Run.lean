import EventFlow.Instance.Weight

/-!
# Running an instance

A `Machine` is an instance on the move: a queue of heads to run, the one in front until it waits or
has come to its end.  `step?` executes one instruction or drops the head in front; every step makes
the machine lighter (`measure_lt_of_step?`), so `run` ends, whatever the heads.  The exception is a
head at a fork without branches, which stays there for ever (`stalls`): a run that comes to this is
broken off.

Instances are set going by `start` when they are new, and by `advance?` when an event arrives that
one of their heads expects.
-/

set_option autoImplicit false

namespace EventFlow

variable {Compiled Found : Type} [Query.Library Compiled Found]

/-- An instance on the move. -/
structure Machine where
  inst : Instance
  world : World
  /-- What its heads have asked for so far. -/
  effects : Effects
  /-- The heads to run, the one that is running in front. -/
  queue : List HeadId

namespace Machine

/-- Queue the head that goes on behind a join, unless it is the one that is running. -/
def wake (queue : List HeadId) (running : HeadId) : Option HeadId → List HeadId
  | some id => if id = running then queue else queue ++ [id]
  | none => queue

/-- Let the head at a place in the list execute its instruction. -/
def turn (program : Program) (m : Machine) (k : Nat) (h : Head) : Machine :=
  let (turn, world, effects) := m.inst.execute m.world h (program.fetch h.position)
  let effects := m.effects.append effects
  match turn with
  | .become h' => { m with inst := m.inst.setHead k h', world, effects }
  | .abort reason => { m with inst := m.inst.abortHead k h reason, world, effects }
  | .split first others =>
    let (inst, spawned) := m.inst.fork k h first others
    ⟨inst, world, effects.append (.ofHeads spawned), m.queue ++ spawned⟩
  | .arrive =>
    let (inst, next) := m.inst.arrive k h
    ⟨inst, world, effects, wake m.queue h.id next⟩

/-- One step; none when the queue is empty. -/
def step? (program : Program) (m : Machine) : Option Machine :=
  match m.queue with
  | [] => none
  | id :: rest =>
    match m.inst.slot? id with
    | some (h, k) =>
      if h.state.isReady then some (m.turn program k h) else some { m with queue := rest }
    | none => some { m with queue := rest }

/-- Whether the head in front is about to fork without branches, and so to do the same again. -/
def stalls (program : Program) (m : Machine) : Bool :=
  match m.queue.head?.bind m.inst.slot? with
  | some (h, _) =>
    match program.fetch h.position with
    | .fork [] => h.state.isReady
    | _ => false
  | none => false

/-- What a machine still has to do. -/
def measure (program : Program) (m : Machine) : Nat := m.inst.weight program + m.queue.length

theorem getElem?_of_slot? {i : Instance} {id : HeadId} {h : Head} {k : Nat}
    (hs : i.slot? id = some (h, k)) : i.heads[k]? = some h :=
  Instance.getElem?_of_mem_zipIdx (List.mem_of_find?_eq_some hs)

theorem state_of_isReady {s : HeadState} (h : s.isReady = true) : s = .ready := by
  cases s <;> simp_all [HeadState.isReady]

/-- A head that goes on behind its instruction has become lighter. -/
theorem weight_advance_lt {program : Program} {h h' : Head} (hr : h.state = .ready)
    (hne : program.fetch h.position ≠ .finish) (hp : h'.position = h.position + 1) :
    h'.weight program < h.weight program := by
  have hlt := Program.weight_succ_lt hne
  have hh : h.weight program = 2 * program.weight h.position + 1 := by simp [Head.weight, hr]
  have hh' : h'.weight program ≤ 2 * program.weight h'.position + 1 := by
    unfold Head.weight
    split <;> omega
  rw [hp] at hh'
  omega

/-- A head that goes on at a target of its instruction has become lighter. -/
theorem weight_goTo_lt {program : Program} {h : Head} {t : Nat} (hr : h.state = .ready)
    (ht : t ∈ (program.fetch h.position).targets) :
    (h.goTo t).weight program < h.weight program := by
  have hlt := Program.weight_lt_of_mem ht
  have hh : h.weight program = 2 * program.weight h.position + 1 := by simp [Head.weight, hr]
  have hh' : (h.goTo t).weight program = 2 * program.weight t + 1 := by
    simp [Head.weight, Head.goTo, hr]
  omega

/-- A head that waits or has come to its end weighs nothing. -/
theorem weight_lt_of_ready {program : Program} {h h' : Head} (hr : h.state = .ready)
    (h0 : h'.weight program = 0) : h'.weight program < h.weight program := by
  have hh : h.weight program = 2 * program.weight h.position + 1 := by simp [Head.weight, hr]
  omega

theorem position_bind (v : Variable) (value : Json) (h : Head) (w : World) :
    (bind v value h w).1.position = h.position := by
  unfold bind
  split <;> rfl

theorem position_bindOption (v : Option Variable) (value : Json) (h : Head) (w : World) :
    (bindOption v value h w).1.position = h.position := by
  unfold bindOption
  split
  · exact position_bind ..
  · rfl

/-- An instruction that keeps its head makes it lighter, unless it is a fork without branches. -/
theorem weight_lt_of_execute {program : Program} {i : Instance} {w : World} {h h' : Head}
    (hr : h.state = .ready) (hfork : program.fetch h.position ≠ .fork [])
    (he : (i.execute w h (program.fetch h.position)).1 = .become h') :
    h'.weight program < h.weight program := by
  have hnext (x : Head) (hx : x.position = h.position)
      (hne : program.fetch h.position ≠ .finish) : x.advance.weight program < h.weight program :=
    weight_advance_lt hr hne (by simp [Head.advance, Head.goTo, hx])
  have htarget (t : Nat) (ht : t ∈ (program.fetch h.position).targets) :
      (h.goTo t).weight program < h.weight program := weight_goTo_lt hr ht
  generalize hi : program.fetch h.position = instr at he hnext htarget hfork
  cases instr with
  | expect pattern =>
    cases he
    exact weight_lt_of_ready hr rfl
  | race arms =>
    cases he
    exact weight_lt_of_ready hr rfl
  | send event =>
    simp only [Instance.execute, Instance.executeSend] at he
    split at he
    · cases he
    · cases he
      exact hnext h rfl (by simp)
  | call spec =>
    simp only [Instance.execute, Instance.executeCall] at he
    split at he
    · cases he
    · split at he
      · cases he
        exact weight_lt_of_ready hr rfl
      · cases he
        exact hnext _ (position_bindOption ..) (by simp)
  | branch condition otherwise =>
    simp only [Instance.execute] at he
    split at he
    · cases he
      exact hnext h rfl (by simp)
    · cases he
      exact htarget _ (by simp [Instruction.targets])
    · cases he
  | jump target =>
    cases he
    exact htarget _ (by simp [Instruction.targets])
  | fork starts =>
    cases starts with
    | nil => exact absurd rfl hfork
    | cons => cases he
  | join => cases he
  | assign target value =>
    simp only [Instance.execute] at he
    split at he
    · cases he
      exact hnext _ (position_bind ..) (by simp)
    · cases he
  | startTimer duration timer =>
    cases he
    exact hnext _ (position_bindOption ..) (by simp)
  | startFlow flow child =>
    cases he
    exact hnext _ (position_bindOption ..) (by simp)
  | abort reason => cases he
  | finish =>
    cases he
    exact weight_lt_of_ready hr rfl

theorem eq_fork_of_execute {i : Instance} {w : World} {h : Head} {instr : Instruction}
    {first : Nat} {others : List Nat} (he : (i.execute w h instr).1 = .split first others) :
    instr = .fork (first :: others) := by
  cases instr with
  | fork starts => cases starts <;> cases he; rfl
  | _ =>
    simp only [Instance.execute, Instance.executeSend, Instance.executeCall] at he
    repeat' split at he
    all_goals cases he

theorem eq_join_of_execute {i : Instance} {w : World} {h : Head} {instr : Instruction}
    (he : (i.execute w h instr).1 = .arrive) : instr = .join := by
  cases instr with
  | join => rfl
  | fork starts => cases starts <;> cases he
  | _ =>
    simp only [Instance.execute, Instance.executeSend, Instance.executeCall] at he
    repeat' split at he
    all_goals cases he

theorem length_wake (queue : List HeadId) (running : HeadId) (next : Option HeadId) :
    (wake queue running next).length = queue.length + Instance.wakes running next := by
  cases next with
  | none => rfl
  | some id =>
    simp only [wake, Instance.wakes]
    split <;> simp

theorem measure_turn_lt {program : Program} {m : Machine} {k : Nat} {h : Head}
    (hk : m.inst.heads[k]? = some h) (hr : h.state = .ready)
    (hfork : program.fetch h.position ≠ .fork []) :
    (m.turn program k h).measure program < m.measure program := by
  unfold turn measure
  generalize he : m.inst.execute m.world h (program.fetch h.position) = r
  obtain ⟨turn, world, effects⟩ := r
  cases turn with
  | become h' =>
    have hlt := weight_lt_of_execute hr hfork (show _ = Turn.become h' by rw [he])
    have hset := @Instance.weight_setHead program _ _ _ h' hk
    simp only
    omega
  | abort reason =>
    have := @Instance.weight_abortHead_lt program _ _ _ reason hk hr
    simp only
    omega
  | split first others =>
    have hf := eq_fork_of_execute (show _ = Turn.split first others by rw [he])
    have := Instance.weight_fork_lt hk hr hf
    simp only [List.length_append]
    omega
  | arrive =>
    have hf := eq_join_of_execute (show _ = Turn.arrive by rw [he])
    have := Instance.weight_arrive_lt hk hr hf
    simp only [length_wake]
    omega

/-- Every step of a machine that does not stall makes it lighter. -/
theorem measure_lt_of_step? {program : Program} {m m' : Machine} (hm : ¬m.stalls program = true)
    (h : m.step? program = some m') : m'.measure program < m.measure program := by
  unfold step? at h
  split at h
  · cases h
  · next id rest hq =>
    have hdrop : ({ m with queue := rest } : Machine).measure program < m.measure program := by
      simp [measure, hq]
    split at h
    · next x k hs =>
      split at h
      · next hr =>
        cases h
        refine measure_turn_lt (getElem?_of_slot? hs) (state_of_isReady hr) fun hfork => hm ?_
        simp only [stalls, hq, List.head?_cons, Option.bind_some, hs, hfork]
        exact hr
      · cases h
        exact hdrop
    · cases h
      exact hdrop

/-- Run a machine until its queue is empty, or until it stalls. -/
def run (program : Program) (m : Machine) : Machine :=
  if m.stalls program then m
  else
    match _h : m.step? program with
    | none => m
    | some m' => run program m'
termination_by m.measure program
decreasing_by exact measure_lt_of_step? (by assumption) (by assumption)

end Machine

namespace Instance

/-- What has become of an instance that has moved. -/
inductive Reaction
  | progressed
  | finished
  | aborted (reason : String)

/-- What has become of an instance, by its status. -/
def reaction (i : Instance) : Reaction :=
  match i.status with
  | .finished => .finished
  | .aborted => .aborted (i.abortReason.getD "")
  | _ => .progressed

/-- Run some heads and bring the status up to date. -/
def runHeads (program : Program) (i : Instance) (w : World) (queue : List HeadId) :
    Instance × World × Effects :=
  let m := Machine.run program ⟨i, w, .none, queue⟩
  (m.inst.refresh, m.world, m.effects)

/-- Run a new instance until all its heads wait or have come to their ends. -/
def start (program : Program) (i : Instance) (w : World) : Instance × World × Effects :=
  i.runHeads program w ((i.heads.filter (·.state.isReady)).map Head.id)

/-- A head on its way again after an event; the event's payload goes into the head's variable. -/
def resume (h : Head) (m : HeadMatch) (e : Event) (w : World) : Head × World :=
  bindOption m.result (.obj e.payload)
    { h with
      bindings := m.bindings
      position := m.resume
      specificity := m.specificity
      state := .ready }
    w

/-- Move a head by an event it expects and run it; none when it does not expect the event. -/
def advance? (program : Program) (i : Instance) (w : World) (id : HeadId) (e : Event) :
    Option (Instance × World × Effects) := do
  if i.isDeafTo e then none
  let (h, k) ← i.slot? id
  let m ← h.match? e
  let (h, w) := resume h m e w
  return (i.setHead k h).runHeads program w [id]

end Instance

end EventFlow

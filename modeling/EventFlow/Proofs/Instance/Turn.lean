import EventFlow.Instance.Run
import EventFlow.Proofs.Flow.Valid

/-!
# What a step of a machine can do

A machine executes one instruction at a time, and there are few things an instruction can do to the
heads of an instance: let the one that executes it go on, abort it, fork it, or have it arrive at a
join.  This file says so once and for all, so that an invariant of running needs one argument for
each of them and never looks at the instructions again.

## What is here

* `Head.Stands` says that the state of a head fits the instruction it has come to: what it waits for
  leads to an exit of that instruction, a join waits at a join, and only the end finishes a head.
* `Head.GoesOn` relates a head and what an instruction that concerns no other head makes of it;
  `goesOn_of_execute` proves that this is all such an instruction does.
* `Instruction.Leaves` says what a head may wait for when it has executed an instruction.
* `Effects.Asks` says that among the effects is a call that a head waits for; a head that comes to
  wait for a result has just made a call (`call_of_execute`) and asked for it (`asks_of_execute`).
* `Machine.Runs` names the head a machine is about to run.  **`Machine.step?_cases`** lists what a
  step does: it drops the head in front of the queue, or is one of the four things `Machine.Turns`.
* `Machine.run_of_step` carries what every step keeps to the end of a run.
-/

set_option autoImplicit false

namespace EventFlow

variable {Compiled Found : Type} [Query.Library Compiled Found]

/-! ## Heads -/

/-- The state of a head fits the instruction it stands at. -/
def Head.Stands (program : Program) (h : Head) : Prop :=
  match h.state with
  | .ready | .aborted _ => True
  | .expecting expectations => ∀ x ∈ expectations, x.resume ∈ program.exits h.position
  | .waiting _ _ resume => resume ∈ program.exits h.position
  | .atJoin group =>
    program.fetch h.position = .join ∧ ∃ b bs, h.branches = b :: bs ∧ b.group = group
  | .finished => program.fetch h.position = .finish

/-- Whatever a head waits for leads to an exit of its instruction; no aborted head waits. -/
theorem Head.Stands.resume {program : Program} {h : Head} {x : Expectation}
    (hst : h.Stands program) (hx : x ∈ h.expectations) :
    x.resume ∈ program.exits h.position ∧ h.state.isAborted = false := by
  rw [Head.Stands] at hst
  rw [Head.expectations] at hx
  cases hs : h.state with
  | expecting xs =>
    rw [hs] at hst hx
    exact ⟨hst x hx, rfl⟩
  | waiting n v r =>
    rw [hs] at hst hx
    obtain rfl := List.mem_singleton.1 hx
    exact ⟨hst, rfl⟩
  | _ =>
    rw [hs] at hx
    cases hx

/-- What is left of a head when an instruction that concerns no other head has been executed. -/
structure Head.GoesOn (program : Program) (h h' : Head) : Prop where
  id : h'.id = h.id
  branches : h'.branches = h.branches
  position : h'.position = h.position ∨ h'.position ∈ program.exits h.position
  stands : h'.Stands program
  joining : h'.state.joining? = none
  unaborted : h'.state.isAborted = false

section GoesOn

variable {program : Program} {i : Instance} {w : World} {h h' : Head}

theorem bind_head (v : Variable) (value : Json) (h : Head) (w : World) :
    ∃ bindings, (bind v value h w).1 = { h with bindings } := by
  rw [bind]
  split <;> exact ⟨_, rfl⟩

theorem bindOption_head (v : Option Variable) (value : Json) (h : Head) (w : World) :
    ∃ bindings, (bindOption v value h w).1 = { h with bindings } := by
  unfold bindOption
  split
  · exact bind_head ..
  · exact ⟨_, rfl⟩

/-- Going on at an exit is going on. -/
theorem goesOn_goTo {bindings : Bindings} {q : Nat} (hr : h.state = .ready)
    (hq : q ∈ program.exits h.position) :
    h.GoesOn program (Head.goTo { h with bindings } q) where
  id := rfl
  branches := rfl
  position := .inr hq
  stands := by simp [Head.Stands, Head.goTo, hr]
  joining := by simp [Head.goTo, hr, HeadState.joining?]
  unaborted := by simp [Head.goTo, hr, HeadState.isAborted]

/-- An instruction that keeps its head lets it go on. -/
theorem goesOn_of_execute (hr : h.state = .ready) (hne : program.fetch h.position ≠ .fork [])
    (he : (i.execute w h (program.fetch h.position)).1 = .become h') : h.GoesOn program h' := by
  have hnext {bindings : Bindings} (hp : h.position + 1 ∈ program.exits h.position) :
      h.GoesOn program (Head.advance { h with bindings }) := goesOn_goTo hr hp
  have htarget {q : Nat} (hq : q ∈ program.exits h.position) :
      h.GoesOn program (h.goTo q) := @goesOn_goTo program h h.bindings q hr hq
  have hstay {bindings : Bindings} {state : HeadState}
      (hs : Head.Stands program { h with bindings, state }) (hj : state.joining? = none)
      (hu : state.isAborted = false) : h.GoesOn program { h with bindings, state } :=
    ⟨rfl, rfl, .inl rfl, hs, hj, hu⟩
  have hexits : program.exits h.position = (program.fetch h.position).exits h.position := rfl
  generalize hi : program.fetch h.position = instr at he hexits hne
  cases instr with
  | expect pattern =>
    cases he
    refine hstay ?_ rfl rfl
    simp [Head.Stands, hexits, Instruction.exits]
  | race arms =>
    cases he
    refine hstay ?_ rfl rfl
    intro x hx
    obtain ⟨arm, harm, rfl⟩ := List.mem_map.1 hx
    rw [hexits]
    exact List.mem_map_of_mem harm
  | send event =>
    simp only [Instance.execute, Instance.executeSend] at he
    split at he
    · cases he
    · cases he
      exact hnext (by simp [hexits, Instruction.exits])
  | call spec =>
    simp only [Instance.execute, Instance.executeCall] at he
    split at he
    · cases he
    · next arguments _ =>
      obtain ⟨bindings, hb⟩ := bindOption_head spec.invocation (.str w.ids.nextInvocation.1.text) h
        { w with ids := w.ids.nextInvocation.2 }
      rw [hb] at he
      split at he
      · cases he
        refine hstay ?_ rfl rfl
        simp [Head.Stands, hexits, Instruction.exits]
      · cases he
        exact hnext (by simp [hexits, Instruction.exits])
  | branch condition otherwise =>
    simp only [Instance.execute] at he
    split at he
    · cases he
      exact @hnext h.bindings (by simp [hexits, Instruction.exits])
    · cases he
      exact htarget (by simp [hexits, Instruction.exits])
    · cases he
  | jump target =>
    cases he
    exact htarget (by simp [hexits, Instruction.exits])
  | fork starts =>
    cases starts with
    | nil => exact absurd rfl hne
    | cons => cases he
  | join => cases he
  | assign target value =>
    simp only [Instance.execute] at he
    split at he
    · next value _ =>
      obtain ⟨bindings, hb⟩ := bind_head target value h w
      rw [hb] at he
      cases he
      exact hnext (by simp [hexits, Instruction.exits])
    · cases he
  | startTimer duration timer =>
    obtain ⟨bindings, hb⟩ := bindOption_head timer (.str w.ids.nextTimer.1.text) h
      { w with ids := w.ids.nextTimer.2 }
    simp only [Instance.execute, hb] at he
    cases he
    exact hnext (by simp [hexits, Instruction.exits])
  | startFlow flow child =>
    obtain ⟨bindings, hb⟩ := bindOption_head child (.str w.ids.nextInstance.1.text) h
      { w with ids := w.ids.nextInstance.2 }
    simp only [Instance.execute, hb] at he
    cases he
    exact hnext (by simp [hexits, Instruction.exits])
  | abort reason => cases he
  | finish =>
    cases he
    exact hstay hi rfl rfl

/-! ## Calls -/

/-- An emission is a call of a head of an instance. -/
def Emission.Asks (m : Emission) (i : InstanceId) (h : HeadId) (n : InvocationId) : Prop :=
  m.instanceId = i ∧ ∃ r, m.intent = .call r ∧ r.invocation = n ∧ r.head = h

/-- Among some effects is a call of a head. -/
def Effects.Asks (f : Effects) (i : InstanceId) (h : HeadId) (n : InvocationId) : Prop :=
  ∃ m ∈ f.emissions, m.Asks i h n

theorem Effects.Asks.append_right {f f' : Effects} {id : InstanceId} {head : HeadId}
    {n : InvocationId} (hf : f'.Asks id head n) : (f.append f').Asks id head n := by
  obtain ⟨m, hm, hrest⟩ := hf
  exact ⟨m, List.mem_append_right _ hm, hrest⟩

/-- What a head may do when it has executed an instruction: go on, wait for the events that the
instruction names, wait for the result of a call, or nothing. -/
inductive Instruction.Leaves (instr : Instruction) : HeadState → Prop
  | ready : Leaves instr .ready
  | expecting (xs : List Expectation) (patterns : xs.map Expectation.pattern = instr.patterns) :
      Leaves instr (.expecting xs)
  | waiting (spec : CallSpec) (n : InvocationId) (r : Nat) (call : instr = .call spec) :
      Leaves instr (.waiting n spec.result r)
  | finished : Leaves instr .finished

theorem leaves_of_execute {instr : Instruction} (hr : h.state = .ready)
    (he : (i.execute w h instr).1 = .become h') : instr.Leaves h'.state := by
  have hstill {bindings : Bindings} {q : Nat}
      (he : Turn.become (Head.goTo { h with bindings } q) = .become h') :
      instr.Leaves h'.state := by
    cases he
    rw [show (Head.goTo { h with bindings } q).state = h.state from rfl, hr]
    exact .ready
  cases instr with
  | expect pattern =>
    cases he
    exact .expecting _ rfl
  | race arms =>
    cases he
    exact .expecting _ List.map_map
  | call spec =>
    simp only [Instance.execute, Instance.executeCall] at he
    split at he
    · cases he
    · next arguments _ =>
      obtain ⟨bindings, hb⟩ := bindOption_head spec.invocation (.str w.ids.nextInvocation.1.text) h
        { w with ids := w.ids.nextInvocation.2 }
      rw [hb] at he
      split at he
      · rw [← Turn.become.inj he]
        exact .waiting spec _ _ rfl
      · exact hstill he
  | send event =>
    simp only [Instance.execute, Instance.executeSend] at he
    split at he
    · cases he
    · exact @hstill h.bindings _ he
  | branch condition otherwise =>
    simp only [Instance.execute] at he
    split at he
    · exact @hstill h.bindings _ he
    · exact @hstill h.bindings _ he
    · cases he
  | jump target => exact @hstill h.bindings _ he
  | fork starts =>
    cases starts with
    | nil => exact @hstill h.bindings _ he
    | cons => cases he
  | assign target value =>
    simp only [Instance.execute] at he
    split at he
    · next value _ =>
      obtain ⟨bindings, hb⟩ := bind_head target value h w
      rw [hb] at he
      exact hstill he
    · cases he
  | startTimer duration timer =>
    obtain ⟨bindings, hb⟩ := bindOption_head timer (.str w.ids.nextTimer.1.text) h
      { w with ids := w.ids.nextTimer.2 }
    simp only [Instance.execute, hb] at he
    exact hstill he
  | startFlow flow child =>
    obtain ⟨bindings, hb⟩ := bindOption_head child (.str w.ids.nextInstance.1.text) h
      { w with ids := w.ids.nextInstance.2 }
    simp only [Instance.execute, hb] at he
    exact hstill he
  | finish =>
    cases he
    exact .finished
  | join | abort => cases he

/-- A head comes to wait for a result by making a call, and for the variable that the call names. -/
theorem call_of_execute {instr : Instruction} {n : InvocationId} {v : Option Variable} {r : Nat}
    (hr : h.state = .ready) (he : (i.execute w h instr).1 = .become h')
    (hw : h'.state = .waiting n v r) : ∃ spec, instr = .call spec ∧ spec.result = v := by
  have hleaves := leaves_of_execute hr he
  rw [hw] at hleaves
  cases hleaves with
  | waiting spec _ _ hcall => exact ⟨spec, hcall, rfl⟩

/-- A head that comes to wait for a result has asked for the call. -/
theorem asks_of_execute {instr : Instruction} {n : InvocationId} {v : Option Variable} {r : Nat}
    (hr : h.state = .ready) (he : (i.execute w h instr).1 = .become h')
    (hw : h'.state = .waiting n v r) : (i.execute w h instr).2.2.Asks i.id h.id n := by
  obtain ⟨spec, rfl, -⟩ := call_of_execute hr he hw
  simp only [Instance.execute, Instance.executeCall] at he ⊢
  split at he
  · cases he
  · next arguments _ =>
    obtain ⟨bindings, hb⟩ := bindOption_head spec.invocation (.str w.ids.nextInvocation.1.text) h
      { w with ids := w.ids.nextInvocation.2 }
    rw [hb] at he ⊢
    split at he
    · rw [← Turn.become.inj he] at hw
      injection hw with hn
      exact ⟨_, List.mem_singleton_self _, rfl, _, rfl, hn, rfl⟩
    · cases he
      rw [show (Head.advance { h with bindings }).state = h.state from rfl, hr] at hw
      cases hw

end GoesOn

/-! ## Machines -/

namespace Machine

variable {program : Program} {m m' : Machine} {h : Head} {k : Nat}

/-- The machine is about to let the head `h`, at the place `k`, execute an instruction. -/
structure Runs (m : Machine) (h : Head) (k : Nat) : Prop where
  queue : ∃ rest, m.queue = h.id :: rest
  place : m.inst.slot? h.id = some (h, k)
  ready : h.state = .ready

theorem Runs.getElem? (hm : m.Runs h k) : m.inst.heads[k]? = some h :=
  getElem?_of_slot? hm.place

theorem Runs.mem (hm : m.Runs h k) : h ∈ m.inst.heads := List.mem_of_getElem? hm.getElem?

/-- What the instruction does that a machine lets a head execute. -/
inductive Turns (program : Program) (m : Machine) (h : Head) (k : Nat) (m' : Machine) : Prop
  | go (h' : Head) (on : program.fetch h.position ≠ .fork [] → h.GoesOn program h')
      (id : h'.id = h.id)
      (asks : ∀ n v r, h'.state = .waiting n v r → m'.effects.Asks m.inst.id h.id n)
      (inst : m'.inst = m.inst.setHead k h') (queue : m'.queue = m.queue)
      (calls : ∀ n v r, h'.state = .waiting n v r →
        ∃ spec, program.fetch h.position = .call spec ∧ spec.result = v)
  | abort (reason : String) (inst : m'.inst = m.inst.abortHead k h reason)
      (queue : m'.queue = m.queue)
  | fork (first : Nat) (others : List Nat)
      (fetch : program.fetch h.position = .fork (first :: others))
      (inst : m'.inst = (m.inst.fork k h first others).1)
      (queue : m'.queue = m.queue ++ (m.inst.fork k h first others).2)
  | arrive (fetch : program.fetch h.position = .join) (inst : m'.inst = (m.inst.arrive k h).1)
      (queue : m'.queue = wake m.queue h.id (m.inst.arrive k h).2)

theorem turns_turn (hr : h.state = .ready) : m.Turns program h k (m.turn program k h) := by
  rw [turn]
  generalize he : m.inst.execute m.world h (program.fetch h.position) = r
  obtain ⟨turn, world, effects⟩ := r
  cases turn with
  | become h' =>
    have hid : h'.id = h.id := by
      by_cases hf : program.fetch h.position = .fork []
      · rw [hf] at he
        cases he
        rfl
      · exact (goesOn_of_execute hr hf (congrArg Prod.fst he)).id
    refine .go h' (fun hne => goesOn_of_execute hr hne (congrArg Prod.fst he)) hid ?_ rfl rfl
      fun n v r hw => call_of_execute hr (congrArg Prod.fst he) hw
    intro n v r hw
    have hasks := asks_of_execute hr (congrArg Prod.fst he) hw
    rw [he] at hasks
    exact hasks.append_right
  | abort reason => exact .abort reason rfl rfl
  | split first others =>
    exact .fork first others (eq_fork_of_execute (congrArg Prod.fst he)) rfl rfl
  | arrive => exact .arrive (eq_join_of_execute (congrArg Prod.fst he)) rfl rfl

/-- A step drops the head in front of the queue because that is not ready, or lets it take its
turn. -/
theorem step?_eq (hs : m.step? program = some m') :
    (∃ id rest, m.queue = id :: rest ∧ m' = { m with queue := rest } ∧
      ∀ h k, m.inst.slot? id = some (h, k) → h.state ≠ .ready) ∨
    ∃ h k, m.Runs h k ∧ m' = m.turn program k h := by
  rw [step?] at hs
  split at hs
  · cases hs
  · next id rest hq =>
    split at hs
    · next h k hslot =>
      split at hs
      · next hr =>
        cases hs
        have hid : h.id = id := by
          have := List.find?_some hslot
          simpa using this
        subst hid
        exact .inr ⟨h, k, ⟨⟨rest, hq⟩, hslot, state_of_isReady hr⟩, rfl⟩
      · next hr =>
        cases hs
        refine .inl ⟨id, rest, hq, rfl, ?_⟩
        rintro h' k' hslot' hready
        rw [hslot] at hslot'
        cases hslot'
        exact hr (by rw [hready]; rfl)
    · next hslot =>
      cases hs
      exact .inl ⟨id, rest, hq, rfl, fun h k hslot' => by rw [hslot] at hslot'; cases hslot'⟩

/-- **What a step does**: it drops the head in front of the queue because that is not ready, or lets
it execute an instruction. -/
theorem step?_cases (hs : m.step? program = some m') :
    (∃ id rest, m.queue = id :: rest ∧ m'.inst = m.inst ∧ m'.queue = rest ∧
      ∀ h k, m.inst.slot? id = some (h, k) → h.state ≠ .ready) ∨
    ∃ h k, m.Runs h k ∧ m.Turns program h k m' := by
  rcases step?_eq hs with ⟨id, rest, hq, rfl, hidle⟩ | ⟨h, k, hr, rfl⟩
  · exact .inl ⟨id, rest, hq, rfl, rfl, hidle⟩
  · exact .inr ⟨h, k, hr, turns_turn hr.ready⟩

/-- A head that a machine is about to run does execute its instruction. -/
theorem Runs.step? (hm : m.Runs h k) : m.step? program = some (m.turn program k h) := by
  obtain ⟨rest, hq⟩ := hm.queue
  rw [Machine.step?]
  rw [hq]
  simp only [hm.place, hm.ready, HeadState.isReady, if_true]

/-- What every step keeps holds at the end of a run. -/
theorem run_of_step {P : Machine → Prop}
    (hstep : ∀ m m', P m → m.step? program = some m' → P m') (hm : P m) : P (m.run program) := by
  fun_induction run program m with
  | case1 m _ | case2 m _ _ => exact hm
  | case3 m _ m' hs ih => exact ih (hstep m m' hm hs)

/-- A machine stops when its queue is empty. -/
theorem queue_of_stopped (hs : m.step? program = none) : m.queue = [] := by
  rw [step?] at hs
  split at hs
  · assumption
  · split at hs
    · split at hs <;> cases hs
    · cases hs

/-- A machine does not stall if the forks that its heads stand at have branches. -/
theorem not_stalls (hm : ∀ h ∈ m.inst.heads, program.fetch h.position ≠ .fork []) :
    ¬m.stalls program = true := by
  rw [stalls]
  split
  · next h k hslot =>
    obtain ⟨id, -, hslot⟩ := Option.bind_eq_some_iff.1 hslot
    split
    · next hfork => exact absurd hfork (hm h (List.mem_of_getElem? (getElem?_of_slot? hslot)))
    · exact Bool.false_ne_true
  · exact Bool.false_ne_true

/-- A run ends when the queue is empty, if no machine stalls on the way. -/
theorem queue_run {P : Machine → Prop} (hstep : ∀ m m', P m → m.step? program = some m' → P m')
    (hstalls : ∀ m, P m → ¬m.stalls program = true) (hm : P m) : (m.run program).queue = [] := by
  fun_induction run program m with
  | case1 m hstall => exact absurd hstall (hstalls m hm)
  | case2 m _ hs => exact queue_of_stopped hs
  | case3 m _ m' hs ih => exact ih (hstep m m' hm hs)

end Machine

end EventFlow

import EventFlow.Proofs.Instance.Running

/-!
# What an instance has been through

The heads of an instance are there now; which head made a fork, and which heads have come to its
join, is over.  A `Chronicle` remembers it.  It is written while a machine runs, by looking at the
instruction that is executed next (`Chronicle.after`), and nothing that runs ever reads it.

## What is here

* `Machine.Recorded` and `Instance.Recorded` are machines and instances with the chronicle of the
  calls that have led to them.  Leaving the chronicles out gives `Machine.Passed` and
  `Instance.Reached` again (`Machine.Passed.recorded`, `Instance.Reached.recorded`).
* `Machine.Tells` lists what a step does to an instance and its chronicle at once; `tells_of_step`
  proves that this is all it does.
-/

set_option autoImplicit false

namespace EventFlow

variable {Compiled Found : Type} [Query.Library Compiled Found]

/-- What has happened to the forks of an instance so far. -/
structure Chronicle where
  /-- What the first head knew when it started. -/
  known : Bindings
  /-- The heads that have forked, as they were then; a fork has the number of its place here. -/
  forks : List Head
  /-- The heads that have come to a join, as they were then, each with the fork it came from. -/
  arrivals : List (Nat × Head)
  /-- The forks whose join has completed. -/
  joins : List Nat

/-- The head that executes the next instruction of a machine, and its place. -/
def Machine.running? (m : Machine) : Option (Head × Nat) :=
  (m.queue.head?.bind m.inst.slot?).filter (·.1.state.isReady)

namespace Chronicle

/-- The chronicle of an instance that starts. -/
def opening (known : Bindings) : Chronicle := ⟨known, [], [], []⟩

/-- A head forks. -/
def fork (c : Chronicle) (h : Head) : Chronicle := { c with forks := c.forks ++ [h] }

/-- A head comes to a join. -/
def arrive (c : Chronicle) (g : Nat) (h : Head) : Chronicle :=
  { c with arrivals := c.arrivals ++ [(g, h)] }

/-- A join completes. -/
def join (c : Chronicle) (g : Nat) : Chronicle := { c with joins := c.joins ++ [g] }

/-- The chronicle behind the next step of a machine. -/
def after (program : Program) (c : Chronicle) (m : Machine) : Chronicle :=
  match m.running? with
  | none => c
  | some (h, k) =>
    match program.fetch h.position, h.branches with
    | .fork (_ :: _), _ => c.fork h
    | .join, b :: _ =>
      if (m.inst.arrive k h).2.isSome then (c.arrive b.group h).join b.group
      else c.arrive b.group h
    | _, _ => c

end Chronicle

mutual

/-- The machines that calls pass through, each with what its instance has been through. -/
inductive Machine.Recorded (program : Program) : Chronicle → Machine → Prop
  | start (id : InstanceId) (flow : FlowId) (priority : Int) (createdAt : Nat)
      (parent : Option InstanceId) (bindings : Bindings) (specificity : Nat) (w : World) :
      Machine.Recorded program (.opening (Dict.ofList bindings))
        (.starting (.spawn id flow priority createdAt parent bindings specificity) w)
  | advance {c : Chronicle} {i : Instance} (w : World) (id : HeadId) (e : Event) {m : Machine}
      (before : Instance.Recorded program c i) (set : Machine.advancing? i w id e = some m) :
      Machine.Recorded program c m
  | step {c : Chronicle} {m m' : Machine} (before : Machine.Recorded program c m)
      (step : m.step? program = some m') : Machine.Recorded program (c.after program m) m'

/-- The instances that calls lead to, each with what it has been through. -/
inductive Instance.Recorded (program : Program) : Chronicle → Instance → Prop
  | rest {c : Chronicle} {m : Machine} (before : Machine.Recorded program c m)
      (stopped : m.step? program = none) : Instance.Recorded program c m.inst.refresh
  | abort {c : Chronicle} {i : Instance} (reason : String)
      (before : Instance.Recorded program c i) : Instance.Recorded program c (i.abort reason)

end

section Recorded

open Instance

variable {program : Program} {Safe : Nat → Prop} {J : Nat → List Nat} {c c' : Chronicle}
  {m m' : Machine} {i : Instance} {h : Head} {k : Nat}

/-! ## Every run has a chronicle -/

theorem Machine.Recorded.run (hm : m.Recorded program c) :
    ∃ c', (m.run program).Recorded program c' :=
  run_of_step (P := fun m => ∃ c, m.Recorded program c)
    (fun _ _ ⟨_, hm⟩ hs => ⟨_, hm.step hs⟩) ⟨c, hm⟩

theorem Machine.Recorded.outcome (hforks : ∀ p, program.fetch p ≠ .fork [])
    (hm : m.Recorded program c) : ∃ c', (m.run program).outcome.1.Recorded program c' := by
  obtain ⟨c', hrun⟩ := hm.run
  refine ⟨c', .rest hrun ?_⟩
  rw [step?, queue_run (P := fun _ => True) (fun _ _ _ _ => trivial)
    (fun m _ => not_stalls fun h _ => hforks h.position) trivial]

theorem Instance.Reached.recorded (hforks : ∀ p, program.fetch p ≠ .fork [])
    (hi : i.Reached program) : ∃ c, i.Recorded program c := by
  induction hi with
  | start id flow priority createdAt parent bindings specificity w =>
    rw [start_eq]
    exact (Machine.Recorded.start ..).outcome hforks
  | advance w id e before moved ih =>
    obtain ⟨c, hi⟩ := ih
    rw [advance?_eq] at moved
    obtain ⟨m, ha, rfl⟩ := Option.map_eq_some_iff.1 moved
    exact (Machine.Recorded.advance w id e hi ha).outcome hforks
  | abort reason before ih =>
    obtain ⟨c, hi⟩ := ih
    exact ⟨c, hi.abort reason⟩

theorem Machine.Passed.recorded (hforks : ∀ p, program.fetch p ≠ .fork [])
    (hm : m.Passed program) : ∃ c, m.Recorded program c := by
  induction hm with
  | start => exact ⟨_, .start ..⟩
  | advance w id e before set =>
    obtain ⟨c, hi⟩ := before.recorded hforks
    exact ⟨c, .advance w id e hi set⟩
  | step before step ih =>
    obtain ⟨c, hm⟩ := ih
    exact ⟨_, hm.step step⟩

/-! ## What a step adds -/

theorem running?_eq_some : m.running? = some (h, k) ↔ m.Runs h k := by
  rw [Machine.running?, Option.filter_eq_some_iff, Option.bind_eq_some_iff]
  constructor
  · rintro ⟨⟨id, hid, hslot⟩, hr⟩
    have he : h.id = id := by
      have := List.find?_some hslot
      simpa using this
    subst he
    obtain ⟨rest, hq⟩ := List.head?_eq_some_iff.1 hid
    exact ⟨⟨rest, hq⟩, hslot, Machine.state_of_isReady hr⟩
  · rintro ⟨⟨rest, hq⟩, hslot, hr⟩
    exact ⟨⟨h.id, by rw [hq]; rfl, hslot⟩, by rw [hr]; rfl⟩

/-- Nothing is written down of an instruction that neither forks nor joins. -/
theorem Chronicle.after_eq_self (c : Chronicle) (hr : m.Runs h k)
    (hjoin : program.fetch h.position ≠ .join)
    (hfork : ∀ first others, program.fetch h.position ≠ .fork (first :: others)) :
    c.after program m = c := by
  rw [after, running?_eq_some.2 hr]
  simp only
  split
  · next hfetch => exact absurd hfetch (hfork _ _)
  · next hfetch _ => exact absurd hfetch hjoin
  · rfl

/-- What a step does to an instance and its chronicle: the machine drops a head that is not ready,
or the head goes on, is aborted, forks, waits at a join or completes it. -/
inductive Machine.Tells (program : Program) (c : Chronicle) (m : Machine) :
    Chronicle → Machine → Prop
  | idle {m' : Machine} (inst : m'.inst = m.inst) : Machine.Tells program c m c m'
  | go {m' : Machine} (h h' : Head) (k : Nat) (runs : m.Runs h k) (on : h.GoesOn program h')
      (made : (m.inst.execute m.world h (program.fetch h.position)).1 = .become h')
      (inst : m'.inst = m.inst.setHead k h') : Machine.Tells program c m c m'
  | abort {m' : Machine} (h : Head) (k : Nat) (reason : String) (runs : m.Runs h k)
      (inst : m'.inst = m.inst.abortHead k h reason) : Machine.Tells program c m c m'
  | fork {m' : Machine} (h : Head) (k first : Nat) (others : List Nat) (runs : m.Runs h k)
      (fetch : program.fetch h.position = .fork (first :: others))
      (inst : m'.inst = (m.inst.fork k h first others).1) :
      Machine.Tells program c m (c.fork h) m'
  | wait {m' : Machine} (h : Head) (k : Nat) (b : Branch) (bs : List Branch) (runs : m.Runs h k)
      (fetch : program.fetch h.position = .join) (branches : h.branches = b :: bs)
      (inst : m'.inst = m.inst.atJoin k h b.group) :
      Machine.Tells program c m (c.arrive b.group h) m'
  | merge {m' : Machine} (h : Head) (k : Nat) (b : Branch) (bs : List Branch) (runs : m.Runs h k)
      (fetch : program.fetch h.position = .join) (branches : h.branches = b :: bs) (first : Head)
      (place : Nat) (others : List (Head × Nat))
      (waits : waiter h b.group ∈ (m.inst.atJoin k h b.group).heads)
      (arrived : (m.inst.atJoin k h b.group).arrived b.group = (first, place) :: others)
      (all : b.size ≤ others.length + 1)
      (inst : m'.inst = (m.inst.atJoin k h b.group).merge b.group first place others)
      (queue : m'.queue = wake m.queue h.id (some first.id)) :
      Machine.Tells program c m ((c.arrive b.group h).join b.group) m'

/-- **A chronicle is complete.** -/
theorem tells_of_step (hp : program.Pairs Safe J) (hm : m.Sound program Safe J)
    (hs : m.step? program = some m') (c : Chronicle) :
    m.Tells program c (c.after program m) m' := by
  rcases Machine.step?_cases hs with ⟨id, rest, hq, hinst, -, hidle⟩ | ⟨h, k, hr, -⟩
  · have hnone : m.running? = none := by
      by_contra hsome
      obtain ⟨⟨h, k⟩, hrunning⟩ := Option.ne_none_iff_exists'.1 hsome
      have hr := running?_eq_some.1 hrunning
      obtain ⟨rest', hq'⟩ := hr.queue
      rw [hq, List.cons.injEq] at hq'
      exact hidle h k (hq'.1 ▸ hr.place) hr.ready
    rw [Chronicle.after, hnone]
    exact .idle hinst
  · have hrunning := running?_eq_some.2 hr
    rw [hr.step?] at hs
    cases hs
    obtain ⟨L, hL⟩ := hm.inst.tracked
    have hfork : program.fetch h.position ≠ .fork [] := fun hfetch =>
      (hp.fork _ _ (hL h hr.mem).1 hfetch).1 rfl
    by_cases hjoin : program.fetch h.position = .join
    · obtain ⟨b, bs, hb⟩ := hm.inst.exists_branch hp hr.mem hjoin
      have hturn : m.turn program k h = ⟨(m.inst.arrive k h).1, m.world,
          m.effects.append .none, Machine.wake m.queue h.id (m.inst.arrive k h).2⟩ := by
        simp only [Machine.turn, hjoin, Instance.execute]
      rw [Chronicle.after, hrunning]
      simp only [hjoin, hb]
      rw [hturn]
      rcases arrive_cases hm.inst.distinct hr.getElem? hb with
        ⟨-, he⟩ | ⟨-, -, he⟩ | ⟨first, place, others, hw, ha, hle, he⟩ <;> rw [he]
      · exact .wait h k b bs hr hjoin hb rfl
      · exact .wait h k b bs hr hjoin hb rfl
      · exact .merge h k b bs hr hjoin hb first place others hw ha hle rfl rfl
    by_cases hsplit : ∃ first others, program.fetch h.position = .fork (first :: others)
    · obtain ⟨first, others, hfetch⟩ := hsplit
      rw [Chronicle.after, hrunning]
      simp only [hfetch]
      exact .fork h k first others hr hfetch (by simp only [Machine.turn, hfetch, execute])
    have hsame := c.after_eq_self hr hjoin fun first others hfetch =>
      hsplit ⟨first, others, hfetch⟩
    rw [hsame]
    cases hturn : (m.inst.execute m.world h (program.fetch h.position)).1 with
    | become h' =>
      exact .go h h' k hr (goesOn_of_execute hr.ready hfork hturn) hturn
        (by simp only [Machine.turn, hturn])
    | abort reason => exact .abort h k reason hr (by simp only [Machine.turn, hturn])
    | split first others =>
      exact absurd ⟨first, others, Machine.eq_fork_of_execute hturn⟩ hsplit
    | arrive => exact absurd (Machine.eq_join_of_execute hturn) hjoin

/-- What some steps of a machine make of it and of its chronicle. -/
def Machine.follow (program : Program) : Nat → Chronicle × Machine → Chronicle × Machine
  | 0, s => s
  | n + 1, s =>
    match s.2.step? program with
    | some m => follow program n (s.1.after program s.2, m)
    | none => s

theorem recorded_follow (n : Nat) (s : Chronicle × Machine) (hs : s.2.Recorded program s.1) :
    (Machine.follow program n s).2.Recorded program (Machine.follow program n s).1 := by
  induction n generalizing s with
  | zero => exact hs
  | succ n ih =>
    rw [Machine.follow]
    split
    · next m hm => exact ih _ (hs.step hm)
    · exact hs

end Recorded

end EventFlow

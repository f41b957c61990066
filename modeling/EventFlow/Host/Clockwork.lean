import EventFlow.Host.Alarm
import EventFlow.Host.Executor
import EventFlow.Host.Plan
import EventFlow.Total

/-!
# Clockworks

A `Clockwork` is an executor that does everything on one thread, with plans in place of actions, on
a clock that moves only when nothing else is left to do.  It is good for trying hosts out; nothing
that is proved of them rests on its schedule.

Who drives it and the tasks take turns.  What a task has left to do is a `Strand`.  The strands that
can go on stand in a queue, new ones at its end; in a turn a `round` of at most `roundSize` of them
go on, each until it has to sleep or its task completes.  The driver takes its next turn when
something it waits for has happened, and it waits for completions by looking at the channel first.
While it waits and the queue is empty, the clock goes to the next time at which an alarm may ring,
the driver's or that of a strand, and what wakes up joins the queue.  A driver that has waited long
enough goes on before the strands that wake up at the same time.

The driver may do `fullCredit` things in one turn, and then has to let the strands have theirs even
when it has nothing to wait for (`spend`); no time passes then.

Every time a strand goes on or wakes up there is less left to do (`effort`), and otherwise the
alarms are less far ahead (`ahead`), so waiting ends.

The strands of a clockwork that was handed over go on for nobody (`handOver`): they take part in
rounds, and what becomes of them is lost.
-/

set_option autoImplicit false

namespace EventFlow

/-- What is left to do of the work of a task. -/
structure Strand where
  /-- The task; nothing when nobody is left who would care. -/
  task : Option Nat
  arguments : Dict String Json
  plan : Plan

/-- A strand that waits for a time. -/
structure Sleeper where
  strand : Strand
  alarm : Alarm

/-- What runs plans on a clock of its own. -/
structure Clockwork where
  backend : Backend
  scripts : Scripts
  now : Nat
  /-- The strands that can go on; one that was stopped leaves its place empty. -/
  queue : List (Option Strand)
  /-- The strands that are asleep, in the order in which they fell asleep. -/
  sleepers : List Sleeper
  /-- How many things the driver may still do in its turn. -/
  credit : Nat

namespace Clockwork

/-- How many things the driver may do in one turn. -/
def fullCredit : Nat := 128

/-- A clockwork that has nothing to do, at the beginning of time. -/
def idle (scripts : Scripts) : Clockwork := ⟨.idle scripts.actions, scripts, 0, [], [], fullCredit⟩

/-- The same strands on the same clock for a new driver, to whom none of them matters. -/
def handOver (x : Clockwork) (scripts : Scripts) : Clockwork :=
  let abandon (t : Strand) : Strand := { t with task := none }
  { x with
    backend := .idle scripts.actions
    scripts
    queue := x.queue.map (·.map abandon)
    sleepers := x.sleepers.map fun s => { s with strand := abandon s.strand } }

/-- Make some moves. -/
def makes (x : Clockwork) (moves : List Move) : Clockwork :=
  { x with backend := x.backend.makes moves }

/-- Run a call, inside an asynchronous runtime or not. -/
def dispatch (x : Clockwork) (inside : Bool) (d : Dispatch) : Clockwork :=
  let strand (plan : Plan) : Strand := ⟨some x.backend.spawned, d.arguments, plan⟩
  let started := if inside then x.scripts.plan? d.action d.arguments else none
  { x.makes (x.backend.starting (.call d inside)) with
    queue := x.queue ++ (started.map fun plan => some (strand plan)).toList }

/-- Stop the strand of a task.  One that is asleep leaves an empty place at the end of the queue. -/
def halt (x : Clockwork) (task : Nat) : Clockwork :=
  if x.sleepers.any (·.strand.task = some task) then
    { x with queue := x.queue ++ [none]
             sleepers := x.sleepers.filter (·.strand.task ≠ some task) }
  else { x with queue := x.queue.map (·.filter (·.task ≠ some task)) }

/-- Stop the task under a key. -/
def stop (x : Clockwork) (key : InvocationId ⊕ TimerId) : Clockwork :=
  match Dict.get? x.backend.table key with
  | none => x
  | some k => (x.halt k).makes [.cancel key, .drop k]

/-- Start a timer, inside an asynchronous runtime or not. -/
def schedule (x : Clockwork) (inside : Bool) (timer : TimerId) (duration : Nat) : Clockwork :=
  if inside then
    { x.makes (x.backend.starting (.timer timer true)) with
      queue := x.queue ++ [some ⟨some x.backend.spawned, [], .sleep duration .echo⟩] }
  else x

/-! ## Running strands -/

/-- The task of a strand completes. -/
def settle (x : Clockwork) (ending : Finish) : Option Nat → Clockwork
  | none => x
  | some k => x.makes [.finish k ending, .clear k, .send k]

/-- Let the strand at the front of the queue go on. -/
def resume (x : Clockwork) : Option Strand → Clockwork
  | none => x
  | some t =>
    match t.plan.run t.arguments with
    | .asleep duration plan =>
      { x with sleepers := x.sleepers ++ [⟨{ t with plan }, .set x.now (x.now + duration)⟩] }
    | .done ending => x.settle ending t.task

/-- How many strands go on in one turn. -/
def roundSize : Nat := 61

/-- Let a round of strands go on. -/
def round (x : Clockwork) : Clockwork :=
  (x.queue.take roundSize).foldl resume { x with queue := x.queue.drop roundSize }

/-- All alarms, beginning with the driver's. -/
def alarms (x : Clockwork) (alarm : Alarm) : List Alarm := alarm :: x.sleepers.map Sleeper.alarm

/-- The next time at which an alarm may ring. -/
def nextStop (x : Clockwork) (alarm : Alarm) : Nat := Alarm.stop x.now (x.alarms alarm)

/-- Let the strands wake up whose alarms ring. -/
def wakeUp (x : Clockwork) (time : Nat) : Clockwork :=
  { x with
    now := max x.now time
    queue := x.queue ++ (x.sleepers.filter (·.alarm.rings time)).map fun s => some s.strand
    sleepers := (x.sleepers.filter fun s => !s.alarm.rings time).map fun s =>
      { s with alarm := s.alarm.pass time } }

/-- What a place in the queue may still have to do: falling asleep and waking up count by
themselves. -/
def placeEffort : Option Strand → Nat
  | none => 1
  | some t => 2 * t.plan.sleeps + 1

/-- What a strand that is asleep may still have to do. -/
def sleeperEffort (s : Sleeper) : Nat := 2 * s.strand.plan.sleeps + 2

/-- What all strands may still have to do. -/
def effort (x : Clockwork) : Nat := total placeEffort x.queue + total sleeperEffort x.sleepers

/-- How far all alarms are ahead. -/
def ahead (x : Clockwork) (alarm : Alarm) : Nat := total (·.time - x.now) (x.alarms alarm)

theorem effort_resume_lt (x : Clockwork) (place : Option Strand) :
    (x.resume place).effort < x.effort + placeEffort place := by
  unfold resume
  split
  · simp [placeEffort]
  · next t =>
    split
    · next h =>
      have := Plan.sleeps_run h
      simp only [effort, total_append, total_cons, total_nil, sleeperEffort, placeEffort]
      omega
    · have hsettle : ∀ (ending : Finish) (task : Option Nat),
          (x.settle ending task).effort = x.effort := by
        rintro _ (_ | _) <;> rfl
      rw [hsettle, placeEffort]
      omega

theorem effort_foldl_resume_le : ∀ (places : List (Option Strand)) (x : Clockwork),
    (places.foldl resume x).effort + places.length ≤ x.effort + total placeEffort places
  | [], x => by simp
  | place :: places, x => by
    have h := effort_foldl_resume_le places (x.resume place)
    have := effort_resume_lt x place
    simp only [List.foldl_cons, List.length_cons, total_cons] at h ⊢
    omega

theorem effort_round_lt {x : Clockwork} (h : x.queue ≠ []) : x.round.effort < x.effort := by
  have hle := effort_foldl_resume_le (x.queue.take roundSize)
    { x with queue := x.queue.drop roundSize }
  have hsplit := total_append placeEffort (x.queue.take roundSize) (x.queue.drop roundSize)
  have hpos := List.length_pos_iff.2 h
  rw [List.take_append_drop] at hsplit
  simp only [List.length_take, effort, roundSize, round] at *
  omega

theorem total_wakeUp (p : Sleeper → Bool) : ∀ l : List Sleeper,
    total placeEffort ((l.filter p).map fun s => some s.strand) + (l.filter p).length +
      total sleeperEffort (l.filter fun s => !p s) = total sleeperEffort l
  | [] => rfl
  | s :: l => by
    have := total_wakeUp p l
    cases h : p s <;> simp only [List.filter_cons, h, Bool.not_true, Bool.not_false, if_true,
      Bool.false_eq_true, if_false, List.map_cons, List.length_cons, total_cons, placeEffort,
      sleeperEffort] <;> omega

theorem effort_wakeUp (x : Clockwork) (time : Nat) :
    (x.wakeUp time).effort + (x.sleepers.filter (·.alarm.rings time)).length = x.effort := by
  have hkept : ∀ l : List Sleeper,
      total sleeperEffort (l.map fun s => { s with alarm := s.alarm.pass time }) =
        total sleeperEffort l := fun l => total_map sleeperEffort _ l
  have := total_wakeUp (·.alarm.rings time) x.sleepers
  simp only [effort, wakeUp, total_append, hkept]
  omega

theorem ahead_wakeUp_lt {x : Clockwork} {alarm a : Alarm} {time : Nat} (ha : a ∈ x.alarms alarm)
    (hnow : x.now < time) (htime : time < a.time) :
    (x.wakeUp time).ahead (alarm.pass time) < x.ahead alarm := by
  refine Nat.lt_of_le_of_lt ?_ (total_lt (f := fun b : Alarm => b.time - max x.now time) (by omega)
    (fun b _ => by omega) ha)
  have hfilter := total_filter_le (fun s : Sleeper => s.alarm.time - max x.now time)
    (fun s => !s.alarm.rings time) x.sleepers
  simp only [ahead, alarms, wakeUp, total_cons, total_map, Function.comp_def, Alarm.time_pass]
  omega

theorem wakeUp_lt {x : Clockwork} {alarm : Alarm} {time : Nat} (h : x.nextStop alarm = time)
    (hdriver : ¬ alarm.rings time) :
    Prod.Lex (· < ·) (· < ·) ((x.wakeUp time).effort, (x.wakeUp time).ahead (alarm.pass time))
      (x.effort, x.ahead alarm) := by
  have hstop := Alarm.rings_or_ahead_stop x.now (List.cons_ne_nil alarm (x.sleepers.map (·.alarm)))
  obtain ⟨a, ha, hrings⟩ := hstop
  rw [show Alarm.stop x.now (alarm :: x.sleepers.map (·.alarm)) = time from h] at hrings
  have heffort := effort_wakeUp x time
  rcases hrings with hrings | ⟨hnow, htime⟩
  · rcases List.mem_cons.1 ha with rfl | ha
    · exact absurd hrings hdriver
    · obtain ⟨s, hs, rfl⟩ := List.mem_map.1 ha
      have hwoken : s ∈ x.sleepers.filter (·.alarm.rings time) := List.mem_filter.2 ⟨hs, hrings⟩
      have := List.length_pos_of_mem hwoken
      exact Prod.Lex.left _ _ (by omega)
  · rcases Nat.lt_or_ge (x.wakeUp time).effort x.effort with hlt | hge
    · exact Prod.Lex.left _ _ hlt
    · rw [Nat.le_antisymm (by omega) hge]
      exact Prod.Lex.right _ (ahead_wakeUp_lt ha hnow htime)

/-- Let the strands go on until the driver's alarm rings, or until something is in the channel if
`eager`. -/
def advance (eager : Bool) (alarm : Alarm) (x : Clockwork) : Clockwork :=
  if _h : x.queue = [] then
    let time := x.nextStop alarm
    if _h : alarm.rings time then x.wakeUp time
    else advance eager (alarm.pass time) (x.wakeUp time)
  else if eager && !x.round.backend.channel.isEmpty then x.round
  else advance eager alarm x.round
termination_by (x.effort, x.ahead alarm)
decreasing_by
  · exact wakeUp_lt rfl _h
  · exact Prod.Lex.left _ _ (effort_round_lt _h)

/-! ## The driver's turns -/

/-- Let the strands have a turn if the driver has no credit left. -/
def afford (x : Clockwork) : Clockwork :=
  if x.credit = 0 then { x.round with credit := fullCredit } else x

/-- Do one thing. -/
def spend (x : Clockwork) : Clockwork :=
  let x := x.afford
  { x with credit := x.credit - 1 }

/-- Let the strands go on for some milliseconds, like `advance`, and take the next turn. -/
def wait (eager : Bool) (duration : Nat) (x : Clockwork) : Clockwork :=
  { advance eager (.set x.now (x.now + duration)) x with credit := fullCredit }

/-- Wait for some milliseconds.  Waiting for none is no waiting. -/
def sleep (x : Clockwork) (duration : Nat) : Clockwork :=
  let x := x.afford
  if duration = 0 then x.spend else (x.wait false duration).spend

/-- Take the first event from the channel, after waiting for it, but not longer than some
milliseconds. -/
def receive (x : Clockwork) (duration : Nat) : Option Event × Clockwork :=
  let x := x.afford
  let x := if duration = 0 || !x.backend.channel.isEmpty then x else x.wait true duration
  match x.backend.channel with
  | [] => (none, x.spend)
  | e :: _ => (some e, (x.makes [.take]).spend)

/-- Take all events from the channel. -/
def drain (x : Clockwork) : List Event × Clockwork :=
  (x.backend.channel, x.makes (x.backend.channel.map fun _ => .take))

instance : Executor Clockwork where
  backend := backend
  dispatch x d := x.dispatch true d
  cancel x n := x.stop (.inl n)
  schedule x t duration := x.schedule true t duration
  cancelTimer x t := x.stop (.inr t)
  reach := spend
  receive := receive

end Clockwork

end EventFlow

import EventFlow.Proofs.Host.Moves
import Mathlib.Data.List.Forall2

/-!
# Calls and their results

Every call that is handed to a backend is one of three things: it has been reported, once, by an
event that tells how it ended; its task is not over; or its task was stopped, because somebody
cancelled the call.  No move changes this, so it is so after any run, whatever the scheduler and the
actions do.

## What is here

* `Backend.Answers` says how a call has to end, and `Backend.Reports` which event reports that.
* `Backend.Balanced` says of each call which of the three it is.  Every step keeps it
  (`Balanced.step`), and so does **every run** (`balanced_makes`).
* **`Backend.results_of_ended`**: a call that is not cancelled, and none of whose tasks is left, has
  been reported once.
* `Backend.check_of_mem_sent`: what is sent passes the check for events.
* `Backend.map_jobs` and `Backend.started_nodup`: every call that is handed over is accounted for,
  and has a task of its own.
* `Backend.exists_tasks_eq_nil`: no task is ever stuck.
* **`Backend.accounted`** puts this together.
-/

set_option autoImplicit false

namespace EventFlow

/-- Whether an event is the result of a call. -/
def Event.isResult (e : Event) : Bool := e.invocation?.isSome

/-- Whether an event is the result of the call with an invocation. -/
def Event.isResultOf (n : InvocationId) (e : Event) : Bool := e.invocation? = some n

theorem Errand.check_event (errand : Errand) (ending : Finish) :
    (errand.event ending).check = .ok () := by
  cases errand with
  | call d => exact Event.check_actionResult d.invocation d.action _
  | timer t => exact Event.check_timerFired t

/-- How many moves a task at some stage is away from its end. -/
def Task.Stage.left : Task.Stage → Nat
  | .spawned => 5
  | .registered => 4
  | .working => 3
  | .ended _ => 2
  | .cleared _ => 1

/-- The next move that a task is waiting for. -/
def Task.next (t : Task) (ending : Finish) : Move :=
  match t.stage with
  | .spawned => .register t.number
  | .registered => .arm t.number
  | .working => .finish t.number ending
  | .ended _ => .clear t.number
  | .cleared _ => .send t.number

namespace Backend

/-- How a call has to end. -/
inductive Answers (actions : Actions) (endings : List (Nat × Finish)) (j : Job) : Outcome → Prop
  /-- Nobody knows the action. -/
  | unregistered {f : Failure} (unknown : Dict.get? actions j.dispatch.action = none)
      (kind : f.kind = .unavailable) : Answers actions endings j (.failed f)
  /-- The action is called without an argument that it cannot do without. -/
  | incomplete {a : Action} {key : String} {f : Failure}
      (known : Dict.get? actions j.dispatch.action = some a) (needed : key ∈ a.required)
      (missing : Dict.get? j.dispatch.arguments key = none) (kind : f.kind = .invalidArguments) :
      Answers actions endings j (.failed f)
  /-- There is no asynchronous runtime. -/
  | outside {f : Failure} (runnable : actions.Runnable j.dispatch) (outside : j.inside = false)
      (kind : f.kind = .unavailable) : Answers actions endings j (.failed f)
  /-- The action breaks down. -/
  | panicked {k : Nat} {f : Failure} (runnable : actions.Runnable j.dispatch)
      (started : j.task = some k) (ends : (k, .panicked) ∈ endings) (kind : f.kind = .transient) :
      Answers actions endings j (.failed f)
  /-- The action returns a value. -/
  | returned {k : Nat} {value : Json} (runnable : actions.Runnable j.dispatch)
      (started : j.task = some k) (ends : (k, .returned value) ∈ endings) :
      Answers actions endings j (.completed value)
  /-- The action fails. -/
  | failed {k : Nat} {f : Failure} (runnable : actions.Runnable j.dispatch)
      (started : j.task = some k) (ends : (k, .failed f) ∈ endings) :
      Answers actions endings j (.failed f)

/-- An event is the result of a call, which ended as it had to. -/
def Reports (actions : Actions) (endings : List (Nat × Finish)) (j : Job) (e : Event) : Prop :=
  ∃ o, Answers actions endings j o ∧
    e = .actionResult j.dispatch.invocation j.dispatch.action o

/-- The calls whose tasks are not over. -/
def unfinished (b : Backend) : List Job := b.tasks.filterMap Task.job?

/-- The results of calls that were sent. -/
def results (b : Backend) : List Event := b.sent.filter Event.isResult

section Reports

variable {actions : Actions} {endings endings' : List (Nat × Finish)} {j : Job} {e : Event}
  {d : Dispatch} {f : Failure}

theorem Reports.mono (h : Reports actions endings j e) (hsub : endings ⊆ endings') :
    Reports actions endings' j e := by
  obtain ⟨o, ho, rfl⟩ := h
  refine ⟨o, ?_, rfl⟩
  cases ho with
  | unregistered unknown kind => exact .unregistered unknown kind
  | incomplete known needed missing kind => exact .incomplete known needed missing kind
  | outside runnable outside kind => exact .outside runnable outside kind
  | panicked runnable started ends kind => exact .panicked runnable started (hsub ends) kind
  | returned runnable started ends => exact .returned runnable started (hsub ends)
  | failed runnable started ends => exact .failed runnable started (hsub ends)

theorem Reports.isResult (h : Reports actions endings j e) : e.isResult = true := by
  obtain ⟨o, -, rfl⟩ := h
  rw [Event.isResult, Event.invocation?_actionResult]
  rfl

/-- A call is rejected for the reason that is given. -/
theorem reports_rejected {inside : Bool}
    (h : actions.prepare d.action d.arguments = .error f ∨
      (∃ a, actions.prepare d.action d.arguments = .ok a) ∧ inside = false ∧
        f = ⟨.unavailable, "no async runtime"⟩) :
    Reports actions endings ⟨d, inside, none⟩
      (.actionResult d.invocation d.action (.failed f)) := by
  refine ⟨_, ?_, rfl⟩
  rcases h with h | ⟨⟨a, ha⟩, rfl, rfl⟩
  · rw [Actions.prepare] at h
    split at h
    · next hunknown =>
      cases h
      exact .unregistered hunknown rfl
    · next a hknown =>
      dsimp only at h
      split at h
      · cases h
      · next hsome =>
        cases h
        obtain ⟨key, hneeded, hmissing⟩ :
            ∃ key ∈ a.required, Dict.has d.arguments key = false := by
          simpa using hsome
        exact .incomplete hknown hneeded (by simpa [Dict.has] using hmissing) rfl
  · exact .outside (runnable_of_prepare ha) rfl rfl

/-- What a task tells of a call is how its work ended. -/
theorem reports_ended {k : Nat} {ending : Finish} (hrunnable : actions.Runnable d)
    (hending : (k, ending) ∈ endings) :
    Reports actions endings ⟨d, true, some k⟩ (Errand.event ending (.call d)) := by
  refine ⟨_, ?_, rfl⟩
  cases ending with
  | returned value => exact .returned hrunnable rfl hending
  | failed f => exact .failed hrunnable rfl hending
  | panicked => exact .panicked hrunnable rfl hending rfl

end Reports

/-- Every call is one of three things. -/
structure Balanced (b : Backend) (moves : List Move) (jobs : List Job)
    (endings : List (Nat × Finish)) (done stopped : List Job) : Prop where
  balance : jobs.Perm (done ++ b.unfinished ++ stopped)
  reported : List.Forall₂ (Reports b.actions endings) done b.results
  cancelled : ∀ j ∈ stopped, .cancel (.inl j.dispatch.invocation) ∈ moves

section Balanced

variable {b b' : Backend} {moves : List Move} {jobs : List Job} {endings : List (Nat × Finish)}
  {done stopped : List Job} {t : Task} {m : Move} {job : Option Job}
  {ending : Option (Nat × Finish)}

theorem balanced_idle (actions : Actions) : (idle actions).Balanced [] [] [] [] [] :=
  ⟨.refl _, .nil, nofun⟩

/-- What a step does to calls: `more` of them are handed over, some of those that were unfinished
are `told` of in `events`, and others are `lost`. -/
theorem Balanced.next (h : b.Balanced moves jobs endings done stopped) (more told lost : List Job)
    (events : List Event) (hactions : b'.actions = b.actions)
    (hmore : (more ++ b.unfinished).Perm (told ++ b'.unfinished ++ lost))
    (hsent : b'.sent = b.sent ++ events)
    (htold : List.Forall₂ (Reports b.actions endings) told (events.filter Event.isResult))
    (hlost : ∀ j ∈ lost, .cancel (.inl j.dispatch.invocation) ∈ moves) :
    b'.Balanced (moves ++ [m]) (jobs ++ more) (endings ++ ending.toList) (done ++ told)
      (stopped ++ lost) where
  balance :=
    calc
      List.Perm (jobs ++ more) (done ++ b.unfinished ++ stopped ++ more) := h.balance.append_right _
      List.Perm _ (done ++ (more ++ b.unfinished) ++ stopped) := by
        rw [List.append_assoc, List.append_assoc, List.append_assoc, List.append_assoc more,
          ← List.append_assoc b.unfinished]
        exact List.perm_append_comm.append_left _
      List.Perm _ (done ++ (told ++ b'.unfinished ++ lost) ++ stopped) :=
        (hmore.append_left _).append_right _
      List.Perm _ (done ++ told ++ b'.unfinished ++ (stopped ++ lost)) := by
        simp only [List.append_assoc]
        exact ((List.perm_append_comm.append_left _).append_left _).append_left _
  reported := by
    have hmono : ∀ j e, Reports b.actions endings j e →
        Reports b.actions (endings ++ ending.toList) j e :=
      fun _ _ hreport => hreport.mono (List.subset_append_left _ _)
    rw [hactions, results, hsent, List.filter_append]
    exact List.rel_append (h.reported.imp hmono) (htold.imp hmono)
  cancelled j hj := by
    refine List.mem_append_left _ ?_
    rcases List.mem_append.1 hj with hj | hj
    · exact h.cancelled j hj
    · exact hlost j hj

/-- What tasks were started for does not change when one of them goes on or is stopped. -/
theorem filterMap_job?_map {f : Task → Task} (hjob : ∀ s, (f s).job? = s.job?)
    (tasks : List Task) (k : Nat) :
    (tasks.map fun s => if s.number = k then f s else s).filterMap Task.job? =
      tasks.filterMap Task.job? := by
  rw [List.filterMap_map]
  refine List.filterMap_congr fun s _ => ?_
  rw [Function.comp_apply]
  split
  · exact hjob s
  · rfl

theorem unfinished_setStage (b : Backend) (k : Nat) (stage : Task.Stage) :
    (b.setStage k stage).unfinished = b.unfinished :=
  filterMap_job?_map (f := fun s => { s with stage }) (fun _ => rfl) b.tasks k

theorem unfinished_stop (b : Backend) (key : InvocationId ⊕ TimerId) (k : Nat) :
    (b.stop key k).unfinished = b.unfinished :=
  filterMap_job?_map (f := fun s => { s with aborted := true }) (fun _ => rfl) b.tasks k

/-- A task and the others. -/
theorem Sound.perm_cons_filter (h : b.Sound moves endings) (ht : t ∈ b.tasks) :
    b.tasks.Perm (t :: b.tasks.filter (·.number ≠ t.number)) := by
  have hnodup : b.tasks.Nodup := .of_map _ h.numbers
  have hrest : (t :: b.tasks.filter (·.number ≠ t.number)).Nodup :=
    List.nodup_cons.2 ⟨fun hmem => by simpa using (List.mem_filter.1 hmem).2, hnodup.filter _⟩
  refine (List.perm_ext_iff_of_nodup hnodup hrest).2 fun s => ?_
  rw [List.mem_cons, List.mem_filter, decide_eq_true_iff]
  refine ⟨fun hs => ?_, ?_⟩
  · by_cases hnumber : s.number = t.number
    · exact .inl (h.eq_of_number ht hs hnumber)
    · exact .inr ⟨hs, hnumber⟩
  · rintro (rfl | ⟨hs, -⟩)
    · exact ht
    · exact hs

/-- A task that completes tells of its call, if it was started for one. -/
theorem Sound.told_of_cleared (h : b.Sound moves endings) (ht : t ∈ b.tasks) {e : Event}
    (hs : t.stage = .cleared e) :
    List.Forall₂ (Reports b.actions endings) t.job?.toList ([e].filter Event.isResult) := by
  have htask := h.tasks t ht
  obtain ⟨ending, hending, rfl⟩ := htask.told e (hs ▸ rfl)
  rw [Task.job?]
  split
  · next d herrand =>
    have hreport : Reports b.actions endings ⟨d, true, some t.number⟩ (t.errand.event ending) :=
      herrand ▸ reports_ended (htask.runnable d herrand) hending
    rw [List.filter_singleton, hreport.isResult]
    exact .cons hreport .nil
  · next id herrand =>
    rw [herrand]
    exact .nil

/-- **Every step keeps the balance.** -/
theorem Balanced.step (h : b.Balanced moves jobs endings done stopped)
    (hb : b.Sound moves endings) (hstep : b.Step m job ending b') :
    ∃ done' stopped', b'.Balanced (moves ++ [m]) (jobs ++ job.toList) (endings ++ ending.toList)
      done' stopped' := by
  -- Most moves leave calls alone.
  have hsame : ∀ b'' : Backend, b''.actions = b.actions → b''.unfinished = b.unfinished →
      b''.sent = b.sent → ∃ done' stopped', b''.Balanced (moves ++ [m]) (jobs ++ [])
        (endings ++ ending.toList) done' stopped' := by
    intro b'' hactions hunfinished hsent
    refine ⟨_, _, h.next [] [] [] [] hactions ?_ (hsent.trans (List.append_nil _).symm) .nil nofun⟩
    rw [hunfinished, List.append_nil]
  cases hstep with
  | idle _ => exact hsame b rfl rfl rfl
  | @rejected d inside f hf =>
    have hreport : Reports b.actions endings ⟨d, inside, none⟩ _ := reports_rejected hf
    refine ⟨_, _, h.next [_] [⟨d, inside, none⟩] [] [_] rfl ?_ rfl ?_ nofun⟩
    · rw [List.append_nil]
      exact .refl _
    · rw [List.filter_singleton, hreport.isResult]
      exact .cons hreport .nil
  | @call d a ha =>
    refine ⟨_, _, h.next [_] [] [] [] rfl ?_ (List.append_nil _).symm .nil nofun⟩
    rw [unfinished, unfinished, spawn, List.filterMap_append, List.nil_append, List.append_nil]
    exact List.perm_append_comm
  | timer id =>
    refine hsame _ rfl ?_ rfl
    rw [unfinished, spawn, List.filterMap_append]
    exact List.append_nil _
  | register _ _ => exact hsame _ rfl (unfinished_setStage ..) rfl
  | arm _ _ => exact hsame _ rfl (unfinished_setStage ..) rfl
  | finish _ _ _ => exact hsame _ rfl (unfinished_setStage ..) rfl
  | clear _ _ => exact hsame _ rfl (unfinished_setStage ..) rfl
  | @send t e ht hs =>
    refine ⟨_, _, h.next [] t.job?.toList [] [e] rfl ?_ rfl (hb.told_of_cleared ht hs) nofun⟩
    rw [List.nil_append, List.append_nil]
    refine ((hb.perm_cons_filter ht).filterMap Task.job?).trans ?_
    rw [List.filterMap_cons]
    cases t.job? <;> exact .refl _
  | cancel _ => exact hsame _ rfl (unfinished_stop ..) rfl
  | drop k =>
    let p (t : Task) : Bool := !(t.number == k && t.aborted)
    refine ⟨_, _, h.next [] [] ((b.tasks.filter fun t => !p t).filterMap Task.job?) [] rfl ?_
      (List.append_nil _).symm .nil fun j hj => ?_⟩
    · rw [List.nil_append, List.nil_append, unfinished, unfinished, ← List.filterMap_append]
      exact ((List.filter_append_perm p b.tasks).filterMap _).symm
    · obtain ⟨t, ht, hjob⟩ := List.mem_filterMap.1 hj
      obtain ⟨ht, hp⟩ := List.mem_filter.1 ht
      have haborted : t.aborted = true := by
        rw [Bool.not_not, Bool.and_eq_true] at hp
        exact hp.2
      have hcancelled := (hb.tasks t ht).stopped haborted
      rw [Task.job?] at hjob
      split at hjob
      · next d herrand =>
        cases hjob
        rwa [herrand] at hcancelled
      · cases hjob
  | take => exact hsame _ rfl rfl rfl

theorem Step.actions_eq (h : b.Step m job ending b') : b'.actions = b.actions := by
  cases h <;> rfl

theorem actions_makes (b : Backend) (moves : List Move) : (b.makes moves).actions = b.actions := by
  induction moves using List.reverseRecOn with
  | nil => rfl
  | append_singleton moves m ih =>
    rw [makes_concat]
    exact (step_make _ m).actions_eq.trans ih

/-- **Whatever moves are made, every call is one of three things.** -/
theorem balanced_makes (actions : Actions) (moves : List Move) :
    ∃ done stopped, ((idle actions).makes moves).Balanced moves ((idle actions).jobs moves)
      ((idle actions).endings moves) done stopped := by
  induction moves using List.reverseRecOn with
  | nil => exact ⟨[], [], balanced_idle actions⟩
  | append_singleton moves m ih =>
    obtain ⟨done, stopped, h⟩ := ih
    rw [makes_concat, jobs_concat, endings_concat]
    exact h.step (sound_makes actions moves) (step_make _ m)

/-- **What is not cancelled is reported.**  When no task is left that was started for a call with
some invocation, and no such call was cancelled, then each of them has been reported once. -/
theorem results_of_ended (actions : Actions) {moves : List Move} {n : InvocationId}
    (hkept : .cancel (.inl n) ∉ moves)
    (hended : ∀ t ∈ ((idle actions).makes moves).tasks, t.errand.key ≠ .inl n) :
    ∃ done, (((idle actions).jobs moves).filter (·.dispatch.invocation = n)).Perm done ∧
      List.Forall₂ (Reports actions ((idle actions).endings moves)) done
        (((idle actions).makes moves).sent.filter (Event.isResultOf n)) := by
  obtain ⟨done, stopped, h⟩ := balanced_makes actions moves
  have hunfinished : ((idle actions).makes moves).unfinished.filter (·.dispatch.invocation = n) =
      [] := by
    refine List.filter_eq_nil_iff.2 fun j hj heq => ?_
    obtain ⟨t, ht, hjob⟩ := List.mem_filterMap.1 hj
    refine hended t ht ?_
    rw [Task.job?] at hjob
    split at hjob
    · next d herrand =>
      cases hjob
      rw [herrand]
      exact congrArg Sum.inl (of_decide_eq_true heq)
    · cases hjob
  have hstopped : stopped.filter (·.dispatch.invocation = n) = [] := by
    refine List.filter_eq_nil_iff.2 fun j hj heq => hkept ?_
    exact of_decide_eq_true heq ▸ h.cancelled j hj
  have hresults : ((idle actions).makes moves).results.filter (Event.isResultOf n) =
      ((idle actions).makes moves).sent.filter (Event.isResultOf n) := by
    rw [results, List.filter_filter]
    refine List.filter_congr fun e _ => ?_
    cases hof : e.isResultOf n with
    | false => rfl
    | true =>
      rw [Event.isResultOf, decide_eq_true_iff] at hof
      rw [Event.isResult, hof]
      rfl
  refine ⟨done.filter (·.dispatch.invocation = n), ?_, ?_⟩
  · have hperm := h.balance.filter (·.dispatch.invocation = n)
    rwa [List.filter_append, List.filter_append, hunfinished, hstopped, List.append_nil,
      List.append_nil] at hperm
  · have hreported := h.reported
    rw [actions_makes] at hreported
    rw [← hresults]
    refine List.rel_filter (fun j e hreport => ?_) hreported
    obtain ⟨o, -, rfl⟩ := hreport
    simp only [Event.isResultOf, Event.invocation?_actionResult, decide_eq_true_iff,
      Option.some_inj]

/-- What is sent passes the check for events. -/
theorem Step.check_sent (h : b.Step m job ending b') (hb : b.Sound moves endings)
    (hsent : ∀ e ∈ b.sent, e.check = .ok ()) : ∀ e ∈ b'.sent, e.check = .ok () := by
  have hput : ∀ e : Event, e.check = .ok () → ∀ e' ∈ b.sent ++ [e], e'.check = .ok () :=
    fun e he => List.forall_mem_append.2 ⟨hsent, List.forall_mem_singleton.2 he⟩
  cases h with
  | @rejected d _ f _ => exact hput _ (Event.check_actionResult d.invocation d.action (.failed f))
  | @send t e ht hs =>
    obtain ⟨ending, -, rfl⟩ := (hb.tasks t ht).told e (hs ▸ rfl)
    exact hput _ (t.errand.check_event ending)
  | _ => exact hsent

theorem check_of_mem_sent (actions : Actions) (moves : List Move) :
    ∀ e ∈ ((idle actions).makes moves).sent, e.check = .ok () := by
  induction moves using List.reverseRecOn with
  | nil => nofun
  | append_singleton moves m ih =>
    rw [makes_concat]
    exact (step_make _ m).check_sent (sound_makes actions moves) ih

end Balanced

/-! ## Calls and tasks -/

/-- The calls that are handed over are the ones that moves hand over, in their order. -/
theorem map_jobs (b : Backend) (moves : List Move) :
    (b.jobs moves).map (fun j => (j.dispatch, j.inside)) = moves.filterMap Move.call? := by
  induction moves generalizing b with
  | nil => rfl
  | cons m moves ih =>
    have hone : (b.job? m).map (fun j => (j.dispatch, j.inside)) = m.call? := by
      cases m with
      | call d inside =>
        rw [job?]
        split <;> rfl
      | _ => rfl
    rw [jobs, List.map_append, ih, List.filterMap_cons, ← hone]
    cases b.job? m <;> rfl

/-- A call has a task of its own, if it has one. -/
theorem Step.started {b b' : Backend} {m : Move} {job : Option Job} {ending : Option (Nat × Finish)}
    (h : b.Step m job ending b') :
    (job.bind Job.task = none ∧ b.spawned ≤ b'.spawned) ∨
      (job.bind Job.task = some b.spawned ∧ b'.spawned = b.spawned + 1) := by
  cases h with
  | call _ => exact .inr ⟨rfl, rfl⟩
  | timer _ => exact .inl ⟨rfl, Nat.le_succ _⟩
  | _ => exact .inl ⟨rfl, Nat.le_refl _⟩

theorem started_nodup (actions : Actions) (moves : List Move) :
    (((idle actions).jobs moves).filterMap Job.task).Nodup ∧
      ∀ k ∈ ((idle actions).jobs moves).filterMap Job.task,
        k < ((idle actions).makes moves).spawned := by
  induction moves using List.reverseRecOn with
  | nil => exact ⟨.nil, nofun⟩
  | append_singleton moves m ih =>
    obtain ⟨hnodup, hfresh⟩ := ih
    have htoList : ∀ job : Option Job, job.toList.filterMap Job.task =
        (job.bind Job.task).toList := by
      rintro (_ | ⟨_, _, _ | _⟩) <;> rfl
    rw [makes_concat, jobs_concat, List.filterMap_append, htoList]
    rcases (step_make ((idle actions).makes moves) m).started with ⟨hnone, hle⟩ | ⟨hsome, hspawned⟩
    · rw [hnone, Option.toList_none, List.append_nil]
      exact ⟨hnodup, fun k hk => Nat.lt_of_lt_of_le (hfresh k hk) hle⟩
    · rw [hsome, Option.toList_some, hspawned]
      refine ⟨List.Nodup.append hnodup (List.nodup_singleton _) ?_, ?_⟩
      · rw [List.disjoint_singleton]
        exact fun hmem => Nat.lt_irrefl _ (hfresh _ hmem)
      · exact List.forall_mem_append.2 ⟨fun k hk => Nat.lt_succ_of_lt (hfresh k hk),
          List.forall_mem_singleton.2 (Nat.lt_succ_self _)⟩

/-! ## Going on -/

section Next

variable {b : Backend} {moves : List Move} {endings : List (Nat × Finish)} {t : Task}

theorem Sound.task?_eq (h : b.Sound moves endings) (ht : t ∈ b.tasks) :
    b.task? t.number = some t := by
  cases hfound : b.task? t.number with
  | none => simpa using List.find?_eq_none.1 hfound t ht
  | some s =>
    obtain ⟨hs, hnumber⟩ := mem_of_task? hfound
    rw [h.eq_of_number ht hs hnumber]

theorem Sound.left_setStage_lt (h : b.Sound moves endings) (ht : t ∈ b.tasks) {stage : Task.Stage}
    (hleft : stage.left < t.stage.left) :
    total (·.stage.left) (b.setStage t.number stage).tasks < total (·.stage.left) b.tasks := by
  rw [Backend.setStage, total_map]
  refine total_lt (a := t) ?_ (fun s hs => ?_) ht
  · rw [Function.comp_apply, if_pos rfl]
    exact hleft
  · rw [Function.comp_apply]
    split
    · next hnumber =>
      rw [h.eq_of_number ht hs hnumber]
      exact Nat.le_of_lt hleft
    · exact Nat.le_refl _

/-- No task is ever stuck. -/
theorem Sound.left_next_lt (h : b.Sound moves endings) (ht : t ∈ b.tasks) (ending : Finish) :
    total (·.stage.left) (b.make (t.next ending)).tasks < total (·.stage.left) b.tasks := by
  have hfound := h.task?_eq ht
  obtain ⟨number, errand, stage, aborted⟩ := t
  cases stage with
  | spawned =>
    rw [Task.next, make, hfound]
    exact h.left_setStage_lt ht (Nat.lt_succ_self 4)
  | registered =>
    rw [Task.next, make, hfound]
    exact h.left_setStage_lt ht (Nat.lt_succ_self 3)
  | working =>
    rw [Task.next, make, hfound]
    exact h.left_setStage_lt ht (Nat.lt_succ_self 2)
  | ended e =>
    rw [Task.next, make, hfound]
    exact h.left_setStage_lt ht (Nat.lt_succ_self 1)
  | cleared e =>
    rw [Task.next, make, hfound]
    obtain ⟨k, hk, hget⟩ := List.getElem_of_mem ht
    refine Nat.lt_of_lt_of_le (Nat.lt_add_of_pos_right ?_) (total_filter_add_le _ _ ?_
      (List.getElem?_eq_some_iff.2 ⟨hk, hget⟩))
    · exact Nat.one_pos
    · simp

end Next

/-- Every run can go on until no task is left, without anybody handing over or stopping one. -/
theorem exists_tasks_eq_nil (actions : Actions) (moves : List Move) :
    ∃ more, (∀ m ∈ more, m.call? = none ∧ ∀ key, m ≠ .cancel key) ∧
      ((idle actions).makes (moves ++ more)).tasks = [] := by
  induction hleft : total (·.stage.left) ((idle actions).makes moves).tasks using
    Nat.strongRecOn generalizing moves with
  | _ left ih =>
    cases htasks : ((idle actions).makes moves).tasks with
    | nil => exact ⟨[], nofun, by rwa [List.append_nil]⟩
    | cons t tasks =>
      have ht : t ∈ ((idle actions).makes moves).tasks := htasks ▸ List.mem_cons_self
      have hlt := (sound_makes actions moves).left_next_lt ht .panicked
      rw [hleft, ← makes_concat] at hlt
      obtain ⟨more, hmore, hnone⟩ := ih _ hlt (moves ++ [t.next .panicked]) rfl
      refine ⟨t.next .panicked :: more, List.forall_mem_cons.2 ⟨?_, hmore⟩, ?_⟩
      · rw [Task.next]
        split <;> exact ⟨rfl, nofun⟩
      · rwa [List.append_assoc] at hnone

/-! ## The account -/

/-- How the calls of a run are accounted for. -/
structure Accounted (actions : Actions) (moves : List Move) : Prop where
  /-- The calls are those that moves hand over, in their order. -/
  calls : ((idle actions).jobs moves).map (fun j => (j.dispatch, j.inside)) =
    moves.filterMap Move.call?
  /-- A task belongs to one call. -/
  tasks : (((idle actions).jobs moves).filterMap Job.task).Nodup
  /-- The work of a task ends once. -/
  ends : (((idle actions).endings moves).map Prod.fst).Nodup
  /-- A call has been reported, once, or its task is not over, or it was cancelled. -/
  balance : ∃ done stopped,
    ((idle actions).jobs moves).Perm
      (done ++ ((idle actions).makes moves).unfinished ++ stopped) ∧
    List.Forall₂ (Reports actions ((idle actions).endings moves)) done
      ((idle actions).makes moves).results ∧
    ∀ j ∈ stopped, .cancel (.inl j.dispatch.invocation) ∈ moves
  /-- Nothing keeps tasks from coming to their end. -/
  completes : ∃ more, (∀ m ∈ more, m.call? = none ∧ ∀ key, m ≠ .cancel key) ∧
    ((idle actions).makes (moves ++ more)).tasks = []
  /-- Calls that were not cancelled, and none of whose tasks is left, have been reported, each of
  them once. -/
  delivered : ∀ n, .cancel (.inl n) ∉ moves →
    (∀ t ∈ ((idle actions).makes moves).tasks, t.errand.key ≠ .inl n) →
    ∃ done, (((idle actions).jobs moves).filter (·.dispatch.invocation = n)).Perm done ∧
      List.Forall₂ (Reports actions ((idle actions).endings moves)) done
        (((idle actions).makes moves).sent.filter (Event.isResultOf n))

/-- **The calls of every run are accounted for.** -/
theorem accounted (actions : Actions) (moves : List Move) : Accounted actions moves where
  calls := map_jobs _ moves
  tasks := (started_nodup actions moves).1
  ends := (sound_makes actions moves).once
  balance := by
    obtain ⟨done, stopped, h⟩ := balanced_makes actions moves
    have hreported := h.reported
    rw [actions_makes] at hreported
    exact ⟨done, stopped, h.balance, hreported, h.cancelled⟩
  completes := exists_tasks_eq_nil actions moves
  delivered _ := results_of_ended actions

end Backend

end EventFlow

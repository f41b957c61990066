import EventFlow.Host.Backend
import EventFlow.Proofs.Completion
import EventFlow.Proofs.Dict
import Mathlib.Data.List.Induction
import Mathlib.Data.List.Nodup

/-!
# What moves do to a backend

A run of a backend is any list of moves.  What is said of it here is what tasks and table have in
common whatever the moves are: a task is in the table only while it can still be stopped.  That is
so because a task is registered before its gate opens, and because it clears its entry before it
sends its completion.

## What is here

* `Backend.job?` and `Backend.ending?` tell which calls are handed to a backend, and how the work of
  tasks ends; `Backend.jobs` and `Backend.endings` do so for a run.
* `Backend.Step` says what a move can do, and `step_make` that it does it.
* `Backend.Sound` is kept by every step (`Sound.step`).
-/

set_option autoImplicit false

namespace EventFlow

/-- A call that was handed to a backend. -/
structure Job where
  dispatch : Dispatch
  /-- Whether that was inside an asynchronous runtime. -/
  inside : Bool
  /-- The task that was started for it, if one was. -/
  task : Option Nat

/-- The event that a task is going to send, once its work has ended. -/
def Task.Stage.event? : Task.Stage → Option Event
  | spawned | registered | working => none
  | ended e | cleared e => some e

/-- Whether a task at some stage is to be found in the table. -/
def Task.Stage.IsTracked : Task.Stage → Prop
  | spawned | cleared _ => False
  | registered | working | ended _ => True

/-- The call that a task was started for. -/
def Task.job? (t : Task) : Option Job :=
  match t.errand with
  | .call d => some ⟨d, true, some t.number⟩
  | .timer _ => none

/-- The call that a move hands over, and whether that is inside an asynchronous runtime. -/
def Move.call? : Move → Option (Dispatch × Bool)
  | call d inside => some (d, inside)
  | _ => none

/-- A call that can be run: the action is known, and no argument is missing that it needs. -/
def Actions.Runnable (actions : Actions) (d : Dispatch) : Prop :=
  ∃ a, Dict.get? actions d.action = some a ∧ ∀ key ∈ a.required, Dict.has d.arguments key = true

namespace Backend

/-- The call that is handed over by a move. -/
def job? (b : Backend) : Move → Option Job
  | .call d inside =>
    match b.actions.prepare d.action d.arguments with
    | .ok _ => some ⟨d, inside, if inside then some b.spawned else none⟩
    | .error _ => some ⟨d, inside, none⟩
  | _ => none

/-- The task whose work ends by a move, and how it ends. -/
def ending? (b : Backend) : Move → Option (Nat × Finish)
  | .finish k ending =>
    match b.task? k with
    | some ⟨_, _, .working, _⟩ => some (k, ending)
    | _ => none
  | _ => none

/-- The calls that are handed over in a run. -/
def jobs : Backend → List Move → List Job
  | _, [] => []
  | b, m :: moves => (b.job? m).toList ++ jobs (b.make m) moves

/-- The tasks whose work ends in a run, and how it ends. -/
def endings : Backend → List Move → List (Nat × Finish)
  | _, [] => []
  | b, m :: moves => (b.ending? m).toList ++ endings (b.make m) moves

/-! ## What a move can do -/

/-- What a move can do: the call that is handed over, the task whose work ends, and the backend
afterwards. -/
inductive Step (b : Backend) : Move → Option Job → Option (Nat × Finish) → Backend → Prop
  /-- It is not the time for the move. -/
  | idle {m : Move} (h : ∀ d inside, m ≠ .call d inside) : Step b m none none b
  /-- A call that cannot be run completes. -/
  | rejected {d : Dispatch} {inside : Bool} {f : Failure}
      (h : b.actions.prepare d.action d.arguments = .error f ∨
        (∃ a, b.actions.prepare d.action d.arguments = .ok a) ∧ inside = false ∧
          f = ⟨.unavailable, "no async runtime"⟩) :
      Step b (.call d inside) (some ⟨d, inside, none⟩) none (b.reject d f)
  /-- A task is started for a call. -/
  | call {d : Dispatch} {a : Action} (h : b.actions.prepare d.action d.arguments = .ok a) :
      Step b (.call d true) (some ⟨d, true, some b.spawned⟩) none (b.spawn (.call d))
  | timer (t : TimerId) : Step b (.timer t true) none none (b.spawn (.timer t))
  | register {t : Task} (ht : t ∈ b.tasks) (hs : t.stage = .spawned) :
      Step b (.register t.number) none none
        { b.setStage t.number .registered with
          table := (t.errand.key, t.number) :: Dict.remove b.table t.errand.key }
  | arm {t : Task} (ht : t ∈ b.tasks) (hs : t.stage = .registered) :
      Step b (.arm t.number) none none (b.setStage t.number .working)
  | finish {t : Task} (ending : Finish) (ht : t ∈ b.tasks) (hs : t.stage = .working) :
      Step b (.finish t.number ending) none (some (t.number, ending))
        (b.setStage t.number (.ended (t.errand.event ending)))
  | clear {t : Task} {e : Event} (ht : t ∈ b.tasks) (hs : t.stage = .ended e) :
      Step b (.clear t.number) none none
        { b.setStage t.number (.cleared e) with table := Dict.remove b.table t.errand.key }
  | send {t : Task} {e : Event} (ht : t ∈ b.tasks) (hs : t.stage = .cleared e) :
      Step b (.send t.number) none none
        (put { b with tasks := b.tasks.filter (·.number ≠ t.number) } e)
  | cancel {key : InvocationId ⊕ TimerId} {k : Nat} (h : Dict.get? b.table key = some k) :
      Step b (.cancel key) none none (b.stop key k)
  | drop (k : Nat) :
      Step b (.drop k) none none
        { b with tasks := b.tasks.filter fun t => !(t.number == k && t.aborted) }
  | take : Step b .take none none { b with taken := min (b.taken + 1) b.sent.length }

section Step

variable {b : Backend} {k : Nat} {t : Task}

theorem mem_of_task? (h : b.task? k = some t) : t ∈ b.tasks ∧ t.number = k :=
  ⟨List.mem_of_find?_eq_some h, by simpa using List.find?_some h⟩

/-- **A move does what moves can do.** -/
theorem step_make (b : Backend) (m : Move) : b.Step m (b.job? m) (b.ending? m) (b.make m) := by
  cases m with
  | call d inside =>
    rw [make]
    split
    · next f hf =>
      rw [job?, hf]
      exact .rejected (.inl hf)
    · next a ha =>
      rw [job?, ha]
      cases inside with
      | false => exact .rejected (.inr ⟨⟨a, ha⟩, rfl, rfl⟩)
      | true => exact .call ha
  | timer t inside =>
    cases inside with
    | false => exact .idle nofun
    | true => exact .timer t
  | register k =>
    rcases hfound : b.task? k with _ | ⟨number, errand, stage, aborted⟩
    · rw [make, hfound]
      exact .idle nofun
    · obtain ⟨hmem, rfl⟩ := mem_of_task? hfound
      rw [make, hfound]
      cases stage with
      | spawned => exact .register hmem rfl
      | _ => exact .idle nofun
  | arm k =>
    rcases hfound : b.task? k with _ | ⟨number, errand, stage, aborted⟩
    · rw [make, hfound]
      exact .idle nofun
    · obtain ⟨hmem, rfl⟩ := mem_of_task? hfound
      rw [make, hfound]
      cases stage with
      | registered => exact .arm hmem rfl
      | _ => exact .idle nofun
  | finish k ending =>
    rcases hfound : b.task? k with _ | ⟨number, errand, stage, aborted⟩
    · rw [make, ending?, hfound]
      exact .idle nofun
    · obtain ⟨hmem, rfl⟩ := mem_of_task? hfound
      rw [make, ending?, hfound]
      cases stage with
      | working => exact .finish ending hmem rfl
      | _ => exact .idle nofun
  | clear k =>
    rcases hfound : b.task? k with _ | ⟨number, errand, stage, aborted⟩
    · rw [make, hfound]
      exact .idle nofun
    · obtain ⟨hmem, rfl⟩ := mem_of_task? hfound
      rw [make, hfound]
      cases stage with
      | ended e => exact .clear hmem rfl
      | _ => exact .idle nofun
  | send k =>
    rcases hfound : b.task? k with _ | ⟨number, errand, stage, aborted⟩
    · rw [make, hfound]
      exact .idle nofun
    · obtain ⟨hmem, rfl⟩ := mem_of_task? hfound
      rw [make, hfound]
      cases stage with
      | cleared e => exact .send hmem rfl
      | _ => exact .idle nofun
  | cancel key =>
    rw [make]
    split
    · next k hk => exact .cancel hk
    · exact .idle nofun
  | drop k => exact .drop k
  | take => exact .take

theorem makes_concat (b : Backend) (moves : List Move) (m : Move) :
    b.makes (moves ++ [m]) = (b.makes moves).make m := List.foldl_append ..

theorem makes_append (b : Backend) (moves moves' : List Move) :
    b.makes (moves ++ moves') = (b.makes moves).makes moves' := List.foldl_append ..

theorem jobs_concat (b : Backend) (moves : List Move) (m : Move) :
    b.jobs (moves ++ [m]) = b.jobs moves ++ ((b.makes moves).job? m).toList := by
  induction moves generalizing b with
  | nil => exact List.append_nil _
  | cons m' moves ih =>
    rw [List.cons_append, jobs, jobs, ih, List.append_assoc]
    rfl

theorem endings_concat (b : Backend) (moves : List Move) (m : Move) :
    b.endings (moves ++ [m]) = b.endings moves ++ ((b.makes moves).ending? m).toList := by
  induction moves generalizing b with
  | nil => exact List.append_nil _
  | cons m' moves ih =>
    rw [List.cons_append, endings, endings, ih, List.append_assoc]
    rfl

end Step

end Backend

/-! ## What is kept -/

/-- What is so of a task after some moves, when the work of some tasks has ended. -/
structure Task.Sound (t : Task) (b : Backend) (moves : List Move) (endings : List (Nat × Finish)) :
    Prop where
  fresh : t.number < b.spawned
  /-- Nobody can stop it before it is in the table. -/
  young : t.stage = .spawned → t.aborted = false
  stopped : t.aborted = true → .cancel t.errand.key ∈ moves
  runnable : ∀ d, t.errand = .call d → b.actions.Runnable d
  told : ∀ e, t.stage.event? = some e →
    ∃ ending, (t.number, ending) ∈ endings ∧ e = t.errand.event ending
  untold : t.stage.event? = none → ∀ ending, (t.number, ending) ∉ endings

namespace Task

variable {t : Task} {b b' : Backend} {moves : List Move} {endings : List (Nat × Finish)}

/-- A move does not matter for a task that it does not touch. -/
theorem Sound.mono (h : t.Sound b moves endings) (m : Move) (hactions : b'.actions = b.actions)
    (hspawned : b.spawned ≤ b'.spawned) : t.Sound b' (moves ++ [m]) endings where
  fresh := Nat.lt_of_lt_of_le h.fresh hspawned
  young := h.young
  stopped ha := List.mem_append_left _ (h.stopped ha)
  runnable d hd := hactions ▸ h.runnable d hd
  told := h.told
  untold := h.untold

/-- Nor does it matter that the work of another task ends. -/
theorem Sound.other (h : t.Sound b moves endings) {p : Nat × Finish} (hne : t.number ≠ p.1) :
    t.Sound b moves (endings ++ [p]) where
  fresh := h.fresh
  young := h.young
  stopped := h.stopped
  runnable := h.runnable
  told e he := by
    obtain ⟨ending, hending, rfl⟩ := h.told e he
    exact ⟨ending, List.mem_append_left _ hending, rfl⟩
  untold hnone ending hmem := by
    rcases List.mem_append.1 hmem with hmem | hmem
    · exact h.untold hnone ending hmem
    · exact hne (congrArg Prod.fst (List.mem_singleton.1 hmem))

/-- A task goes on to a stage at which it has the same to tell. -/
theorem Sound.withStage (h : t.Sound b moves endings) {stage : Task.Stage}
    (hevent : stage.event? = t.stage.event?) (hyoung : stage ≠ .spawned) :
    Sound { t with stage } b moves endings where
  fresh := h.fresh
  young hstage := absurd hstage hyoung
  stopped := h.stopped
  runnable := h.runnable
  told e he := h.told e (hevent ▸ he)
  untold hnone := h.untold (hevent ▸ hnone)

/-- The work of a task ends. -/
theorem Sound.finish (h : t.Sound b moves endings) (ending : Finish) :
    Sound { t with stage := .ended (t.errand.event ending) } b moves
      (endings ++ [(t.number, ending)]) where
  fresh := h.fresh
  young := nofun
  stopped := h.stopped
  runnable := h.runnable
  told e he := ⟨ending, List.mem_append_right _ (List.mem_singleton_self _), by cases he; rfl⟩
  untold := nofun

end Task

namespace Backend

/-- What is so of a backend after some moves, when the work of some tasks has ended. -/
structure Sound (b : Backend) (moves : List Move) (endings : List (Nat × Finish)) : Prop where
  numbers : (b.tasks.map Task.number).Nodup
  tasks : ∀ t ∈ b.tasks, t.Sound b moves endings
  /-- Only tasks are in the table that can be stopped. -/
  table : ∀ key k, Dict.get? b.table key = some k → ∃ t ∈ b.tasks, t.number = k ∧
    t.errand.key = key ∧ t.stage.IsTracked ∧ t.aborted = false
  ended : ∀ p ∈ endings, p.1 < b.spawned
  once : (endings.map Prod.fst).Nodup

section Sound

variable {b b' : Backend} {moves : List Move} {endings endings' : List (Nat × Finish)}
  {t s : Task} {m : Move} {job : Option Job} {ending : Option (Nat × Finish)}

theorem sound_idle (actions : Actions) : (idle actions).Sound [] [] :=
  ⟨.nil, nofun, nofun, nofun, .nil⟩

theorem Sound.eq_of_number (h : b.Sound moves endings) (ht : t ∈ b.tasks) (hs : s ∈ b.tasks)
    (hnumber : s.number = t.number) : s = t :=
  List.inj_on_of_nodup_map h.numbers hs ht hnumber

/-- Nothing but a task of its own is in the table for an errand. -/
theorem Sound.table_self (h : b.Sound moves endings) (ht : t ∈ b.tasks)
    {key : InvocationId ⊕ TimerId} (hk : Dict.get? b.table key = some t.number) :
    t.errand.key = key ∧ t.stage.IsTracked ∧ t.aborted = false := by
  obtain ⟨s, hs, hnumber, hself⟩ := h.table key _ hk
  rwa [h.eq_of_number ht hs hnumber] at hself

/-- A backend stays sound when one task changes and the table changes with it. -/
theorem Sound.replace (h : b.Sound moves endings) (ht : t ∈ b.tasks) {f : Task → Task}
    (hnumber : ∀ s, (f s).number = s.number) (herrand : ∀ s, (f s).errand = s.errand)
    (hactions : b'.actions = b.actions) (hspawned : b'.spawned = b.spawned)
    (htasks : b'.tasks = b.tasks.map fun s => if s.number = t.number then f s else s)
    (hself : (f t).Sound b (moves ++ [m]) endings')
    (hothers : ∀ s ∈ b.tasks, s.number ≠ t.number → s.Sound b (moves ++ [m]) endings')
    (htable : ∀ key k, Dict.get? b'.table key = some k →
      (Dict.get? b.table key = some k ∧ k ≠ t.number) ∨
        (k = t.number ∧ key = t.errand.key ∧ (f t).stage.IsTracked ∧ (f t).aborted = false))
    (hended : ∀ p ∈ endings', p.1 < b.spawned) (honce : (endings'.map Prod.fst).Nodup) :
    b'.Sound (moves ++ [m]) endings' := by
  have hsound : ∀ s : Task, s.Sound b (moves ++ [m]) endings' →
      s.Sound b' (moves ++ [m]) endings' := fun s hs =>
    ⟨hspawned ▸ hs.fresh, hs.young, hs.stopped, hactions ▸ hs.runnable, hs.told, hs.untold⟩
  refine ⟨?_, ?_, fun key k hk => ?_, hspawned ▸ hended, honce⟩
  · have hsame : (fun s => (if s.number = t.number then f s else s).number) = Task.number := by
      funext s
      split
      · exact hnumber s
      · rfl
    rw [htasks, List.map_map, Function.comp_def, hsame]
    exact h.numbers
  · rw [htasks, List.forall_mem_map]
    intro s hs
    split
    · next heq =>
      rw [h.eq_of_number ht hs heq]
      exact hsound _ hself
    · next hne => exact hsound _ (hothers s hs hne)
  · rw [htasks]
    rcases htable key k hk with ⟨hold, hne⟩ | ⟨rfl, rfl, htracked, hlive⟩
    · obtain ⟨s, hs, rfl, hkey⟩ := h.table key k hold
      exact ⟨s, List.mem_map.2 ⟨s, hs, if_neg hne⟩, rfl, hkey⟩
    · exact ⟨f t, List.mem_map.2 ⟨t, ht, if_pos rfl⟩, hnumber t, herrand t ▸ rfl, htracked, hlive⟩

/-- A backend stays sound when some tasks are over that are not in the table. -/
theorem Sound.filter (h : b.Sound moves endings) {p : Task → Bool} (m : Move)
    (hp : ∀ t ∈ b.tasks, t.stage.IsTracked → t.aborted = false → p t = true) :
    Sound { b with tasks := b.tasks.filter p } (moves ++ [m]) endings where
  numbers := h.numbers.sublist (List.filter_sublist.map _)
  tasks t ht := (h.tasks t (List.mem_filter.1 ht).1).mono m rfl (Nat.le_refl _)
  table key k hk := by
    obtain ⟨t, ht, hnumber, hkey, htracked, hlive⟩ := h.table key k hk
    exact ⟨t, List.mem_filter.2 ⟨ht, hp t ht htracked hlive⟩, hnumber, hkey, htracked, hlive⟩
  ended := h.ended
  once := h.once

/-- A move that changes nothing does not matter. -/
theorem Sound.wait (h : b.Sound moves endings) (m : Move) : b.Sound (moves ++ [m]) endings :=
  ⟨h.numbers, fun t ht => (h.tasks t ht).mono m rfl (Nat.le_refl _), h.table, h.ended, h.once⟩

/-- What is sent or taken does not matter. -/
theorem Sound.withChannel (h : b.Sound moves endings) (sent : List Event) (taken : Nat) :
    Sound { b with sent, taken } moves endings where
  numbers := h.numbers
  tasks t ht :=
    have ht := h.tasks t ht
    ⟨ht.fresh, ht.young, ht.stopped, ht.runnable, ht.told, ht.untold⟩
  table := h.table
  ended := h.ended
  once := h.once

/-- A new task is sound. -/
theorem Sound.spawn (h : b.Sound moves endings) (m : Move) {errand : Errand}
    (hrunnable : ∀ d, errand = .call d → b.actions.Runnable d) :
    (b.spawn errand).Sound (moves ++ [m]) endings where
  numbers := by
    rw [Backend.spawn, List.map_append, List.map_singleton]
    refine List.Nodup.append h.numbers (List.nodup_singleton _) ?_
    rw [List.disjoint_singleton]
    intro hmem
    obtain ⟨t, ht, hnumber⟩ := List.mem_map.1 hmem
    exact Nat.lt_irrefl _ (hnumber ▸ (h.tasks t ht).fresh)
  tasks t ht := by
    rcases List.mem_append.1 ht with ht | ht
    · exact (h.tasks t ht).mono m rfl (Nat.le_succ _)
    · rw [List.mem_singleton.1 ht]
      exact ⟨Nat.lt_succ_self _, fun _ => rfl, nofun, hrunnable, nofun, fun _ ending hmem =>
        Nat.lt_irrefl _ (h.ended _ hmem)⟩
  table key k hk := by
    obtain ⟨t, ht, hself⟩ := h.table key k hk
    exact ⟨t, List.mem_append_left _ ht, hself⟩
  ended p hp := Nat.lt_succ_of_lt (h.ended p hp)
  once := h.once

/-- A backend stays sound when a task goes on to a stage at which it has the same to tell. -/
theorem Sound.setStage (h : b.Sound moves endings) (ht : t ∈ b.tasks) (m : Move)
    {stage : Task.Stage} {table : Dict (InvocationId ⊕ TimerId) Nat}
    (hevent : stage.event? = t.stage.event?) (hyoung : stage ≠ .spawned)
    (htable : ∀ key k, Dict.get? table key = some k →
      (Dict.get? b.table key = some k ∧ k ≠ t.number) ∨
        (k = t.number ∧ key = t.errand.key ∧ stage.IsTracked ∧ t.aborted = false)) :
    Sound { b.setStage t.number stage with table } (moves ++ [m]) endings :=
  h.replace ht (f := fun s => { s with stage }) (fun _ => rfl) (fun _ => rfl) rfl rfl rfl
    (((h.tasks t ht).mono m rfl (Nat.le_refl _)).withStage hevent hyoung)
    (fun s hs _ => (h.tasks s hs).mono m rfl (Nat.le_refl _)) htable h.ended h.once

/-- An entry of a table is one from before something was forgotten, with another key. -/
theorem get?_of_get?_remove {key key' : InvocationId ⊕ TimerId} {k : Nat}
    (h : Dict.get? (Dict.remove b.table key) key' = some k) :
    Dict.get? b.table key' = some k ∧ key' ≠ key := by
  by_cases hkey : key' = key
  · rw [hkey, Dict.get?_remove_self] at h
    cases h
  · rw [Dict.get?_remove_of_ne hkey] at h
    exact ⟨h, hkey⟩

/-- An action that is prepared for a call can be run. -/
theorem runnable_of_prepare {actions : Actions} {d : Dispatch} {a : Action}
    (h : actions.prepare d.action d.arguments = .ok a) : actions.Runnable d := by
  rw [Actions.prepare] at h
  split at h
  · cases h
  · next a' hknown =>
    dsimp only at h
    split at h
    · next hnone => exact ⟨a', hknown, by simpa using hnone⟩
    · cases h

/-- **Tasks and table stay sound.** -/
theorem Sound.step (h : b.Sound moves endings) (hstep : b.Step m job ending b') :
    b'.Sound (moves ++ [m]) (endings ++ ending.toList) := by
  cases hstep with
  | idle _ =>
    rw [Option.toList_none, List.append_nil]
    exact h.wait _
  | rejected _ =>
    rw [Option.toList_none, List.append_nil]
    exact (h.wait _).withChannel _ b.taken
  | call ha =>
    rw [Option.toList_none, List.append_nil]
    exact h.spawn _ fun d hd => by cases hd; exact runnable_of_prepare ha
  | timer t =>
    rw [Option.toList_none, List.append_nil]
    exact h.spawn _ nofun
  | @register t ht hs =>
    rw [Option.toList_none, List.append_nil]
    refine h.setStage ht _ (hs ▸ rfl) nofun fun key k hk => ?_
    rw [Dict.get?_cons] at hk
    split at hk
    · next hkey =>
      cases hk
      exact .inr ⟨rfl, hkey.symm, trivial, (h.tasks t ht).young hs⟩
    · obtain ⟨hold, -⟩ := get?_of_get?_remove hk
      refine .inl ⟨hold, ?_⟩
      -- A task that is still spawned is not in the table under any key.
      rintro rfl
      obtain ⟨-, htracked, -⟩ := h.table_self ht hold
      rw [hs] at htracked
      exact htracked
  | @arm t ht hs =>
    rw [Option.toList_none, List.append_nil]
    refine h.setStage ht _ (hs ▸ rfl) nofun fun key k hk => ?_
    by_cases hnumber : k = t.number
    · subst hnumber
      obtain ⟨rfl, -, hlive⟩ := h.table_self ht hk
      exact .inr ⟨rfl, rfl, trivial, hlive⟩
    · exact .inl ⟨hk, hnumber⟩
  | @finish t ending ht hs =>
    have huntold := (h.tasks t ht).untold (hs ▸ rfl)
    refine h.replace ht (f := fun s => { s with stage := .ended (t.errand.event ending) })
      (fun _ => rfl) (fun _ => rfl) rfl rfl rfl ?_ (fun s hs hne => ?_) (fun key k hk => ?_) ?_ ?_
    · exact ((h.tasks t ht).mono _ rfl (Nat.le_refl _)).finish ending
    · exact ((h.tasks s hs).mono _ rfl (Nat.le_refl _)).other hne
    · by_cases hnumber : k = t.number
      · subst hnumber
        obtain ⟨rfl, -, hlive⟩ := h.table_self ht hk
        exact .inr ⟨rfl, rfl, trivial, hlive⟩
      · exact .inl ⟨hk, hnumber⟩
    · exact List.forall_mem_append.2 ⟨h.ended, List.forall_mem_singleton.2 (h.tasks t ht).fresh⟩
    · rw [Option.toList_some, List.map_append, List.map_singleton]
      refine List.Nodup.append h.once (List.nodup_singleton _) ?_
      rw [List.disjoint_singleton]
      intro hmem
      obtain ⟨⟨k, ending'⟩, hmem, rfl⟩ := List.mem_map.1 hmem
      exact huntold ending' hmem
  | @clear t e ht hs =>
    rw [Option.toList_none, List.append_nil]
    refine h.setStage ht _ (hs ▸ rfl) nofun fun key k hk => ?_
    obtain ⟨hold, hne⟩ := get?_of_get?_remove hk
    refine .inl ⟨hold, ?_⟩
    rintro rfl
    exact hne (h.table_self ht hold).1.symm
  | @send t e ht hs =>
    rw [Option.toList_none, List.append_nil]
    have hfilter : ∀ s ∈ b.tasks, s.stage.IsTracked → s.aborted = false →
        decide (s.number ≠ t.number) = true := by
      intro s hsmem htracked _
      rw [decide_eq_true_iff]
      rintro heq
      rw [h.eq_of_number ht hsmem heq, hs] at htracked
      exact htracked
    exact (h.filter (.send t.number) hfilter).withChannel _ b.taken
  | @cancel key k hk =>
    rw [Option.toList_none, List.append_nil]
    obtain ⟨t, ht, rfl, rfl, htracked, hlive⟩ := h.table key k hk
    refine h.replace ht (f := fun s => { s with aborted := true }) (fun _ => rfl) (fun _ => rfl) rfl
      rfl rfl ?_ (fun s hs _ => (h.tasks s hs).mono _ rfl (Nat.le_refl _)) (fun key k hk => ?_)
      h.ended h.once
    · have hself : t.Sound b (moves ++ [.cancel t.errand.key]) endings :=
        (h.tasks t ht).mono _ rfl (Nat.le_refl _)
      refine ⟨hself.fresh, fun hyoung => ?_, fun _ => List.mem_append_right _
        (List.mem_singleton_self _), hself.runnable, hself.told, hself.untold⟩
      rw [show t.stage = .spawned from hyoung] at htracked
      exact htracked.elim
    · obtain ⟨hold, hne⟩ := get?_of_get?_remove hk
      refine .inl ⟨hold, ?_⟩
      rintro rfl
      exact hne (h.table_self ht hold).1.symm
  | drop k =>
    rw [Option.toList_none, List.append_nil]
    refine h.filter _ fun t _ _ hlive => ?_
    rw [hlive, Bool.and_false, Bool.not_false]
  | take =>
    rw [Option.toList_none, List.append_nil]
    exact (h.wait _).withChannel b.sent _

/-- **Whatever moves are made, tasks and table are sound.** -/
theorem sound_makes (actions : Actions) (moves : List Move) :
    ((idle actions).makes moves).Sound moves ((idle actions).endings moves) := by
  induction moves using List.reverseRecOn with
  | nil => exact sound_idle actions
  | append_singleton moves m ih =>
    rw [makes_concat, endings_concat]
    exact ih.step (step_make _ m)

end Sound

end Backend

end EventFlow

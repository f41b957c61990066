import EventFlow.Host.Clockwork
import EventFlow.Proofs.Host.Moves

/-!
# What is asked of executors

Whatever runs tasks may let them go on whenever it likes, in any order, and the work of a task may
end in any way.  What it must not do is change what tasks share except by moves.  A
`LawfulExecutor` keeps to that: when something is done with it, then the moves are made which that
takes, in their order, and between them only moves of tasks.

## What is here

* `Backend.Leads` goes from one backend to another by moves, and tells those that are not made by
  tasks.
* `Backend.received` is what was taken from the channel.  Only who takes from it changes that
  (`Proceeds.received_eq`, `received_take`).
* `LawfulExecutor` says what is done by whoever drives an executor.
* Clockworks are lawful.
-/

set_option autoImplicit false

namespace EventFlow

namespace Backend

/-- A backend becomes another by some moves, of which those are told that are not made by tasks. -/
def Leads (b : Backend) (own : List Move) (b' : Backend) : Prop :=
  ∃ moves, moves.filter Move.isOwn = own ∧ b' = b.makes moves

variable {b b' b'' : Backend} {own own' : List Move}

theorem Leads.refl (b : Backend) : b.Leads [] b := ⟨[], rfl, rfl⟩

theorem Leads.trans (h : b.Leads own b') (h' : b'.Leads own' b'') :
    b.Leads (own ++ own') b'' := by
  obtain ⟨moves, rfl, rfl⟩ := h
  obtain ⟨moves', rfl, rfl⟩ := h'
  exact ⟨moves ++ moves', List.filter_append .., (makes_append b moves moves').symm⟩

/-! ## What is taken from the channel -/

/-- The events that were taken from the channel, first things first. -/
def received (b : Backend) : List Event := b.sent.take b.taken

/-- A backend becomes another, and nothing is taken from the channel meanwhile. -/
def Proceeds (b b' : Backend) : Prop := ∃ own, .take ∉ own ∧ b.Leads own b'

theorem Leads.proceeds (h : b.Leads own b') (hown : .take ∉ own) : b.Proceeds b' :=
  ⟨own, hown, h⟩

theorem Proceeds.refl (b : Backend) : b.Proceeds b := (Leads.refl b).proceeds nofun

theorem Proceeds.trans (h : b.Proceeds b') (h' : b'.Proceeds b'') : b.Proceeds b'' := by
  obtain ⟨own, hown, h⟩ := h
  obtain ⟨own', hown', h'⟩ := h'
  exact ⟨own ++ own', by simp [hown, hown'], h.trans h'⟩

/-- A backend that comes out of a run. -/
def IsRun (b : Backend) : Prop := ∃ actions moves, b = (idle actions).makes moves

theorem IsRun.leads (h : b.IsRun) (hb : b.Leads own b') : b'.IsRun := by
  obtain ⟨actions, moves, rfl⟩ := h
  obtain ⟨moves', -, rfl⟩ := hb
  exact ⟨actions, moves ++ moves', (makes_append ..).symm⟩

theorem IsRun.proceeds (h : b.IsRun) (hb : b.Proceeds b') : b'.IsRun := by
  obtain ⟨own, -, hb⟩ := hb
  exact h.leads hb

/-- Events are only added to what was sent, and unless one is taken, as many are taken as before. -/
theorem Step.channel {m : Move} {job : Option Job} {ending : Option (Nat × Finish)}
    (h : b.Step m job ending b') :
    (∃ es, b'.sent = b.sent ++ es) ∧
      (b'.taken = b.taken ∨ m = .take ∧ b'.taken = min (b.taken + 1) b.sent.length) := by
  cases h with
  | rejected _ => exact ⟨⟨[_], rfl⟩, .inl rfl⟩
  | send _ _ => exact ⟨⟨[_], rfl⟩, .inl rfl⟩
  | take => exact ⟨⟨[], (List.append_nil _).symm⟩, .inr ⟨rfl, rfl⟩⟩
  | _ => exact ⟨⟨[], (List.append_nil _).symm⟩, .inl rfl⟩

/-- No more is taken than was sent. -/
theorem IsRun.taken_le (h : b.IsRun) : b.taken ≤ b.sent.length := by
  obtain ⟨actions, moves, rfl⟩ := h
  induction moves using List.reverseRecOn with
  | nil => exact Nat.le_refl _
  | append_singleton moves m ih =>
    rw [makes_concat]
    obtain ⟨⟨es, hsent⟩, htaken⟩ := (step_make ((idle actions).makes moves) m).channel
    rw [hsent, List.length_append]
    rcases htaken with htaken | ⟨-, htaken⟩ <;> omega

/-- What was taken stays the same while nothing is taken. -/
theorem Proceeds.received_eq (h : b.Proceeds b') (hb : b.IsRun) : b'.received = b.received := by
  obtain ⟨own, hown, moves, rfl, rfl⟩ := h
  have hmoves : .take ∉ moves := fun hmem => hown (List.mem_filter.2 ⟨hmem, rfl⟩)
  clear hown
  induction moves using List.reverseRecOn with
  | nil => rfl
  | append_singleton moves m ih =>
    rw [List.mem_append, not_or, List.mem_singleton] at hmoves
    obtain ⟨hmoves, hm⟩ := hmoves
    have hle := (hb.leads ⟨moves, rfl, rfl⟩).taken_le
    rw [makes_concat, ← ih hmoves]
    obtain ⟨⟨es, hsent⟩, htaken⟩ := (step_make (b.makes moves) m).channel
    rcases htaken with htaken | ⟨rfl, -⟩
    · rw [received, hsent, htaken, List.take_append_of_le_length hle, received]
    · exact absurd rfl hm

/-- What is taken was the first event in the channel. -/
theorem received_take {e : Event} (h : b.channel.head? = some e) :
    (b.make .take).received = b.received ++ [e] := by
  rw [channel, List.head?_drop] at h
  obtain ⟨hlt, -⟩ := List.getElem?_eq_some_iff.1 h
  rw [received, make, Nat.min_eq_left hlt, List.take_add_one, h]
  rfl

end Backend

/-- An executor that changes what tasks share by moves only. -/
class LawfulExecutor (X : Type) [Executor X] : Prop where
  /-- Who dispatches a call inside an asynchronous runtime has it checked, and if a task is started
  for it, puts that into the table and opens its gate. -/
  dispatch (x : X) (d : Dispatch) :
    (Executor.backend x).Leads ((Executor.backend x).starting (.call d true))
      (Executor.backend (Executor.dispatch x d))
  cancel (x : X) (n : InvocationId) :
    (Executor.backend x).Leads [.cancel (.inl n)] (Executor.backend (Executor.cancel x n))
  schedule (x : X) (t : TimerId) (duration : Nat) :
    (Executor.backend x).Leads ((Executor.backend x).starting (.timer t true))
      (Executor.backend (Executor.schedule x t duration))
  cancelTimer (x : X) (t : TimerId) :
    (Executor.backend x).Leads [.cancel (.inr t)] (Executor.backend (Executor.cancelTimer x t))
  reach (x : X) : (Executor.backend x).Leads [] (Executor.backend (Executor.reach x))
  /-- Waiting in vain takes nothing from the channel. -/
  receive_none {x x' : X} {patience : Nat} (h : Executor.receive x patience = (none, x')) :
    (Executor.backend x).Leads [] (Executor.backend x')
  /-- What is received was the first event in the channel when it was taken. -/
  receive_some {x x' : X} {patience : Nat} {e : Event}
    (h : Executor.receive x patience = (some e, x')) :
    ∃ b, (Executor.backend x).Leads [] b ∧ b.channel.head? = some e ∧
      (b.make .take).Leads [] (Executor.backend x')

namespace Clockwork

variable {x : Clockwork}

/-! ## Clockworks -/

theorem leads_settle (x : Clockwork) (ending : Finish) (task : Option Nat) :
    x.backend.Leads [] (x.settle ending task).backend := by
  cases task with
  | none => exact .refl _
  | some k => exact ⟨[.finish k ending, .clear k, .send k], rfl, rfl⟩

theorem leads_resume (x : Clockwork) (place : Option Strand) :
    x.backend.Leads [] (x.resume place).backend := by
  cases place with
  | none => exact .refl _
  | some t =>
    rw [resume]
    split
    · exact .refl _
    · exact leads_settle ..

theorem leads_round (x : Clockwork) : x.backend.Leads [] x.round.backend := by
  have hplaces : ∀ (places : List (Option Strand)) (y : Clockwork),
      y.backend.Leads [] (places.foldl resume y).backend := by
    intro places
    induction places with
    | nil => exact fun y => .refl _
    | cons place places ih => exact fun y => (leads_resume y place).trans (ih _)
  exact hplaces _ _

/-- Only tasks go on while the driver waits. -/
theorem leads_advance (eager : Bool) (alarm : Alarm) (x : Clockwork) :
    x.backend.Leads [] (advance eager alarm x).backend := by
  fun_induction advance eager alarm x with
  | case1 => exact .refl _
  | case2 _ _ _ _ _ ih => exact ih
  | case3 => exact leads_round _
  | case4 _ _ _ _ ih => exact (leads_round _).trans ih

theorem leads_afford (x : Clockwork) : x.backend.Leads [] x.afford.backend := by
  rw [afford]
  split
  · exact leads_round x
  · exact .refl _

theorem leads_spend (x : Clockwork) : x.backend.Leads [] x.spend.backend := leads_afford x

theorem leads_stop (x : Clockwork) (key : InvocationId ⊕ TimerId) :
    x.backend.Leads [.cancel key] (x.stop key).backend := by
  rw [stop]
  split
  · next hnone =>
    refine ⟨[.cancel key], rfl, ?_⟩
    rw [Backend.makes, List.foldl_cons, List.foldl_nil, Backend.make, hnone]
  · next k _ =>
    refine ⟨[.cancel key, .drop k], rfl, ?_⟩
    rw [halt]
    split <;> rfl

/-- What is looked at when something is to be received. -/
theorem receive_eq (x : Clockwork) (duration : Nat) :
    ∃ y : Clockwork, x.backend.Leads [] y.backend ∧
      x.receive duration =
        match y.backend.channel with
        | [] => (none, y.spend)
        | e :: _ => (some e, (y.makes [.take]).spend) := by
  refine ⟨_, ?_, rfl⟩
  split
  · exact leads_afford x
  · exact (leads_afford x).trans (leads_advance ..)

instance : LawfulExecutor Clockwork where
  dispatch x d := ⟨_, rfl, rfl⟩
  cancel x n := leads_stop x (.inl n)
  schedule x t duration := ⟨_, rfl, rfl⟩
  cancelTimer x t := leads_stop x (.inr t)
  reach := leads_spend
  receive_none {x x' patience} h := by
    obtain ⟨y, hy, heq⟩ := receive_eq x patience
    rw [show Executor.receive x patience = x.receive patience from rfl, heq] at h
    split at h
    · cases h
      exact hy.trans (leads_spend y)
    · cases h
  receive_some {x x' patience e} h := by
    obtain ⟨y, hy, heq⟩ := receive_eq x patience
    rw [show Executor.receive x patience = x.receive patience from rfl, heq] at h
    split at h
    · cases h
    · next e' rest hchannel =>
      cases h
      exact ⟨y.backend, hy, by rw [hchannel]; rfl, leads_spend (y.makes [.take])⟩

end Clockwork

end EventFlow

import EventFlow.Proofs.Instance.Reached
import EventFlow.Proofs.Instance.Turn
import EventFlow.Proofs.Path
import Mathlib.Logic.Relation

/-!
# How children are asked for

A child is asked for in one instruction, which does three things at once: it takes a new identity
from the source, writes it where the flow wants it, and asks for an instance with this identity.  So
whoever has asked for a child can find it.

## What is here

* `Machine.Issues` says that a child was asked for in the run of a machine, with all of this.
* `children_of_step` inverts a step; **`issues_run`** and its corollaries for calls collect what was
  asked for in a run.
-/

set_option autoImplicit false

namespace EventFlow

variable {Compiled Found : Type} [Query.Library Compiled Found]

/-- A child was asked for in the run of a machine: at some point a head has started the flow with a
new identity, and finds that identity in the variable that was to take it. -/
structure Machine.Issues (program : Program) (m : Machine) (r : ChildRequest)
    (before after : Machine) (position : Nat) (child : Option Variable) (h : Head) : Prop where
  reached : Relation.ReflTransGen (fun m m' : Machine => m.step? program = some m') m before
  step : before.step? program = some after
  instruction : program.fetch position = .startFlow r.flow child
  reserved : r.instanceId = before.world.ids.nextInstance.1 ∧
    after.world.ids = before.world.ids.nextInstance.2
  asked : after.effects.children = before.effects.children ++ [r]
  parent : h ∈ after.inst.heads ∧ h.id = r.head ∧ h.bindings = r.bindings
  bound : ∀ v ∈ child, (after.inst.scope after.world.globals h).lookup? v =
    some (.str r.instanceId.text)

/-- A child was asked for in the run of a machine. -/
def Machine.Starts (program : Program) (m : Machine) (r : ChildRequest) : Prop :=
  ∃ before after position child h, m.Issues program r before after position child h

section Issuing

open Instance

variable {program : Program} {i i' : Instance} {w w' : World} {h : Head} {k : Nat}
  {m m' : Machine} {e : Event} {id : HeadId} {f : Effects} {r : ChildRequest}

/-- What was written to a variable is found there. -/
theorem lookup?_bindOption (i : Instance) (v : Option Variable) (value : Json) (h : Head)
    (w : World) : ∀ x ∈ v, (i.scope (bindOption v value h w).2.globals
      (bindOption v value h w).1).lookup? x = some value := by
  rintro ⟨owner, name⟩ hx
  rw [Option.mem_def] at hx
  subst hx
  cases owner <;> exact Path.get?_set ..

theorem world_bindOption (v : Option Variable) (value : Json) (h : Head) (w : World) :
    (bindOption v value h w).2.ids = w.ids := by
  cases v with
  | none => rfl
  | some v =>
    rw [bindOption, bind]
    split <;> rfl

theorem children_execute (i : Instance) (w : World) (h : Head) (instr : Instruction) :
    (i.execute w h instr).2.2.children = [] ∨ ∃ flow child, instr = .startFlow flow child := by
  cases instr with
  | startFlow flow child => exact .inr ⟨flow, child, rfl⟩
  | send event =>
    simp only [execute, executeSend]
    split <;> exact .inl rfl
  | call spec =>
    simp only [execute, executeCall]
    split
    · exact .inl rfl
    · split <;> exact .inl rfl
  | branch condition otherwise =>
    simp only [execute]
    split <;> exact .inl rfl
  | fork starts => cases starts <;> exact .inl rfl
  | assign target value =>
    simp only [execute]
    split <;> exact .inl rfl
  | _ => exact .inl rfl

/-- A machine that starts a flow takes an identity, writes it to the variable, and asks for the
child. -/
theorem issues_turn (hr : m.Runs h k) {flow : FlowId} {child : Option Variable}
    (hi : program.fetch h.position = .startFlow flow child) :
    ∃ r x, m.Issues program r m (m.turn program k h) h.position child x := by
  obtain ⟨bindings, hb⟩ := bindOption_head child (.str m.world.ids.nextInstance.1.text) h
    { m.world with ids := m.world.ids.nextInstance.2 }
  have hlookup := lookup?_bindOption m.inst child (.str m.world.ids.nextInstance.1.text) h
    { m.world with ids := m.world.ids.nextInstance.2 }
  have hids := world_bindOption child (.str m.world.ids.nextInstance.1.text) h
    { m.world with ids := m.world.ids.nextInstance.2 }
  refine ⟨⟨flow, m.world.ids.nextInstance.1, bindings, h.id⟩,
    Head.advance { h with bindings }, .refl, hr.step?, hi, ⟨rfl, ?_⟩, ?_, ⟨?_, rfl, rfl⟩, ?_⟩
  all_goals
    rw [Machine.turn, hi]
    simp only [execute, hb]
  · exact hids
  · rfl
  · exact List.mem_set (List.getElem?_eq_some_iff.1 hr.getElem?).1 _
  · intro v hv
    have hfound := hlookup v hv
    rw [hb] at hfound
    exact hfound

/-- **A step asks for no child, or issues one.** -/
theorem children_of_step (hs : m.step? program = some m') :
    m'.effects.children = m.effects.children ∨
      ∃ r position child x, m.Issues program r m m' position child x := by
  rcases Machine.step?_eq hs with ⟨id, rest, -, rfl, -⟩ | ⟨x, k, hr, rfl⟩
  · exact .inl rfl
  · rcases children_execute m.inst m.world x (program.fetch x.position) with hnone |
      ⟨flow, child, hi⟩
    · left
      have hchildren : (m.effects.append (m.inst.execute m.world x
          (program.fetch x.position)).2.2).children = m.effects.children := by
        rw [Effects.append, hnone, List.append_nil]
      rw [Machine.turn]
      generalize m.inst.execute m.world x (program.fetch x.position) = turned at hchildren
      obtain ⟨turn, world, effects⟩ := turned
      cases turn with
      | split first others => exact (List.append_nil _).trans hchildren
      | _ => exact hchildren
    · obtain ⟨r, y, hissues⟩ := issues_turn hr hi
      exact .inr ⟨r, _, child, y, hissues⟩

/-- **What a run asks for has been issued in it.** -/
theorem starts_run (program : Program) (m : Machine) :
    ∀ r ∈ (m.run program).effects.children, r ∈ m.effects.children ∨ m.Starts program r := by
  refine (@Machine.run_of_step _ _ _ program m (fun m' =>
    Relation.ReflTransGen (fun m m' : Machine => m.step? program = some m') m m' ∧
      ∀ r ∈ m'.effects.children, r ∈ m.effects.children ∨ m.Starts program r) ?_
    ⟨.refl, fun r hr => .inl hr⟩).2
  rintro m₁ m₂ ⟨hreach, hold⟩ hs
  refine ⟨hreach.tail hs, fun r hr => ?_⟩
  rcases children_of_step hs with hsame | ⟨r', position, child, x, hissues⟩
  · exact hold r (hsame ▸ hr)
  · rw [hissues.asked, List.mem_append, List.mem_singleton] at hr
    rcases hr with hr | rfl
    · exact hold r hr
    · exact .inr ⟨m₁, m₂, position, child, x, { hissues with reached := hreach }⟩

/-- What a call asks for has been issued in a run of the instance. -/
theorem starts_start (program : Program) (i : Instance) (w : World) :
    ∀ r ∈ (i.start program w).2.2.children, (Machine.starting i w).Starts program r :=
  fun r hr => (starts_run program (.starting i w) r hr).resolve_left nofun

theorem starts_advance? (ha : i.advance? program w id e = some (i', w', f)) :
    ∃ m, Machine.advancing? i w id e = some m ∧ ∀ r ∈ f.children, m.Starts program r := by
  rw [advance?_eq] at ha
  obtain ⟨m, hm, hout⟩ := Option.map_eq_some_iff.1 ha
  refine ⟨m, hm, fun r hr => ?_⟩
  have hnone : m.effects.children = [] := by
    rw [Machine.advancing?] at hm
    split at hm
    · cases hm
    · simp only [Option.bind_eq_bind, Option.bind_eq_some_iff, Prod.exists, Option.pure_def,
        Option.some.injEq] at hm
      obtain ⟨h, k, -, x, -, rfl⟩ := hm
      rfl
  have hout' : f = (m.run program).effects := (congrArg (·.2.2) hout).symm
  rw [hout'] at hr
  refine (starts_run program m r hr).resolve_left fun hmem => ?_
  rw [hnone] at hmem
  cases hmem

end Issuing

end EventFlow

import EventFlow.Proofs.Flow.Valid
import EventFlow.Proofs.Path

/-!
# The names a flow binds

Elements of a flow give a head names in two ways: they write to variables, and they wait for events
whose fields patterns capture.  What is written to was checked when the flow was loaded, and is none
of the names that queries find something else under.  The variables of patterns were checked too,
but only for their form.

## What is here

* `Pattern.binders` and `Variable.binders` are the names that a pattern or a variable may add to the
  bindings of a head; `Instruction.binders` puts them together.
* `Flow.Awaits` says which patterns a flow has.
* **`within_of_load`**: a reserved name that a flow binds is bound by a pattern.
-/

set_option autoImplicit false

namespace EventFlow

variable {Compiled Found : Type} [Query.Library Compiled Found]

/-- The variable that a constraint may bind. -/
def Constraint.binder? : Constraint → Option String
  | var name => some name
  | any | literal _ => none

/-- The names that a pattern may bind. -/
def Pattern.binders (p : Pattern) : List String :=
  (Dict.values p.fields).filterMap Constraint.binder?

/-- The names of a head that writing to a variable may bind. -/
def Variable.binders (v : Variable) : List String :=
  match v.owner with
  | .head => [v.root]
  | .conversation => []

/-- The names that executing an instruction may bind, at once or when its head goes on. -/
def Instruction.binders : Instruction → List String
  | expect pattern => pattern.binders
  | race arms => arms.flatMap fun a => a.1.binders
  | call spec => (spec.result.toList ++ spec.invocation.toList).flatMap Variable.binders
  | assign target _ => target.binders
  | startTimer _ timer => timer.toList.flatMap Variable.binders
  | startFlow _ child => child.toList.flatMap Variable.binders
  | send _ | branch _ _ | jump _ | fork _ | join | abort _ | finish => []

/-- All names satisfy `P` that a program may bind. -/
def Program.Within (P : String → Prop) (program : Program) : Prop :=
  ∀ p, ∀ k ∈ (program.fetch p).binders, P k

/-- A flow is activated by an event that a pattern expects, or an element of it waits for one. -/
inductive Flow.Awaits (f : Flow) (p : Pattern) : Prop
  | activation (activates : f.activation = some p)
  | expect (occurs : Occurs (.expect p) f.body)
  | race {arms : List (Pattern × List Element)} {body : List Element}
      (occurs : Occurs (.race arms) f.body) (arm : (p, body) ∈ arms)

section Binders

variable {f : Flow} {l : LoadedFlow} {p : Pattern} {P : String → Prop}

/-! ## Checks -/

/-- What is written to is a name without a dot, and not reserved. -/
theorem Variable.binders_of_check {v : Variable} (h : v.check = .ok ()) :
    ∀ k ∈ v.binders, '.' ∉ k.toList ∧ k ∉ reserved := by
  obtain ⟨owner, name⟩ := v
  cases owner with
  | conversation => exact List.forall_mem_nil _
  | head =>
    rw [check, bind_ok_iff, refuseIf_ok_iff, refuseIf_ok_iff] at h
    refine List.forall_mem_singleton.2 ⟨Path.notMem_root name, ?_⟩
    simpa using h.2

/-- What a pattern binds is a name without a dot; it may well be reserved. -/
theorem Pattern.binders_of_check (h : p.check = .ok ()) : ∀ k ∈ p.binders, '.' ∉ k.toList := by
  intro k hk
  obtain ⟨c, hc, hk⟩ := List.mem_filterMap.1 hk
  obtain ⟨field, hfield, rfl⟩ := List.mem_map.1 hc
  obtain ⟨path, c⟩ := field
  rw [check, bind_ok_iff] at h
  have hchecked := forM_ok_iff.1 h.2 (path, c) hfield
  rw [checkField, bind_ok_iff] at hchecked
  cases c with
  | var name =>
    cases hk
    simpa [refuseIf_ok_iff] using (Bool.or_eq_false_iff.1 (refuseIf_ok_iff.1 hchecked.2)).2
  | any | literal => cases hk

/-! ## Loaded flows -/

/-- The patterns of a flow passed their checks. -/
theorem check_of_awaits (h : f.load = .ok l) (hp : f.Awaits p) : p.check = .ok () := by
  obtain ⟨-, hactivation, hbody⟩ := Flow.load_eq h
  have hall := check_of_mem_body hbody
  cases hp with
  | activation hp => exact hactivation p hp
  | expect ho =>
    have hcheck := check_of_occurs ho hall
    rwa [Element.check] at hcheck
  | race ho harm =>
    have hcheck := check_of_occurs ho hall
    rw [Element.check, bind_ok_iff] at hcheck
    exact (checkArms_ok_iff.1 hcheck.2 _ harm).1

/-- A flow awaits whatever pattern stands in its program. -/
theorem awaits_of_fetch (h : f.load = .ok l) {q : Nat} (hp : p ∈ (l.program.fetch q).patterns) :
    f.Awaits p := by
  obtain ⟨hprogram, -⟩ := Flow.load_ok h
  rw [hprogram] at hp
  cases hq : (Program.ofBody f.body).fetch q with
  | expect pattern =>
    rw [hq] at hp
    rw [List.mem_singleton.1 hp]
    exact .expect (occurs_of_fetch (p := q) (by rw [hq]; rfl))
  | race starts =>
    obtain ⟨arms, ho, hsame⟩ := occurs_race hq
    rw [hq, Instruction.patterns, hsame] at hp
    obtain ⟨arm, harm, rfl⟩ := List.mem_map.1 hp
    exact .race ho harm
  | _ =>
    rw [hq] at hp
    cases hp

/-- An instruction binds names by the patterns it has, and by the variables it writes to. -/
theorem Instruction.mem_binders {instr : Instruction} {k : String} (hk : k ∈ instr.binders) :
    (∃ p ∈ instr.patterns, k ∈ p.binders) ∨ ∃ v ∈ instr.writes, k ∈ v.binders := by
  cases instr with
  | expect pattern => exact .inl ⟨pattern, List.mem_singleton_self _, hk⟩
  | race arms =>
    obtain ⟨a, ha, hk⟩ := List.mem_flatMap.1 hk
    exact .inl ⟨a.1, List.mem_map_of_mem ha, hk⟩
  | assign target value => exact .inr ⟨target, List.mem_singleton_self _, hk⟩
  | call | startTimer | startFlow => exact .inr (List.mem_flatMap.1 hk)
  | send | branch | jump | fork | join | abort | finish => cases hk

/-- **A flow binds reserved names by its patterns only.**  No name it binds has a dot. -/
theorem within_of_load (h : f.load = .ok l)
    (hvariable : ∀ k, '.' ∉ k.toList → k ∉ Variable.reserved → P k)
    (hpattern : ∀ p, f.Awaits p → ∀ k ∈ p.binders, '.' ∉ k.toList → P k) :
    l.program.Within P := by
  intro q k hk
  have hvalid := valid_of_load h q
  rcases Instruction.mem_binders hk with ⟨p, hp, hk⟩ | ⟨v, hv, hk⟩
  · exact hpattern p (awaits_of_fetch h hp) k hk
      (Pattern.binders_of_check (hvalid.patterns p hp) k hk)
  · obtain ⟨hdot, hreserved⟩ := Variable.binders_of_check (hvalid.writes v hv) k hk
    exact hvariable k hdot hreserved

end Binders

end EventFlow

import EventFlow.Proofs.Flow.Parts

/-!
# Valid instructions

The check of a flow walks its elements, at whatever depth they are nested.  What runs are the
instructions they are lowered to.  Every instruction has the parts of an element that was checked,
so what an element is checked for is true of the instruction, wherever a head may come.

## What is here

* `Instruction.patterns`, `Instruction.writes`, `Instruction.templates` and
  `Instruction.condition?` are the parts of an instruction, and `Instruction.expressions` are all
  that it evaluates.  `Instruction.Valid` says what they are checked for.

**`valid_of_load`** says that the instructions of a loaded flow are valid.
-/

set_option autoImplicit false

namespace EventFlow

variable {Compiled Found : Type} [Query.Library Compiled Found]

/-- The expression that a template holds. -/
def Template.expression? : Template → Option String
  | expr expression => some expression
  | literal _ | var _ => none

namespace Instruction

/-- The patterns of the events an instruction waits for. -/
def patterns : Instruction → List Pattern
  | expect pattern => [pattern]
  | race arms => arms.map Prod.fst
  | _ => []

/-- The variables an instruction writes to, at once or when its head goes on. -/
def writes : Instruction → List Variable
  | call spec => spec.result.toList ++ spec.invocation.toList
  | assign target _ => [target]
  | startTimer _ timer => timer.toList
  | startFlow _ child => child.toList
  | _ => []

/-- The templates an instruction computes. -/
def templates : Instruction → List Template
  | send event => Dict.values event.payload
  | call spec => Dict.values spec.args
  | assign _ value => [value]
  | _ => []

/-- The condition an instruction decides. -/
def condition? : Instruction → Option String
  | branch condition _ => some condition
  | _ => none

/-- The expressions an instruction evaluates: its condition, and those of its templates. -/
def expressions (instr : Instruction) : List String :=
  instr.condition?.toList ++ instr.templates.filterMap Template.expression?

/-- Everything an instruction is checked for. -/
structure Valid (instr : Instruction) : Prop where
  patterns : ∀ p ∈ instr.patterns, p.check = .ok ()
  writes : ∀ v ∈ instr.writes, v.check = .ok ()
  templates : ∀ t ∈ instr.templates, t.check = .ok ()
  condition : ∀ c ∈ instr.condition?, checkExpression c = .ok ()
  branches : instr ≠ .fork []
  arms : instr ≠ .race []

end Instruction

section Validity

variable {f : Flow} {l : LoadedFlow}

theorem check_of_checkTarget {v : Option Variable} (h : checkTarget v = .ok ()) :
    ∀ x ∈ v.toList, x.check = .ok () := by
  cases v with
  | none => exact List.forall_mem_nil _
  | some v => exact List.forall_mem_singleton.2 h

/-- An instruction is valid if it comes from an element that passes its check. -/
theorem valid_of_plain? {instr : Instruction} {e : Element} (hp : instr.plain? = some e)
    (he : e.check = .ok ()) : instr.Valid := by
  have hnone {α : Type} {P : α → Prop} : ∀ x ∈ (none : Option α), P x := nofun
  cases instr with
  | expect pattern =>
    cases hp
    rw [Element.check] at he
    exact ⟨List.forall_mem_singleton.2 he, nofun, nofun, hnone, nofun, nofun⟩
  | send event =>
    cases hp
    rw [Element.check, SendSpec.check, bind_ok_iff, bind_ok_iff] at he
    exact ⟨nofun, nofun, forM_ok_iff.1 he.2.2, hnone, nofun, nofun⟩
  | call spec =>
    cases hp
    rw [Element.check, CallSpec.check, bind_ok_iff, bind_ok_iff, bind_ok_iff, bind_ok_iff] at he
    obtain ⟨-, -, hargs, hresult, hinvocation⟩ := he
    exact ⟨nofun, List.forall_mem_append.2
      ⟨check_of_checkTarget hresult, check_of_checkTarget hinvocation⟩, forM_ok_iff.1 hargs, hnone,
      nofun, nofun⟩
  | assign target value =>
    cases hp
    rw [Element.check, bind_ok_iff] at he
    exact ⟨nofun, List.forall_mem_singleton.2 he.1, List.forall_mem_singleton.2 he.2, hnone, nofun,
      nofun⟩
  | startTimer duration timer =>
    cases hp
    rw [Element.check] at he
    exact ⟨nofun, check_of_checkTarget he, nofun, hnone, nofun, nofun⟩
  | startFlow flow child =>
    cases hp
    rw [Element.check, bind_ok_iff] at he
    exact ⟨nofun, check_of_checkTarget he.2, nofun, hnone, nofun, nofun⟩
  | join | abort => exact ⟨nofun, nofun, nofun, hnone, nofun, nofun⟩
  | branch | jump | fork | race | finish => cases hp

/-- The expressions of a valid instruction pass their checks. -/
theorem Instruction.Valid.expressions {instr : Instruction} (hv : instr.Valid) :
    ∀ x ∈ instr.expressions, checkExpression x = .ok () := by
  refine List.forall_mem_append.2 ⟨fun c hc => hv.condition c (Option.mem_toList.1 hc), ?_⟩
  intro x hx
  obtain ⟨t, ht, hx⟩ := List.mem_filterMap.1 hx
  have hcheck := hv.templates t ht
  cases t with
  | expr expression =>
    cases hx
    exact hcheck
  | literal | var => cases hx

/-- **The instructions of a loaded flow are valid.** -/
theorem valid_of_load (h : f.load = .ok l) (p : Nat) : (l.program.fetch p).Valid := by
  obtain ⟨hprogram, hbody⟩ := Flow.load_ok h
  have hnone {α : Type} {P : α → Prop} : ∀ x ∈ (none : Option α), P x := nofun
  have hchecked {e : Element} (ho : Occurs e f.body) : e.check = .ok () :=
    check_of_occurs ho (check_of_mem_body hbody)
  rw [hprogram]
  cases hp : ((Program.ofBody f.body).fetch p).plain? with
  | some e => exact valid_of_plain? hp (hchecked (occurs_of_fetch hp))
  | none =>
    cases hi : (Program.ofBody f.body).fetch p with
    | branch condition otherwise =>
      obtain ⟨yes, no, ho⟩ := occurs_branch hi
      have hcheck := hchecked ho
      rw [Element.check, bind_ok_iff] at hcheck
      exact ⟨nofun, nofun, nofun, fun c hc => Option.some.inj hc ▸ hcheck.1, nofun, nofun⟩
    | fork starts =>
      obtain ⟨branches, ho, hlength⟩ := occurs_fork hi
      have hcheck := hchecked ho
      rw [Element.check, bind_ok_iff, refuseIf_ok_iff] at hcheck
      refine ⟨nofun, nofun, nofun, hnone, fun hnil => ?_, nofun⟩
      cases hnil
      rw [List.length_eq_zero_iff.1 hlength.symm] at hcheck
      cases hcheck.1
    | race starts =>
      obtain ⟨arms, ho, hsame⟩ := occurs_race hi
      have hcheck := hchecked ho
      rw [Element.check, bind_ok_iff, refuseIf_ok_iff] at hcheck
      refine ⟨fun p hp => ?_, nofun, nofun, hnone, nofun, fun hnil => ?_⟩
      · rw [Instruction.patterns, hsame] at hp
        obtain ⟨arm, harm, rfl⟩ := List.mem_map.1 hp
        exact (checkArms_ok_iff.1 hcheck.2 arm harm).1
      · cases hnil
        rw [List.map_eq_nil_iff.1 hsame.symm] at hcheck
        cases hcheck.1
    | jump | finish => exact ⟨nofun, nofun, nofun, hnone, nofun, nofun⟩
    | expect | send | call | join | assign | startTimer | startFlow | abort =>
      rw [hi] at hp
      cases hp

end Validity

end EventFlow

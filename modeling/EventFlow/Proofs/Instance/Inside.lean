import EventFlow.Proofs.Flow.Assembly
import EventFlow.Proofs.Instance.Running
import EventFlow.Query.Eval
import Mathlib

/-!
# Heads stay inside their program

Beyond the last instruction of a program there is nothing to do, and a head that came there would
finish as if it had come to the end.  No head comes there.  The end is the last instruction and
nothing else is, so whatever goes on at the next instruction has one; and whatever goes on elsewhere
goes on at a target, which lies inside.

## What is here

* `Program.Closed` says that all targets lie ahead and inside, and that the end is the last
  instruction; `closed_ofBody` proves it of the program of every body.
* `Program.Pairs.inside`: the positions of a closed program are closed under all that a head does.
* `Head.Inside` says that a head stands inside a program and waits for nothing that leads out of it.

**`jumps_and_heads_stay_inside`** is the main result, for every flow that may be loaded.
-/

set_option autoImplicit false

namespace EventFlow

section

variable {Compiled Found : Type} [Query.Library Compiled Found]

/-! ## Closed programs -/

/-- All targets lie ahead and inside, and the end comes once, as the last instruction. -/
structure Program.Closed (program : Program) : Prop where
  targets : ∀ p i, program.instructions[p]? = some i →
    ∀ t ∈ i.targets, p < t ∧ t < program.instructions.length
  finish : ∃ is, program.instructions = is ++ [.finish] ∧ .finish ∉ is

mutual

theorem Element.finish_notMem_lower (p : Nat) : ∀ e : Element, .finish ∉ e.lower p
  | .branch _ yes no => by
    simp [Element.lower, finish_notMem_lowerBody _ yes, finish_notMem_lowerBody _ no]
  | .fork branches => by simp [Element.lower, finish_notMem_lowerBranches _ _ branches]
  | .race arms => by simp [Element.lower, finish_notMem_lowerArms _ _ arms]
  | .expect _ | .send _ | .call _ | .join | .assign _ _ | .startTimer _ _ | .startFlow _ _
  | .abort _ => by simp [Element.lower]

theorem finish_notMem_lowerBody (p : Nat) : ∀ es : List Element, .finish ∉ lowerBody p es
  | [] => by simp [lowerBody]
  | e :: es => by simp [lowerBody, e.finish_notMem_lower, finish_notMem_lowerBody _ es]

theorem finish_notMem_lowerBranches (p stop : Nat) :
    ∀ bs : List (List Element), .finish ∉ lowerBranches p stop bs
  | [] => by simp [lowerBranches]
  | b :: bs => by
    simp [lowerBranches, finish_notMem_lowerBody _ b, finish_notMem_lowerBranches _ _ bs]

theorem finish_notMem_lowerArms (p stop : Nat) :
    ∀ arms : List (Pattern × List Element), .finish ∉ lowerArms p stop arms
  | [] => by simp [lowerArms]
  | (_, b) :: arms => by
    simp [lowerArms, finish_notMem_lowerBody _ b, finish_notMem_lowerArms _ _ arms]

end

/-- The program of a body is closed: the body reaches no further than to the end. -/
theorem closed_ofBody (body : List Element) : (Program.ofBody body).Closed where
  targets := by
    have hahead : Ahead 0 (bodySize body) (Program.ofBody body).instructions :=
      .append (by simpa using ahead_lowerBody 0 body) (.single rfl)
    intro p i hi t ht
    have ht := hahead p i hi t ht
    rw [Program.ofBody, List.length_append, length_lowerBody, List.length_singleton]
    omega
  finish := ⟨lowerBody 0 body, rfl, finish_notMem_lowerBody 0 body⟩

section Inside

variable {program : Program} {Safe : Nat → Prop} {J : Nat → List Nat} {p q : Nat}

/-- Inside a program, what is fetched is one of its instructions. -/
theorem Program.getElem?_of_lt (hp : p < program.instructions.length) :
    program.instructions[p]? = some (program.fetch p) := by
  rw [fetch, List.getElem?_eq_getElem hp, Option.getD_some]

/-- Only the end has no instruction behind it. -/
theorem Program.Closed.succ_lt (hc : program.Closed) (hp : p < program.instructions.length)
    (hi : program.fetch p ≠ .finish) : p + 1 < program.instructions.length := by
  obtain ⟨is, his, -⟩ := hc.finish
  have hget := getElem?_of_lt hp
  rw [his, List.length_append, List.length_singleton] at hp ⊢
  by_contra hlast
  rw [his, List.getElem?_append_right (by omega), show p - is.length = 0 by omega] at hget
  exact hi (Option.some.inj hget).symm

/-- A head that goes on goes on at a target or at the next instruction. -/
theorem Instruction.mem_exits {i : Instruction} (hq : q ∈ i.exits p) :
    q ∈ i.targets ∨ q = p + 1 ∧ i ≠ .finish := by
  cases i with
  | branch condition otherwise =>
    rcases List.mem_cons.1 hq with rfl | hq
    · exact .inr ⟨rfl, nofun⟩
    · exact .inl hq
  | jump | race => exact .inl hq
  | fork | join | abort | finish => cases hq
  | _ => exact .inr ⟨List.mem_singleton.1 hq, nofun⟩

/-- In a closed program whatever heads do leads from inside to inside. -/
theorem Program.Pairs.inside (hp : program.Pairs Safe J) (hc : program.Closed) :
    program.Pairs (fun p => Safe p ∧ p < program.instructions.length) J where
  start := by
    obtain ⟨is, his, -⟩ := hc.finish
    exact ⟨⟨hp.start.1, by rw [his]; simp⟩, hp.start.2⟩
  exits p hs q hq := by
    obtain ⟨hsafe, hJ⟩ := hp.exits p hs.1 q hq
    rcases Instruction.mem_exits hq with ht | ⟨rfl, hi⟩
    · exact ⟨⟨hsafe, (hc.targets p _ (getElem?_of_lt hs.2) q ht).2⟩, hJ⟩
    · exact ⟨⟨hsafe, hc.succ_lt hs.2 hi⟩, hJ⟩
  fork p starts hs hi := by
    obtain ⟨hne, js, hjs, hstarts⟩ := hp.fork p starts hs.1 hi
    refine ⟨hne, js, hjs, fun s hmem => ⟨⟨(hstarts s hmem).1, ?_⟩, (hstarts s hmem).2⟩⟩
    exact (hc.targets p _ (getElem?_of_lt hs.2) s (by rwa [hi])).2
  join p hs hi := by
    obtain ⟨hsafe, hJ⟩ := hp.join p hs.1 hi
    exact ⟨⟨hsafe, hc.succ_lt hs.2 (by rw [hi]; nofun)⟩, hJ⟩
  finish p hs hi := hp.finish p hs.1 hi

/-! ## Heads -/

/-- A head stands inside a program, and whatever it waits for leads inside. -/
structure Head.Inside (program : Program) (h : Head) : Prop where
  position : h.position < program.instructions.length
  resumes : ∀ x ∈ h.expectations, x.resume < program.instructions.length

/-- Heads that are laid out over the inside of a program are inside. -/
theorem Instance.Laid.inside {i : Instance}
    (hp : program.Pairs (fun p => Safe p ∧ p < program.instructions.length) J)
    (hl : i.Laid program (fun p => Safe p ∧ p < program.instructions.length) J) :
    ∀ h ∈ i.heads, h.Inside program := by
  intro h hh
  obtain ⟨L, hL⟩ := hl.tracked
  have hsafe := (hL h hh).1
  exact ⟨hsafe.2, fun x hx => (hp.exits _ hsafe _ ((hl.stands h hh).resume hx).1).1.2⟩

end Inside

/-- **Jumps and heads stay inside the program.**  A flow that may be loaded has the instructions
that are assembled in one pass, if it has fewer of them than there are positions.  No placeholder is
left in them: every target lies ahead of its instruction and not beyond the last one, and every fork
and every race has been given its starts.  The end comes once, as the last instruction.  Whatever
calls make of an instance, its heads stand inside the program and wait for nothing that leads out of
it, so that a head that runs always finds an instruction. -/
theorem jumps_and_heads_stay_inside {f : Flow} {l : LoadedFlow} (hl : f.load = .ok l)
    (hsize : l.program.instructions.length < unpatched) :
    assemble f.body = l.program.instructions ∧
    (∀ p i, l.program.instructions[p]? = some i →
      (∀ t ∈ i.targets, p < t ∧ t + 1 ≤ l.program.instructions.length ∧ t ≠ unpatched) ∧
      i ≠ .fork [] ∧ i ≠ .race []) ∧
    (∃ is, l.program.instructions = is ++ [.finish] ∧ .finish ∉ is) ∧
    (∀ i : Instance, i.Reached l.program → ∀ h ∈ i.heads, h.Inside l.program) ∧
    ∀ m : Machine, m.Passed l.program → (∀ h ∈ m.inst.heads, h.Inside l.program) ∧
      ∀ h k, m.Runs h k →
        l.program.instructions[h.position]? = some (l.program.fetch h.position) := by
  obtain ⟨hprogram, -⟩ := Flow.load_ok hl
  have hclosed : l.program.Closed := hprogram ▸ closed_ofBody f.body
  obtain ⟨Safe, J, hpairs⟩ := exists_pairs hl
  have hp := hpairs.inside hclosed
  have hpassed {m : Machine} (hm : m.Passed l.program) : ∀ h ∈ m.inst.heads, h.Inside l.program :=
    (hm.sound hp).inst.toLaid.inside hp
  refine ⟨?_, fun p i hi => ⟨fun t ht => ?_, ?_⟩, hclosed.finish,
    fun i hi => (hi.rests hp).sound.toLaid.inside hp,
    fun m hm => ⟨hpassed hm, fun h k hr => ?_⟩⟩
  · rw [hprogram]
    refine assemble_eq ?_
    rw [hprogram, Program.ofBody, List.length_append, length_lowerBody, unpatched] at hsize
    omega
  · have htarget := hclosed.targets p i hi t ht
    omega
  · have hvalid := valid_of_load hl p
    rw [Program.fetch, hi] at hvalid
    exact ⟨hvalid.branches, hvalid.arms⟩
  · exact Program.getElem?_of_lt (hpassed hm h hr.mem).position

end

/-- A flow that waits for two events at once, and for one of them not forever. -/
def deadline : Flow where
  id := ⟨"deadline"⟩
  description := none
  priority := none
  activation := none
  body := [.fork [[.expect ⟨"left", []⟩],
    [.race [(⟨"right", []⟩, []), (⟨"late", []⟩, [.branch "strict" [.abort "late"] []])]]], .join]

theorem jumps_and_heads_stay_inside_deadline :
    ∃ l, deadline.load = .ok l ∧ l.program.instructions.length < unpatched ∧
      assemble deadline.body = l.program.instructions ∧
      (∃ i : Instance, i.Reached l.program ∧ ∀ h ∈ i.heads, h.Inside l.program) ∧
      ∃ (m : Machine) (h : Head) (k : Nat), m.Passed l.program ∧ m.Runs h k ∧
        h.Inside l.program ∧
        l.program.instructions[h.position]? = some (l.program.fetch h.position) := by
  have hl : deadline.load = .ok ⟨deadline, .ofBody deadline.body⟩ := by cbv
  have hsize : (Program.ofBody deadline.body).instructions.length < unpatched := by decide
  have hstart : Instance.Reached (.ofBody deadline.body) _ :=
    .start ⟨"i"⟩ deadline.id 0 0 none [] 0 ⟨[], .seeded 0⟩
  have hfirst : Machine.Passed (.ofBody deadline.body) _ :=
    .start ⟨"i"⟩ deadline.id 0 0 none [] 0 ⟨[], .seeded 0⟩
  have hruns : Machine.Runs (.starting (.spawn ⟨"i"⟩ deadline.id 0 0 none [] 0) ⟨[], .seeded 0⟩)
    ⟨⟨0⟩, 0, .ready, [], [], 0⟩ 0 := ⟨⟨[], rfl⟩, rfl, rfl⟩
  obtain ⟨hassembled, -, -, hreached, hpassed⟩ := jumps_and_heads_stay_inside hl hsize
  obtain ⟨hinside, hget⟩ := hpassed _ hfirst
  exact ⟨_, hl, hsize, hassembled, ⟨_, hstart, hreached _ hstart⟩,
    _, _, _, hfirst, hruns, hinside _ hruns.mem, hget _ _ hruns⟩

end EventFlow

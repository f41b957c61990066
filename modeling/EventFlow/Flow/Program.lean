import EventFlow.Flow.Element

/-!
# Programs

A head stands at a position of a `Program`, the list of instructions its flow's body is lowered to.
Nested sequences are laid out one after the other behind the instruction they belong to; each ends
in a jump to what follows that instruction, except the last one of a branch, which falls through.
The size of a sequence says where the next one starts, so every target is known when its instruction
is written.

All targets lie ahead of the instructions that hold them (`Ahead`), which is what makes running a
head end; a `Program` carries the proof.
-/

set_option autoImplicit false

namespace EventFlow

/-- The text of a position, the index of an instruction. -/
def positionText (p : Nat) : String := "@" ++ toString p

/-- A lowered element. -/
inductive Instruction
  | expect (pattern : Pattern)
  | send (event : SendSpec)
  | call (spec : CallSpec)
  /-- Go on at the next instruction when the condition holds, and elsewhere when it does not. -/
  | branch (condition : String) (otherwise : Nat)
  | jump (target : Nat)
  | fork (starts : List Nat)
  | join
  | race (arms : List (Pattern × Nat))
  | assign (target : Variable) (value : Template)
  | startTimer (duration : Nat) (timer : Option Variable)
  | startFlow (flow : FlowId) (child : Option Variable)
  | abort (reason : String)
  /-- Finish the head. -/
  | finish

/-- The positions besides the next one at which heads can go on behind an instruction. -/
def Instruction.targets : Instruction → List Nat
  | branch _ otherwise => [otherwise]
  | jump target => [target]
  | fork starts => starts
  | race arms => arms.map Prod.snd
  | _ => []

mutual

/-- How many instructions an element is lowered to. -/
def Element.size : Element → Nat
  | .branch _ yes no => bodySize yes + bodySize no + 2
  | .fork branches => branchesSize branches + 1
  | .race arms => armsSize arms + 1
  | _ => 1

/-- How many instructions a sequence is lowered to. -/
def bodySize : List Element → Nat
  | [] => 0
  | e :: es => e.size + bodySize es

/-- How many instructions the branches of a fork are lowered to, with their jumps. -/
def branchesSize : List (List Element) → Nat
  | [] => 0
  | b :: bs => bodySize b + 1 + branchesSize bs

/-- How many instructions the arms of a race are lowered to, with their jumps. -/
def armsSize : List (Pattern × List Element) → Nat
  | [] => 0
  | (_, b) :: arms => bodySize b + 1 + armsSize arms

end

/-- Where the branches of a fork start when the first one starts at `p`. -/
def branchStarts (p : Nat) : List (List Element) → List Nat
  | [] => []
  | b :: bs => p :: branchStarts (p + bodySize b + 1) bs

/-- Where the arms of a race start when the first one starts at `p`. -/
def armStarts (p : Nat) : List (Pattern × List Element) → List (Pattern × Nat)
  | [] => []
  | (pattern, b) :: arms => (pattern, p) :: armStarts (p + bodySize b + 1) arms

mutual

/-- The instructions of an element that stands at `p`. -/
def Element.lower (p : Nat) : Element → List Instruction
  | .expect pattern => [.expect pattern]
  | .send event => [.send event]
  | .call spec => [.call spec]
  | .branch condition yes no =>
    let otherwise := p + bodySize yes + 2
    .branch condition otherwise :: (lowerBody (p + 1) yes ++
      .jump (otherwise + bodySize no) :: lowerBody otherwise no)
  | .fork branches =>
    .fork (branchStarts (p + 1) branches) ::
      lowerBranches (p + 1) (p + 1 + branchesSize branches) branches
  | .join => [.join]
  | .race arms =>
    .race (armStarts (p + 1) arms) :: lowerArms (p + 1) (p + 1 + armsSize arms) arms
  | .assign target value => [.assign target value]
  | .startTimer duration timer => [.startTimer duration timer]
  | .startFlow flow child => [.startFlow flow child]
  | .abort reason => [.abort reason]

/-- The instructions of a sequence that starts at `p`. -/
def lowerBody (p : Nat) : List Element → List Instruction
  | [] => []
  | e :: es => e.lower p ++ lowerBody (p + e.size) es

/-- The instructions of the branches of a fork, each with a jump to `stop`. -/
def lowerBranches (p stop : Nat) : List (List Element) → List Instruction
  | [] => []
  | b :: bs => lowerBody p b ++ .jump stop :: lowerBranches (p + bodySize b + 1) stop bs

/-- The instructions of the arms of a race, each with a jump to `stop`. -/
def lowerArms (p stop : Nat) : List (Pattern × List Element) → List Instruction
  | [] => []
  | (_, b) :: arms => lowerBody p b ++ .jump stop :: lowerArms (p + bodySize b + 1) stop arms

end

/-! ## Sizes -/

mutual

theorem Element.length_lower (p : Nat) : ∀ e : Element, (e.lower p).length = e.size
  | .branch _ yes no => by
    simp [Element.lower, Element.size, length_lowerBody _ yes, length_lowerBody _ no]; omega
  | .fork branches => by
    simp [Element.lower, Element.size, length_lowerBranches _ _ branches]
  | .race arms => by simp [Element.lower, Element.size, length_lowerArms _ _ arms]
  | .expect _ | .send _ | .call _ | .join | .assign _ _ | .startTimer _ _ | .startFlow _ _
  | .abort _ => by simp [Element.lower, Element.size]

theorem length_lowerBody (p : Nat) :
    ∀ es : List Element, (lowerBody p es).length = bodySize es
  | [] => rfl
  | e :: es => by simp [lowerBody, bodySize, e.length_lower, length_lowerBody _ es]

theorem length_lowerBranches (p stop : Nat) :
    ∀ bs : List (List Element), (lowerBranches p stop bs).length = branchesSize bs
  | [] => rfl
  | b :: bs => by
    simp [lowerBranches, branchesSize, length_lowerBody _ b, length_lowerBranches _ _ bs]; omega

theorem length_lowerArms (p stop : Nat) :
    ∀ arms : List (Pattern × List Element), (lowerArms p stop arms).length = armsSize arms
  | [] => rfl
  | (_, b) :: arms => by
    simp [lowerArms, armsSize, length_lowerBody _ b, length_lowerArms _ _ arms]; omega

end

theorem mem_branchStarts {t : Nat} : ∀ {bs : List (List Element)} {p : Nat},
    t ∈ branchStarts p bs → p ≤ t ∧ t < p + branchesSize bs
  | [], _, h => by simp [branchStarts] at h
  | b :: bs, p, h => by
    simp only [branchStarts, List.mem_cons] at h
    simp only [branchesSize]
    rcases h with rfl | h
    · omega
    · have := mem_branchStarts h; omega

theorem mem_armStarts {t : Nat} : ∀ {arms : List (Pattern × List Element)} {p : Nat},
    t ∈ (armStarts p arms).map Prod.snd → p ≤ t ∧ t < p + armsSize arms
  | [], _, h => by simp [armStarts] at h
  | (_, b) :: arms, p, h => by
    simp only [armStarts, List.map_cons, List.mem_cons] at h
    simp only [armsSize]
    rcases h with rfl | h
    · omega
    · have := mem_armStarts h; omega

/-! ## Targets lie ahead -/

/-- Every target of instructions that start at `p` lies ahead of its instruction and not beyond
`stop`. -/
def Ahead (p stop : Nat) (is : List Instruction) : Prop :=
  ∀ k i, is[k]? = some i → ∀ t ∈ i.targets, p + k < t ∧ t ≤ stop

namespace Ahead

theorem nil (p stop : Nat) : Ahead p stop [] := by
  intro k i h
  simp at h

theorem cons {p stop : Nat} {i : Instruction} {is : List Instruction}
    (hi : ∀ t ∈ i.targets, p < t ∧ t ≤ stop) (his : Ahead (p + 1) stop is) :
    Ahead p stop (i :: is) := by
  intro k j h t ht
  cases k with
  | zero =>
    cases Option.some.inj h
    simpa using hi t ht
  | succ k =>
    have := his k j (by simpa using h) t ht
    omega

theorem append {p stop : Nat} {is js : List Instruction} (his : Ahead p stop is)
    (hjs : Ahead (p + is.length) stop js) : Ahead p stop (is ++ js) := by
  intro k j h t ht
  rcases Nat.lt_or_ge k is.length with hk | hk
  · rw [List.getElem?_append_left hk] at h
    exact his k j h t ht
  · rw [List.getElem?_append_right hk] at h
    have := hjs _ j h t ht
    omega

theorem mono {p stop stop' : Nat} {is : List Instruction} (h : Ahead p stop is)
    (hs : stop ≤ stop') : Ahead p stop' is :=
  fun k i hk t ht => ⟨(h k i hk t ht).1, Nat.le_trans (h k i hk t ht).2 hs⟩

theorem single {p stop : Nat} {i : Instruction} (h : i.targets = []) :
    Ahead p stop [i] := cons (by simp [h]) (nil _ _)

end Ahead

mutual

theorem Element.ahead_lower (p : Nat) : ∀ e : Element, Ahead p (p + e.size) (e.lower p)
  | .branch _ yes no => by
    have hy := ahead_lowerBody (p + 1) yes
    have hn := ahead_lowerBody (p + bodySize yes + 2) no
    simp only [Element.lower, Element.size]
    refine .cons ?_ (.append (hy.mono (by omega)) (.cons ?_ ?_))
    · simp only [Instruction.targets, List.mem_singleton]; omega
    · simp only [Instruction.targets, List.mem_singleton, length_lowerBody]; omega
    · rw [length_lowerBody]
      rw [show p + 1 + bodySize yes + 1 = p + bodySize yes + 2 by omega]
      exact hn.mono (by omega)
  | .fork branches => by
    simp only [Element.lower, Element.size]
    refine .cons ?_ ((ahead_lowerBranches _ _ branches (Nat.le_refl _)).mono (by omega))
    intro t ht
    have := mem_branchStarts ht
    omega
  | .race arms => by
    simp only [Element.lower, Element.size]
    refine .cons ?_ ((ahead_lowerArms _ _ arms (Nat.le_refl _)).mono (by omega))
    intro t ht
    have := mem_armStarts ht
    omega
  | .expect _ | .send _ | .call _ | .join | .assign _ _ | .startTimer _ _ | .startFlow _ _
  | .abort _ => .single rfl

theorem ahead_lowerBody (p : Nat) :
    ∀ es : List Element, Ahead p (p + bodySize es) (lowerBody p es)
  | [] => .nil _ _
  | e :: es => by
    have hes := ahead_lowerBody (p + e.size) es
    simp only [lowerBody, bodySize]
    refine .append ((e.ahead_lower p).mono (by omega)) ?_
    rw [e.length_lower]
    exact hes.mono (by omega)

theorem ahead_lowerBranches (p stop : Nat) : ∀ bs : List (List Element),
    p + branchesSize bs ≤ stop → Ahead p stop (lowerBranches p stop bs)
  | [], _ => .nil _ _
  | b :: bs, h => by
    simp only [branchesSize] at h
    have hbs := ahead_lowerBranches (p + bodySize b + 1) stop bs (by omega)
    simp only [lowerBranches]
    refine .append ((ahead_lowerBody p b).mono (by omega)) (.cons ?_ ?_)
    · simp only [Instruction.targets, List.mem_singleton, length_lowerBody]; omega
    · rwa [length_lowerBody]

theorem ahead_lowerArms (p stop : Nat) : ∀ arms : List (Pattern × List Element),
    p + armsSize arms ≤ stop → Ahead p stop (lowerArms p stop arms)
  | [], _ => .nil _ _
  | (_, b) :: arms, h => by
    simp only [armsSize] at h
    have harms := ahead_lowerArms (p + bodySize b + 1) stop arms (by omega)
    simp only [lowerArms]
    refine .append ((ahead_lowerBody p b).mono (by omega)) (.cons ?_ ?_)
    · simp only [Instruction.targets, List.mem_singleton, length_lowerBody]; omega
    · rwa [length_lowerBody]

end

/-- A list of instructions all of whose targets lie ahead. -/
structure Program where
  instructions : List Instruction
  ahead : Ahead 0 instructions.length instructions

namespace Program

/-- The program of a body: its instructions, and the end. -/
def ofBody (body : List Element) : Program where
  instructions := lowerBody 0 body ++ [.finish]
  ahead := by
    rw [List.length_append, length_lowerBody]
    exact .append ((ahead_lowerBody 0 body).mono (by simp)) (.single rfl)

/-- The instruction at a position; beyond the last one there is nothing left to do. -/
def fetch (program : Program) (p : Nat) : Instruction :=
  program.instructions[p]?.getD .finish

theorem lt_of_mem_targets {program : Program} {p t : Nat}
    (h : t ∈ (program.fetch p).targets) : p < t := by
  unfold fetch at h
  cases hp : program.instructions[p]? with
  | none => simp [hp, Instruction.targets] at h
  | some i =>
    rw [hp] at h
    have := program.ahead p i hp t h
    omega

end Program

end EventFlow

import EventFlow.Flow.Program

/-!
# Lowering in one pass

`Program.ofBody` knows every target when it writes an instruction, for the sizes of sequences say
where they will lie.  An assembler does without sizes.  It goes through a body once and appends to
an *arena* of instructions; where a target is not known yet it writes a placeholder, and when it has
come to the target it goes back and patches the instruction.  Positions are words of 32 bits to it,
of which the last one is the placeholder.

The two ways to lower a body have the same outcome, as long as positions do not run out.
-/

set_option autoImplicit false

namespace EventFlow

/-- The position that is written for a target that is not known yet. -/
def unpatched : Nat := 4294967295

/-- The instructions that have been written so far. -/
abbrev Arena := List Instruction

namespace Arena

/-- The position of the instruction that comes next, as a word of 32 bits. -/
def here (a : Arena) : Nat := a.length % 4294967296

/-- Let the jump at a place lead to a target. -/
def patchJump (a : Arena) (target place : Nat) : Arena :=
  a.modify place fun
    | .jump _ => .jump target
    | i => i

/-- Let the branch at a place go on elsewhere when its condition does not hold. -/
def patchBranch (a : Arena) (otherwise place : Nat) : Arena :=
  a.modify place fun
    | .branch condition _ => .branch condition otherwise
    | i => i

/-- Let the fork at a place start its branches. -/
def patchFork (a : Arena) (starts : List Nat) (place : Nat) : Arena :=
  a.modify place fun
    | .fork _ => .fork starts
    | i => i

/-- Let the race at a place start its arms. -/
def patchRace (a : Arena) (arms : List (Pattern × Nat)) (place : Nat) : Arena :=
  a.modify place fun
    | .race _ => .race arms
    | i => i

/-- Let the jumps at some places lead to here. -/
def patchExits (a : Arena) (exits : List Nat) : Arena :=
  exits.foldl (fun patched place => patched.patchJump a.here place) a

end Arena

mutual

/-- Write the instructions of an element. -/
def Element.assemble (a : Arena) : Element → Arena
  | .expect pattern => a ++ [.expect pattern]
  | .send event => a ++ [.send event]
  | .call spec => a ++ [.call spec]
  | .branch condition yes no =>
    let skip := assembleBody (a ++ [.branch condition unpatched]) yes
    let otherwise := skip ++ [.jump unpatched]
    let done := assembleBody otherwise no
    (done.patchBranch otherwise.here a.length).patchJump done.here skip.length
  | .fork branches =>
    let (done, starts, exits) := assembleBranches (a ++ [.fork []]) branches
    (done.patchFork starts a.length).patchExits exits
  | .join => a ++ [.join]
  | .race arms =>
    let (done, starts, exits) := assembleArms (a ++ [.race []]) arms
    (done.patchRace ((arms.map Prod.fst).zip starts) a.length).patchExits exits
  | .assign target value => a ++ [.assign target value]
  | .startTimer duration timer => a ++ [.startTimer duration timer]
  | .startFlow flow child => a ++ [.startFlow flow child]
  | .abort reason => a ++ [.abort reason]

/-- Write the instructions of a sequence. -/
def assembleBody (a : Arena) : List Element → Arena
  | [] => a
  | e :: es => assembleBody (e.assemble a) es

/-- Write the instructions of the branches of a fork, each with a jump, and tell where the branches
start and where the jumps are. -/
def assembleBranches (a : Arena) : List (List Element) → Arena × List Nat × List Nat
  | [] => (a, [], [])
  | b :: bs =>
    let body := assembleBody a b
    let (done, starts, exits) := assembleBranches (body ++ [.jump unpatched]) bs
    (done, a.here :: starts, body.length :: exits)

/-- Write the instructions of the arms of a race, each with a jump, and tell where the arms start
and where the jumps are. -/
def assembleArms (a : Arena) : List (Pattern × List Element) → Arena × List Nat × List Nat
  | [] => (a, [], [])
  | (_, b) :: arms =>
    let body := assembleBody a b
    let (done, starts, exits) := assembleArms (body ++ [.jump unpatched]) arms
    (done, a.here :: starts, body.length :: exits)

end

/-- The instructions of a body, and the end. -/
def assemble (body : List Element) : Arena := assembleBody [] body ++ [.finish]

end EventFlow

import EventFlow.Flow.Assembly

/-!
# Both ways to lower a body agree

An assembler that goes through a body once writes the same instructions as one that knows the sizes
of all sequences before.  The reason is that it only appends: when it has written a sequence, what
was there before is still in front of it, so the places that it has noted are still those of the
instructions to patch.

## What is here

* `branchExits` are the places of the jumps behind the branches of a fork, which an assembler notes
  down with the starts of the branches (`withBranches`).
* `patchJump_patchBranch` and `patchExits_append` say what patching makes of a branching and of the
  branches of a fork; arms of a race are branches, as far as positions go (`lowerArms_eq`).
* `assembleBody_eq`, by induction on elements: a sequence is written behind what is there.

**`assemble_eq`**: what is assembled in one pass is the program of the body, unless positions run
out.
-/

set_option autoImplicit false

namespace EventFlow

/-- Behind other instructions, the first of some is at the place that these leave. -/
theorem modify_append {α : Type} (l : List α) (x : α) (r : List α) (f : α → α) :
    (l ++ x :: r).modify l.length f = l ++ f x :: r := by
  induction l with
  | nil => rfl
  | cons y l ih => rw [List.cons_append, List.length_cons, List.modify_succ_cons, ih]; rfl

/-- Where the jumps behind the branches of a fork are, when the first branch starts at `p`. -/
def branchExits (p : Nat) : List (List Element) → List Nat
  | [] => []
  | b :: bs => (p + bodySize b) :: branchExits (p + bodySize b + 1) bs

/-! ## Arms are branches with patterns -/

section Arms

variable (arms : List (Pattern × List Element)) (p stop : Nat)

theorem armsSize_eq : armsSize arms = branchesSize (arms.map Prod.snd) := by
  induction arms with
  | nil => rfl
  | cons arm arms ih => rw [armsSize, ih]; rfl

theorem lowerArms_eq : lowerArms p stop arms = lowerBranches p stop (arms.map Prod.snd) := by
  induction arms generalizing p with
  | nil => rfl
  | cons arm arms ih => rw [lowerArms, ih]; rfl

theorem armStarts_eq :
    armStarts p arms = (arms.map Prod.fst).zip (branchStarts p (arms.map Prod.snd)) := by
  induction arms generalizing p with
  | nil => rfl
  | cons arm arms ih => rw [armStarts, ih]; rfl

end Arms

/-! ## Patching -/

section Patching

variable (a : Arena) (rest : List Instruction)

theorem patchJump_append (s t : Nat) :
    Arena.patchJump (a ++ .jump s :: rest) t a.length = a ++ .jump t :: rest :=
  modify_append ..

theorem patchBranch_append (condition : String) (s t : Nat) :
    Arena.patchBranch (a ++ .branch condition s :: rest) t a.length =
      a ++ .branch condition t :: rest :=
  modify_append ..

theorem patchFork_append (starts : List Nat) :
    Arena.patchFork (a ++ .fork [] :: rest) starts a.length = a ++ .fork starts :: rest :=
  modify_append ..

theorem patchRace_append (arms : List (Pattern × Nat)) :
    Arena.patchRace (a ++ .race [] :: rest) arms a.length = a ++ .race arms :: rest :=
  modify_append ..

end Patching

/-! ## Assembling -/

/-- The instructions of the branches of a fork behind others, before their jumps are patched; where
the branches start, and where the jumps are. -/
def withBranches (a : Arena) (bs : List (List Element)) : Arena × List Nat × List Nat :=
  (a ++ lowerBranches a.length unpatched bs, branchStarts a.length bs, branchExits a.length bs)

section Assembling

variable {a : Arena}

/-- Positions are what they are, unless they run out. -/
theorem here_eq {n : Nat} (hn : a.length = n) (h : n < 4294967296) : a.here = n := by
  rw [Arena.here, hn, Nat.mod_eq_of_lt h]

theorem length_append_lowerBody (a : Arena) (p : Nat) (es : List Element) :
    (a ++ lowerBody p es).length = a.length + bodySize es := by
  rw [List.length_append, length_lowerBody]

/-- A sequence that is written behind one more instruction. -/
theorem concat_lowerBody (a : Arena) (i : Instruction) (es : List Element) :
    a ++ [i] ++ lowerBody (a ++ [i]).length es = a ++ i :: lowerBody (a.length + 1) es := by
  rw [List.length_append, List.length_singleton, List.append_assoc]
  rfl

theorem append_lowerBranches (a : Arena) (p stop : Nat) (b : List Element)
    (bs : List (List Element)) :
    a ++ lowerBranches p stop (b :: bs) =
      a ++ lowerBody p b ++ .jump stop :: lowerBranches (p + bodySize b + 1) stop bs := by
  rw [lowerBranches, List.append_assoc]

/-- When the jumps behind the branches of a fork have been patched, they lead elsewhere. -/
theorem patchJumps_lowerBranches (s t : Nat) (bs : List (List Element)) (a : Arena) :
    (branchExits a.length bs).foldl (fun patched place => patched.patchJump t place)
      (a ++ lowerBranches a.length s bs) = a ++ lowerBranches a.length t bs := by
  induction bs generalizing a with
  | nil => rfl
  | cons b bs ih =>
    have hplace := length_append_lowerBody a a.length b
    have hrest := ih (a ++ lowerBody a.length b ++ [.jump t])
    rw [List.length_append, hplace, List.length_singleton, List.append_assoc _ [_],
      List.append_assoc _ [_]] at hrest
    rw [branchExits, List.foldl_cons, append_lowerBranches, append_lowerBranches, ← hplace,
      patchJump_append, hplace]
    exact hrest

/-- Of the branches of a fork, the first one comes first, and a jump behind it. -/
theorem withBranches_cons (a : Arena) (b : List Element) (bs : List (List Element)) :
    withBranches a (b :: bs) =
      let body := a ++ lowerBody a.length b
      let (done, starts, exits) := withBranches (body ++ [.jump unpatched]) bs
      (done, a.length :: starts, body.length :: exits) := by
  simp only [withBranches]
  rw [append_lowerBranches, branchStarts, branchExits, List.length_append,
    length_append_lowerBody, List.length_singleton, List.append_assoc _ [_]]
  rfl

/-- Branches that are written behind an instruction. -/
theorem withBranches_concat (a : Arena) (i : Instruction) (bs : List (List Element)) :
    withBranches (a ++ [i]) bs = (a ++ i :: lowerBranches (a.length + 1) unpatched bs,
      branchStarts (a.length + 1) bs, branchExits (a.length + 1) bs) := by
  rw [withBranches, List.length_append, List.length_singleton, List.append_assoc]
  rfl

/-- The jumps behind the branches of a fork are patched to lead to what is written next. -/
theorem patchExits_append (i : Instruction) {bs : List (List Element)}
    (h : a.length + 1 + branchesSize bs < 4294967296) :
    Arena.patchExits (a ++ i :: lowerBranches (a.length + 1) unpatched bs)
        (branchExits (a.length + 1) bs) =
      a ++ i :: lowerBranches (a.length + 1) (a.length + 1 + branchesSize bs) bs := by
  have hlength : (a ++ i :: lowerBranches (a.length + 1) unpatched bs).length =
      a.length + 1 + branchesSize bs := by
    rw [List.length_append, List.length_cons, length_lowerBranches]
    omega
  have hpatched := patchJumps_lowerBranches unpatched (a.length + 1 + branchesSize bs) bs (a ++ [i])
  rw [List.length_append, List.length_singleton, List.append_assoc, List.append_assoc] at hpatched
  rw [Arena.patchExits, here_eq hlength h]
  exact hpatched

/-- A branching and the jump behind its first sequence are patched when both sequences have been
written. -/
theorem patchJump_patchBranch (a : Arena) (condition : String) (is js : List Instruction)
    (s t otherwise stop : Nat) :
    (Arena.patchBranch (a ++ .branch condition s :: (is ++ .jump t :: js)) otherwise
        a.length).patchJump stop (a.length + is.length + 1) =
      a ++ .branch condition otherwise :: (is ++ .jump stop :: js) := by
  have hplace : (a ++ .branch condition otherwise :: is).length = a.length + is.length + 1 := by
    rw [List.length_append, List.length_cons, Nat.add_assoc]
  rw [patchBranch_append, ← hplace, ← List.cons_append, ← List.append_assoc, patchJump_append,
    List.append_assoc, List.cons_append]

mutual

/-- An element is written behind what is there. -/
theorem Element.assemble_eq : ∀ (e : Element) {a : Arena}, a.length + e.size < 4294967296 →
    e.assemble a = a ++ e.lower a.length
  | .branch condition yes no, a, h => by
    rw [Element.size] at h
    have hyes := assembleBody_eq yes (a := a ++ [.branch condition unpatched]) (by simp; omega)
    rw [concat_lowerBody] at hyes
    obtain ⟨skip, hskip⟩ : ∃ skip, skip =
        a ++ .branch condition unpatched :: lowerBody (a.length + 1) yes := ⟨_, rfl⟩
    rw [← hskip] at hyes
    have hplace : skip.length = a.length + bodySize yes + 1 := by
      rw [hskip, List.length_append, List.length_cons, length_lowerBody, Nat.add_assoc]
    have hno := assembleBody_eq no (a := skip ++ [.jump unpatched]) (by simp; omega)
    rw [concat_lowerBody, hplace] at hno
    have hotherwise : Arena.here (skip ++ [.jump unpatched]) = a.length + bodySize yes + 2 :=
      here_eq (by simp [hplace]) (by omega)
    have hstop : Arena.here (skip ++ .jump unpatched ::
        lowerBody (a.length + bodySize yes + 2) no) = a.length + bodySize yes + 2 + bodySize no :=
      here_eq (by simp [hplace, length_lowerBody]; omega) (by omega)
    have hpatched := patchJump_patchBranch a condition (lowerBody (a.length + 1) yes)
      (lowerBody (a.length + bodySize yes + 2) no) unpatched unpatched
      (a.length + bodySize yes + 2) (a.length + bodySize yes + 2 + bodySize no)
    rw [length_lowerBody, ← List.cons_append, ← List.append_assoc, ← hskip] at hpatched
    simp only [Element.assemble, hyes, hno, hotherwise, hstop, hplace]
    exact hpatched
  | .fork branches, a, h => by
    rw [Element.size] at h
    rw [Element.assemble, assembleBranches_eq branches (by simp; omega), withBranches_concat]
    simp only
    rw [patchFork_append, patchExits_append _ (by omega), Element.lower]
  | .race arms, a, h => by
    rw [Element.size, armsSize_eq] at h
    rw [Element.assemble, assembleArms_eq arms (by simp [armsSize_eq]; omega), withBranches_concat]
    simp only
    rw [patchRace_append, patchExits_append _ (by omega), Element.lower, lowerArms_eq, armStarts_eq,
      armsSize_eq]
  | .expect _, _, _ | .send _, _, _ | .call _, _, _ | .join, _, _ | .assign _ _, _, _
  | .startTimer _ _, _, _ | .startFlow _ _, _, _ | .abort _, _, _ => by
    rw [Element.assemble, Element.lower]

/-- So is a sequence. -/
theorem assembleBody_eq : ∀ (es : List Element) {a : Arena}, a.length + bodySize es < 4294967296 →
    assembleBody a es = a ++ lowerBody a.length es
  | [], a, _ => by rw [assembleBody, lowerBody, List.append_nil]
  | e :: es, a, h => by
    rw [bodySize] at h
    have hlength : (a ++ e.lower a.length).length = a.length + e.size := by
      rw [List.length_append, e.length_lower]
    rw [assembleBody, e.assemble_eq (by omega), assembleBody_eq es (by omega), hlength, lowerBody,
      List.append_assoc]

theorem assembleBranches_eq : ∀ (bs : List (List Element)) {a : Arena},
    a.length + branchesSize bs < 4294967296 → assembleBranches a bs = withBranches a bs
  | [], a, _ => by
    rw [assembleBranches, withBranches, lowerBranches, List.append_nil]
    rfl
  | b :: bs, a, h => by
    rw [branchesSize] at h
    have hplace := length_append_lowerBody a a.length b
    rw [assembleBranches, assembleBody_eq b (by omega),
      assembleBranches_eq bs (by rw [List.length_append, hplace, List.length_singleton]; omega),
      here_eq rfl (by omega), withBranches_cons]

theorem assembleArms_eq : ∀ (arms : List (Pattern × List Element)) {a : Arena},
    a.length + armsSize arms < 4294967296 →
    assembleArms a arms = withBranches a (arms.map Prod.snd)
  | [], a, _ => by
    rw [assembleArms, List.map_nil, withBranches, lowerBranches, List.append_nil]
    rfl
  | (_, b) :: arms, a, h => by
    rw [armsSize] at h
    have hplace := length_append_lowerBody a a.length b
    rw [assembleArms, assembleBody_eq b (by omega),
      assembleArms_eq arms (by rw [List.length_append, hplace, List.length_singleton]; omega),
      here_eq rfl (by omega), List.map_cons, withBranches_cons]

end

end Assembling

/-- **What is assembled in one pass is the program of the body**, unless positions run out. -/
theorem assemble_eq {body : List Element} (h : bodySize body < 4294967296) :
    assemble body = (Program.ofBody body).instructions := by
  have hbody := assembleBody_eq body (a := []) (by simpa using h)
  rw [assemble, hbody]
  rfl

end EventFlow

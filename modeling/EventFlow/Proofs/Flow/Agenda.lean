import EventFlow.Flow.Program
import Mathlib.Data.List.Forall2

/-!
# What is left to do at a position

Lowering throws the nesting of a body away: a program is a flat list of instructions, and what used
to be "the rest of this branch, and then what follows it" has become a position.  This file puts the
nesting back.  To every position belongs its *agenda*, the list of the elements that a head standing
there still has before it, innermost sequence first and with no trace left of where one sequence
ends and the next one begins.

## What is here

* `bodyAgendas p k es` lists the agendas along the instructions of `es`, lowered at `p` with `k` to
  do afterwards.  It follows the recursion of `lowerBody` clause by clause, so the two lists are as
  long as each other and can be walked side by side.
* `Instruction.Obeys A p i` says what an instruction that stands at `p` makes of a map `A` from
  positions to agendas; `lowerBody_obeys` proves that all instructions of a sequence do obey.
* `Program.Unfolds program R` is the same for whole programs and without the positions, and
  **`exists_unfolds`** is the main result: some such `R` starts with the body itself.
* `Control` describes a single move of control, of a program (`Program.control`, jumps collapsed)
  or of a list of elements (`controlOf`).  The map `R` takes the moves of the one to the moves of
  the other.

Agendas carry the position of each element along (`Placed`).  That is more than the main result
needs, but the same element can stand at two places of a body, and telling the two apart is what the
pairing of forks and joins is about.
-/

set_option autoImplicit false

namespace EventFlow

/-! ## Walking along positions -/

/-- Every entry of a list that is laid out from `p` on has the property `P`, which may depend on
where the entry lies. -/
def Along {α : Type} (P : Nat → α → Prop) (p : Nat) (l : List α) : Prop :=
  ∀ j x, l[j]? = some x → P (p + j) x

section Along

variable {α : Type} {P : Nat → α → Prop} {p : Nat} {x : α} {l l' : List α}

theorem along_nil : Along P p [] := by
  intro j x h
  simp at h

theorem along_cons : Along P p (x :: l) ↔ P p x ∧ Along P (p + 1) l := by
  constructor
  · intro h
    refine ⟨h 0 x rfl, fun j y hy => ?_⟩
    have hj := h (j + 1) y (by simpa using hy)
    rwa [← Nat.add_assoc, Nat.add_right_comm] at hj
  · rintro ⟨hx, hl⟩ (_ | j) y hy
    · obtain rfl : x = y := by simpa using hy
      exact hx
    · have hj := hl j y (by simpa using hy)
      rwa [Nat.add_right_comm, Nat.add_assoc] at hj

theorem along_append : Along P p (l ++ l') ↔ Along P p l ∧ Along P (p + l.length) l' := by
  induction l generalizing p with
  | nil => simp [along_nil]
  | cons y l ih =>
    rw [List.cons_append, along_cons, along_cons, ih, and_assoc]
    rw [show p + 1 + l.length = p + (y :: l).length by rw [List.length_cons]; omega]

end Along

/-! ## Agendas -/

/-- An element and the position it is lowered to. -/
abbrev Placed := Nat × Element

/-- The elements of a sequence that starts at `p`, each at its place. -/
def place (p : Nat) : List Element → List Placed
  | [] => []
  | e :: es => (p, e) :: place (p + e.size) es

theorem map_snd_place (p : Nat) (es : List Element) : (place p es).map Prod.snd = es := by
  induction es generalizing p with
  | nil => rfl
  | cons e es ih => rw [place, List.map_cons, ih]

mutual

/-- The agendas at the instructions of an element that stands at `p` and has `k` behind it. -/
def Element.agendas (p : Nat) (k : List Placed) : Element → List (List Placed)
  | .branch condition yes no =>
    ((p, .branch condition yes no) :: k) :: (bodyAgendas (p + 1) k yes ++
      k :: bodyAgendas (p + bodySize yes + 2) k no)
  | .fork branches => ((p, .fork branches) :: k) :: branchAgendas (p + 1) k branches
  | .race arms => ((p, .race arms) :: k) :: armAgendas (p + 1) k arms
  | e => [(p, e) :: k]

/-- The agendas at the instructions of a sequence that starts at `p` and has `k` behind it. -/
def bodyAgendas (p : Nat) (k : List Placed) : List Element → List (List Placed)
  | [] => []
  | e :: es => e.agendas p (place (p + e.size) es ++ k) ++ bodyAgendas (p + e.size) k es

/-- The agendas at the instructions of the branches of a fork, their jumps included. -/
def branchAgendas (p : Nat) (k : List Placed) : List (List Element) → List (List Placed)
  | [] => []
  | b :: bs => bodyAgendas p k b ++ k :: branchAgendas (p + bodySize b + 1) k bs

/-- The agendas at the instructions of the arms of a race, their jumps included. -/
def armAgendas (p : Nat) (k : List Placed) : List (Pattern × List Element) → List (List Placed)
  | [] => []
  | (_, b) :: arms => bodyAgendas p k b ++ k :: armAgendas (p + bodySize b + 1) k arms

end

mutual

theorem Element.length_agendas (p : Nat) (k : List Placed) :
    ∀ e : Element, (e.agendas p k).length = e.size
  | .branch _ yes no => by
    simp [Element.agendas, Element.size, length_bodyAgendas _ _ yes, length_bodyAgendas _ _ no]
    omega
  | .fork branches => by
    simp [Element.agendas, Element.size, length_branchAgendas _ _ branches]
  | .race arms => by simp [Element.agendas, Element.size, length_armAgendas _ _ arms]
  | .expect _ | .send _ | .call _ | .join | .assign _ _ | .startTimer _ _ | .startFlow _ _
  | .abort _ => by simp [Element.agendas, Element.size]

theorem length_bodyAgendas (p : Nat) (k : List Placed) :
    ∀ es : List Element, (bodyAgendas p k es).length = bodySize es
  | [] => rfl
  | e :: es => by
    simp [bodyAgendas, bodySize, e.length_agendas, length_bodyAgendas _ _ es]

theorem length_branchAgendas (p : Nat) (k : List Placed) :
    ∀ bs : List (List Element), (branchAgendas p k bs).length = branchesSize bs
  | [] => rfl
  | b :: bs => by
    simp [branchAgendas, branchesSize, length_bodyAgendas _ _ b, length_branchAgendas _ _ bs]
    omega

theorem length_armAgendas (p : Nat) (k : List Placed) :
    ∀ arms : List (Pattern × List Element), (armAgendas p k arms).length = armsSize arms
  | [] => rfl
  | (_, b) :: arms => by
    simp [armAgendas, armsSize, length_bodyAgendas _ _ b, length_armAgendas _ _ arms]
    omega

end

/-- An element is on top of the agenda at its own place. -/
theorem Element.head_agendas (p : Nat) (k : List Placed) (e : Element) :
    ∃ rest, e.agendas p k = ((p, e) :: k) :: rest := by
  cases e <;> exact ⟨_, by simp only [Element.agendas]; rfl⟩

/-- `A` has the given agendas from the position `p` on. -/
def Shows (A : Nat → List Placed) (p : Nat) (as : List (List Placed)) : Prop :=
  Along (fun q a => A q = a) p as

/-- What is to be done at the start of a sequence: all of it, and then what follows. -/
theorem Shows.start {A : Nat → List Placed} {p : Nat} {k : List Placed} {es : List Element}
    (h : Shows A p (bodyAgendas p k es)) (hk : A (p + bodySize es) = k) :
    A p = place p es ++ k := by
  cases es with
  | nil => simpa [bodySize, place] using hk
  | cons e es =>
    obtain ⟨rest, hrest⟩ := e.head_agendas p (place (p + e.size) es ++ k)
    rw [bodyAgendas, hrest, Shows, List.cons_append, along_cons] at h
    rw [h.1, place, List.cons_append]

/-! ## Instructions and agendas -/

/-- The element an instruction is lowered from, when control just goes on behind it. -/
def Instruction.plain? : Instruction → Option Element
  | .expect pattern => some (.expect pattern)
  | .send event => some (.send event)
  | .call spec => some (.call spec)
  | .join => some .join
  | .assign target value => some (.assign target value)
  | .startTimer duration timer => some (.startTimer duration timer)
  | .startFlow flow child => some (.startFlow flow child)
  | .abort reason => some (.abort reason)
  | .branch .. | .jump _ | .fork _ | .race _ | .finish => none

/-- What an instruction that stands at `p` makes of the agendas `A`. -/
def Instruction.Obeys (A : Nat → List Placed) (p : Nat) : Instruction → Prop
  | .branch condition otherwise =>
    ∃ yes no k, A p = (p, .branch condition yes no) :: k ∧ A (p + 1) = place (p + 1) yes ++ k ∧
      A otherwise = place otherwise no ++ k
  | .jump target => A target = A p
  | .fork starts =>
    ∃ branches k, A p = (p, .fork branches) :: k ∧
      List.Forall₂ (fun start b => A start = place start b ++ k) starts branches
  | .race starts =>
    ∃ arms k, A p = (p, .race arms) :: k ∧
      List.Forall₂ (fun start arm => start.1 = arm.1 ∧ A start.2 = place start.2 arm.2 ++ k)
        starts arms
  | .finish => A p = []
  | i => ∀ e, i.plain? = some e → A p = (p, e) :: A (p + 1)

section Lowering

variable {A : Nat → List Placed}

theorem branchStarts_agenda {k : List Placed} : ∀ (bs : List (List Element)) {p stop : Nat},
    Shows A p (branchAgendas p k bs) → A stop = k →
    List.Forall₂ (fun start b => A start = place start b ++ k) (branchStarts p bs) bs
  | [], _, _, _, _ => .nil
  | b :: bs, p, stop, h, hstop => by
    rw [branchAgendas, Shows, along_append, along_cons, length_bodyAgendas] at h
    exact .cons (Shows.start h.1 h.2.1) (branchStarts_agenda bs h.2.2 hstop)

theorem armStarts_agenda {k : List Placed} :
    ∀ (arms : List (Pattern × List Element)) {p stop : Nat},
      Shows A p (armAgendas p k arms) → A stop = k →
      List.Forall₂ (fun start arm => start.1 = arm.1 ∧ A start.2 = place start.2 arm.2 ++ k)
        (armStarts p arms) arms
  | [], _, _, _, _ => .nil
  | (_, b) :: arms, p, stop, h, hstop => by
    rw [armAgendas, Shows, along_append, along_cons, length_bodyAgendas] at h
    exact .cons ⟨rfl, Shows.start h.1 h.2.1⟩ (armStarts_agenda arms h.2.2 hstop)

mutual

theorem Element.lower_obeys (p : Nat) (k : List Placed) : ∀ e : Element,
    Shows A p (e.agendas p k) → A (p + e.size) = k →
    Along (fun q i => i.Obeys A q) p (e.lower p)
  | .branch condition yes no, h, hk => by
    rw [Element.agendas, Shows, along_cons, along_append, along_cons, length_bodyAgendas] at h
    obtain ⟨hp, hyes, hjump, hno⟩ := h
    rw [Element.size] at hk
    rw [show p + 1 + bodySize yes + 1 = p + bodySize yes + 2 by omega] at hno
    have hstop : A (p + bodySize yes + 2 + bodySize no) = k := by
      rw [← hk]
      congr 1
      omega
    rw [Element.lower, along_cons, along_append, along_cons, length_lowerBody]
    refine ⟨⟨yes, no, k, hp, Shows.start hyes hjump, Shows.start hno hstop⟩, ?_, ?_, ?_⟩
    · exact lowerBody_obeys _ k yes hyes hjump
    · rw [Instruction.Obeys, hstop, hjump]
    · rw [show p + 1 + bodySize yes + 1 = p + bodySize yes + 2 by omega]
      exact lowerBody_obeys _ k no hno hstop
  | .fork branches, h, hk => by
    rw [Element.agendas, Shows, along_cons] at h
    rw [Element.size] at hk
    have hstop : A (p + 1 + branchesSize branches) = k := by
      rw [← hk]
      congr 1
      omega
    rw [Element.lower, along_cons]
    exact ⟨⟨branches, k, h.1, branchStarts_agenda branches h.2 hstop⟩,
      lowerBranches_obeys _ _ k branches h.2 hstop⟩
  | .race arms, h, hk => by
    rw [Element.agendas, Shows, along_cons] at h
    rw [Element.size] at hk
    have hstop : A (p + 1 + armsSize arms) = k := by
      rw [← hk]
      congr 1
      omega
    rw [Element.lower, along_cons]
    exact ⟨⟨arms, k, h.1, armStarts_agenda arms h.2 hstop⟩,
      lowerArms_obeys _ _ k arms h.2 hstop⟩
  | .expect _, h, hk | .send _, h, hk | .call _, h, hk | .join, h, hk | .assign _ _, h, hk
  | .startTimer _ _, h, hk | .startFlow _ _, h, hk | .abort _, h, hk => by
    simp only [Element.agendas, Shows, along_cons] at h
    simp only [Element.size] at hk
    simp only [Element.lower, along_cons]
    refine ⟨fun e he => ?_, along_nil⟩
    cases he
    rw [h.1, hk]

theorem lowerBody_obeys (p : Nat) (k : List Placed) : ∀ es : List Element,
    Shows A p (bodyAgendas p k es) → A (p + bodySize es) = k →
    Along (fun q i => i.Obeys A q) p (lowerBody p es)
  | [], _, _ => along_nil
  | e :: es, h, hk => by
    rw [bodyAgendas, Shows, along_append, e.length_agendas] at h
    rw [bodySize, ← Nat.add_assoc] at hk
    rw [lowerBody, along_append, e.length_lower]
    exact ⟨e.lower_obeys p _ h.1 (Shows.start h.2 hk), lowerBody_obeys _ k es h.2 hk⟩

theorem lowerBranches_obeys (p stop : Nat) (k : List Placed) : ∀ bs : List (List Element),
    Shows A p (branchAgendas p k bs) → A stop = k →
    Along (fun q i => i.Obeys A q) p (lowerBranches p stop bs)
  | [], _, _ => along_nil
  | b :: bs, h, hstop => by
    rw [branchAgendas, Shows, along_append, along_cons, length_bodyAgendas] at h
    rw [lowerBranches, along_append, along_cons, length_lowerBody]
    refine ⟨lowerBody_obeys p k b h.1 h.2.1, ?_, lowerBranches_obeys _ stop k bs h.2.2 hstop⟩
    rw [Instruction.Obeys, hstop, h.2.1]

theorem lowerArms_obeys (p stop : Nat) (k : List Placed) :
    ∀ arms : List (Pattern × List Element),
      Shows A p (armAgendas p k arms) → A stop = k →
      Along (fun q i => i.Obeys A q) p (lowerArms p stop arms)
  | [], _, _ => along_nil
  | (_, b) :: arms, h, hstop => by
    rw [armAgendas, Shows, along_append, along_cons, length_bodyAgendas] at h
    rw [lowerArms, along_append, along_cons, length_lowerBody]
    refine ⟨lowerBody_obeys p k b h.1 h.2.1, ?_, lowerArms_obeys _ stop k arms h.2.2 hstop⟩
    rw [Instruction.Obeys, hstop, h.2.1]

end

end Lowering

/-! ## Whole programs -/

/-- The agenda at a position of the program of a body; beyond its end there is nothing to do. -/
def agenda (body : List Element) (p : Nat) : List Placed :=
  (bodyAgendas 0 [] body)[p]?.getD []

theorem agenda_of_le {body : List Element} {p : Nat} (h : bodySize body ≤ p) :
    agenda body p = [] := by
  rw [agenda, List.getElem?_eq_none (by rw [length_bodyAgendas]; exact h), Option.getD_none]

theorem shows_agenda (body : List Element) : Shows (agenda body) 0 (bodyAgendas 0 [] body) := by
  intro j a h
  rw [Nat.zero_add, agenda, h, Option.getD_some]

/-- At the start everything is left to do. -/
theorem agenda_zero (body : List Element) : agenda body 0 = place 0 body := by
  rw [Shows.start (shows_agenda body) (agenda_of_le (by omega)), List.append_nil]

/-- **Every instruction of a program obeys the agendas of its body.** -/
theorem fetch_obeys (body : List Element) (p : Nat) :
    ((Program.ofBody body).fetch p).Obeys (agenda body) p := by
  have hall := lowerBody_obeys 0 [] body (shows_agenda body) (agenda_of_le (by omega))
  rw [Program.fetch, Program.ofBody]
  rcases Nat.lt_or_ge p (bodySize body) with hp | hp
  · rw [List.getElem?_append_left (by rwa [length_lowerBody])]
    have hi := List.getElem?_eq_getElem (by rwa [length_lowerBody] : p < (lowerBody 0 body).length)
    rw [hi, Option.getD_some]
    simpa using hall p _ hi
  · rw [List.getElem?_append_right (by rwa [length_lowerBody])]
    -- what stands there is the finish, or nothing, which reads as one
    have hfin (j : Nat) : [Instruction.finish][j]?.getD Instruction.finish = .finish := by
      rcases j with _ | j <;> rfl
    rw [hfin]
    exact agenda_of_le hp

/-- `R` tells, for every position of a program, which elements are left to do there. -/
structure Program.Unfolds (program : Program) (R : Nat → List Element) : Prop where
  /-- An instruction behind which control just goes on is the next element. -/
  plain : ∀ p e, (program.fetch p).plain? = some e → R p = e :: R (p + 1)
  /-- Either sequence of a branch is followed by what follows the branch. -/
  branch : ∀ p condition otherwise, program.fetch p = .branch condition otherwise →
    ∃ yes no k, R p = .branch condition yes no :: k ∧ R (p + 1) = yes ++ k ∧
      R otherwise = no ++ k
  /-- Every branch of a fork is followed by what follows the fork. -/
  fork : ∀ p starts, program.fetch p = .fork starts →
    ∃ branches k, R p = .fork branches :: k ∧ starts.map R = branches.map (· ++ k)
  /-- Every arm of a race is followed by what follows the race. -/
  race : ∀ p starts, program.fetch p = .race starts →
    ∃ arms k, R p = .race arms :: k ∧
      starts.map (fun s => (s.1, R s.2)) = arms.map fun a => (a.1, a.2 ++ k)
  /-- A jump leads to a place with the same things to do. -/
  jump : ∀ p target, program.fetch p = .jump target → R target = R p
  /-- The end is where nothing is left to do and nothing leads on. -/
  finish : ∀ p, program.fetch p = .finish ↔
    R p = [] ∧ ∀ target, program.fetch p ≠ .jump target

/-- What is left to do at a position, as elements only. -/
def remaining (body : List Element) (p : Nat) : List Element := (agenda body p).map Prod.snd

theorem remaining_of_cons {body : List Element} {p q : Nat} {e : Element} {k : List Placed}
    (h : agenda body p = (q, e) :: k) : remaining body p = e :: k.map Prod.snd := by
  rw [remaining, h, List.map_cons]

theorem remaining_of_place {body : List Element} {p q : Nat} {es : List Element}
    {k : List Placed} (h : agenda body p = place q es ++ k) :
    remaining body p = es ++ k.map Prod.snd := by
  rw [remaining, h, List.map_append, map_snd_place]

/-- Something is left to do at every instruction but the finish and the jumps. -/
theorem Instruction.Obeys.ne_nil {A : Nat → List Placed} {p : Nat} {i : Instruction}
    (h : i.Obeys A p) (hfin : i ≠ .finish) (hjump : ∀ t, i ≠ .jump t) : A p ≠ [] := by
  intro hnil
  cases i with
  | finish => exact hfin rfl
  | jump t => exact hjump t rfl
  | branch c o => obtain ⟨yes, no, k, hp, -⟩ := h; rw [hnil] at hp; cases hp
  | fork starts => obtain ⟨branches, k, hp, -⟩ := h; rw [hnil] at hp; cases hp
  | race starts => obtain ⟨arms, k, hp, -⟩ := h; rw [hnil] at hp; cases hp
  | _ => have hp := h _ rfl; rw [hnil] at hp; cases hp

theorem unfolds_remaining (body : List Element) :
    (Program.ofBody body).Unfolds (remaining body) := by
  have hobeys := fetch_obeys body
  constructor
  case plain =>
    intro p e he
    have h := hobeys p
    generalize (Program.ofBody body).fetch p = i at h he
    have hp : agenda body p = (p, e) :: agenda body (p + 1) := by
      cases i <;> first | exact h e he | cases he
    exact remaining_of_cons hp
  case branch =>
    intro p condition otherwise hi
    have h := hobeys p
    rw [hi] at h
    obtain ⟨yes, no, k, hp, hyes, hno⟩ := h
    exact ⟨yes, no, k.map Prod.snd, remaining_of_cons hp, remaining_of_place hyes,
      remaining_of_place hno⟩
  case fork =>
    intro p starts hi
    have h := hobeys p
    rw [hi] at h
    obtain ⟨branches, k, hp, hstarts⟩ := h
    refine ⟨branches, k.map Prod.snd, remaining_of_cons hp, ?_⟩
    clear hi hp
    induction hstarts with
    | nil => rfl
    | cons hs _ ih => rw [List.map_cons, List.map_cons, ih, remaining_of_place hs]
  case race =>
    intro p starts hi
    have h := hobeys p
    rw [hi] at h
    obtain ⟨arms, k, hp, hstarts⟩ := h
    refine ⟨arms, k.map Prod.snd, remaining_of_cons hp, ?_⟩
    clear hi hp
    induction hstarts with
    | nil => rfl
    | cons hs _ ih => rw [List.map_cons, List.map_cons, ih, hs.1, remaining_of_place hs.2]
  case jump =>
    intro p target hi
    have h := hobeys p
    rw [hi] at h
    rw [remaining, show agenda body target = agenda body p from h, remaining]
  case finish =>
    intro p
    have h := hobeys p
    constructor
    · intro hi
      rw [hi] at h ⊢
      exact ⟨by rw [remaining, show agenda body p = [] from h, List.map_nil], by simp⟩
    · rintro ⟨hnil, hjump⟩
      by_contra hfin
      exact h.ne_nil hfin hjump (List.map_eq_nil_iff.1 hnil)

/-! ## Moves of control -/

/-- A single move of control between things of type `α`: positions, or lists of what is left. -/
inductive Control (α : Type)
  /-- Do an element and go on. -/
  | go (e : Element) (next : α)
  /-- Go on with one of two, as a condition says. -/
  | branch (condition : String) (yes no : α)
  /-- Go on with all of some at once. -/
  | fork (starts : List α)
  /-- Go on with the one whose pattern is matched first. -/
  | race (arms : List (Pattern × α))
  /-- There is nothing left to do. -/
  | stop

/-- Moves between things are moves between their images. -/
def Control.map {α β : Type} (f : α → β) : Control α → Control β
  | .go e next => .go e (f next)
  | .branch condition yes no => .branch condition (f yes) (f no)
  | .fork starts => .fork (starts.map f)
  | .race arms => .race (arms.map fun a => (a.1, f a.2))
  | .stop => .stop

/-- The move that the first of some elements makes. -/
def controlOf : List Element → Control (List Element)
  | [] => .stop
  | .branch condition yes no :: k => .branch condition (yes ++ k) (no ++ k)
  | .fork branches :: k => .fork (branches.map (· ++ k))
  | .race arms :: k => .race (arms.map fun a => (a.1, a.2 ++ k))
  | e :: k => .go e k

theorem controlOf_cons_of_plain? {i : Instruction} {e : Element} {k : List Element}
    (h : i.plain? = some e) : controlOf (e :: k) = .go e k := by
  cases i <;> cases h <;> rfl

namespace Program

/-- The move that is made at a position; jumps are no moves of their own. -/
def control (program : Program) (p : Nat) : Control Nat :=
  match _h : program.fetch p with
  | .jump target => program.control target
  | .branch condition otherwise => .branch condition (p + 1) otherwise
  | .fork starts => .fork starts
  | .race starts => .race starts
  | i =>
    match i.plain? with
    | some e => .go e (p + 1)
    | none => .stop
termination_by program.instructions.length - p
decreasing_by
  have hlt : p < target := lt_of_mem_targets (by rw [_h]; exact List.mem_singleton_self _)
  have hp : p < program.instructions.length := by
    rcases Nat.lt_or_ge p program.instructions.length with hp | hp
    · exact hp
    · rw [fetch, List.getElem?_eq_none hp, Option.getD_none] at _h
      cases _h
  omega

/-- The moves of a program are those of the elements that are left to do. -/
theorem Unfolds.map_control {program : Program} {R : Nat → List Element}
    (h : program.Unfolds R) (p : Nat) : (program.control p).map R = controlOf (R p) := by
  fun_induction Program.control program p with
  | case1 p target hi ih => rw [ih, h.jump p target hi]
  | case2 p condition otherwise hi =>
    obtain ⟨yes, no, k, hp, hyes, hno⟩ := h.branch p condition otherwise hi
    rw [Control.map, hp, hyes, hno, controlOf]
  | case3 p starts hi =>
    obtain ⟨branches, k, hp, hstarts⟩ := h.fork p starts hi
    rw [Control.map, hp, hstarts, controlOf]
  | case4 p starts hi =>
    obtain ⟨arms, k, hp, hstarts⟩ := h.race p starts hi
    rw [Control.map, hp, hstarts, controlOf]
  | case5 p e hjump hbranch hfork hrace he =>
    rw [Control.map, h.plain p e he, controlOf_cons_of_plain? he]
  | case6 p hjump hbranch hfork hrace he =>
    have hfin : program.fetch p = .finish := by
      generalize program.fetch p = i at *
      cases i <;> first | rfl | simp_all [Instruction.plain?]
    rw [Control.map, ((h.finish p).1 hfin).1, controlOf]

end Program

/-- **Lowering keeps the meaning of a body.**  Some map from positions to what is left to do there
starts with the whole body, is what every instruction says it is, and takes the moves of the program
to the moves of the elements. -/
theorem exists_unfolds (body : List Element) :
    ∃ R : Nat → List Element, R 0 = body ∧ (Program.ofBody body).Unfolds R ∧
      ∀ p, ((Program.ofBody body).control p).map R = controlOf (R p) := by
  have h := unfolds_remaining body
  refine ⟨remaining body, ?_, h, h.map_control⟩
  rw [remaining, agenda_zero, map_snd_place]

end EventFlow

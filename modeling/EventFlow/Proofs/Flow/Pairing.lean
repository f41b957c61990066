import EventFlow.Catalog
import EventFlow.Proofs.Flow.Agenda

/-!
# Which fork a join closes

The check that a flow passes before it is loaded counts the forks a sequence has open.  Lowered, the
sequences are gone and so are the counts; what a head still needs to know is on its agenda.  The
joins on it that close a fork from before (`openJoins`) are found as one finds unmatched brackets.

## What is here

* `openJoins k` lists the unmatched joins of an agenda, the one that is met first in front.  A
  nested sequence has none of its own (`openJoins_nested`), and neither has the body of a flow.
* `Instruction.exits` are the positions at which the same head may go on behind an instruction.
* `Program.Pairs program Safe J` says that the joins `J p` which a head at `p` has before it are
  kept up by all instructions: a join is the first of them, a fork adds one for its branches (or
  none, when it is never joined), and nothing else changes them.

**`exists_pairs`**: the program of every flow that may be loaded pairs its forks and joins.
-/

set_option autoImplicit false

namespace EventFlow

variable {Compiled Found : Type} [Query.Library Compiled Found]

/-! ## Checks that pass -/

section Passing

variable {c c' : Check} {e : Element} {es : List Element} {nested : Bool} {opened : Nat}

theorem bind_ok_iff : (c >>= fun _ => c') = .ok () ↔ c = .ok () ∧ c' = .ok () := by
  cases c with
  | error e => exact ⟨nofun, fun h => nomatch h.1⟩
  | ok u => exact ⟨fun h => ⟨rfl, h⟩, fun h => h.2⟩

theorem refuseIf_ok_iff {refused : Bool} {flaw : Flaw} :
    Check.refuseIf refused flaw = .ok () ↔ refused = false := by
  cases refused <;> simp [Check.refuseIf]

theorem forM_ok_iff {α : Type} {check : α → Check} {items : List α} :
    items.forM check = .ok () ↔ ∀ a ∈ items, check a = .ok () := by
  induction items with
  | nil => exact ⟨fun _ => List.forall_mem_nil _, fun _ => rfl⟩
  | cons a items ih =>
    rw [List.forM_eq_forM] at ih ⊢
    rw [List.forM_cons, bind_ok_iff, ih, List.forall_mem_cons]

/-- What an element does to the number of open forks. -/
def Element.opens (opened : Nat) : Element → Option Nat
  | .join => match opened with
    | 0 => none
    | n + 1 => some n
  | .fork _ => some (opened + 1)
  | _ => some opened

/-- A sequence passes if its first element does, and the rest with the forks that are open then. -/
theorem checkBody_cons (h : checkBody nested opened (e :: es) = .ok ()) :
    e.check = .ok () ∧ ∃ n, e.opens opened = some n ∧ checkBody nested n es = .ok () := by
  cases e with
  | join =>
    cases opened with
    | zero => simp [checkBody] at h
    | succ n => exact ⟨by rw [Element.check], n, rfl, by rwa [checkBody] at h⟩
  | _ =>
    rw [checkBody, bind_ok_iff] at h
    · exact ⟨h.1, _, rfl, h.2⟩
    all_goals simp

theorem check_of_mem_body (h : checkBody nested opened es = .ok ()) :
    ∀ e ∈ es, e.check = .ok () := by
  induction es generalizing opened with
  | nil => simp
  | cons e es ih =>
    obtain ⟨he, n, -, hes⟩ := checkBody_cons h
    exact List.forall_mem_cons.2 ⟨he, ih hes⟩

theorem checkBranches_ok_iff {branches : List (List Element)} :
    checkBranches branches = .ok () ↔ ∀ b ∈ branches, checkBody true 0 b = .ok () := by
  induction branches with
  | nil => simp [checkBranches]
  | cons b bs ih => rw [checkBranches, bind_ok_iff, ih, List.forall_mem_cons]

theorem checkArms_ok_iff {arms : List (Pattern × List Element)} : checkArms arms = .ok () ↔
    ∀ arm ∈ arms, arm.1.check = .ok () ∧ checkBody true 0 arm.2 = .ok () := by
  induction arms with
  | nil => simp [checkArms]
  | cons arm arms ih =>
    rw [checkArms, bind_ok_iff, bind_ok_iff, ih, List.forall_mem_cons, and_assoc]

end Passing

/-! ## Unmatched joins -/

/-- The joins on an agenda that close a fork from before it, the one that is met first in front. -/
def openJoins : List Placed → List Nat
  | [] => []
  | (p, .join) :: k => p :: openJoins k
  | (_, .fork _) :: k => (openJoins k).tail
  | _ :: k => openJoins k

/-- All elements of an agenda are well-formed. -/
def Checked (k : List Placed) : Prop := ∀ x ∈ k, x.2.check = .ok ()

section OpenJoins

variable {es : List Element} {nested : Bool} {opened : Nat}

/-- The unmatched joins of a nested sequence close the forks that are open before it. -/
theorem openJoins_place (h : checkBody true opened es = .ok ()) (p : Nat) :
    ∃ js : List Nat, js.length = opened ∧
      ∀ k, openJoins (place p es ++ k) = js ++ openJoins k := by
  induction es generalizing opened p with
  | nil =>
    rw [checkBody, refuseIf_ok_iff] at h
    have hzero : opened = 0 := by simpa using h
    exact ⟨[], hzero.symm, fun k => rfl⟩
  | cons e es ih =>
    obtain ⟨-, n, hn, hes⟩ := checkBody_cons h
    obtain ⟨js, hlen, hjs⟩ := ih hes (p + e.size)
    cases e with
    | join =>
      obtain _ | m := opened
      · cases hn
      · cases hn
        exact ⟨p :: js, by rw [List.length_cons, hlen], fun k => by
          rw [place, List.cons_append, openJoins, hjs, List.cons_append]⟩
    | fork branches =>
      cases hn
      obtain ⟨j, js, rfl⟩ := List.exists_of_length_succ js hlen
      exact ⟨js, by simpa using hlen, fun k => by
        rw [place, List.cons_append, openJoins, hjs, List.cons_append, List.tail_cons]⟩
    | _ =>
      cases hn
      exact ⟨js, hlen, fun k => by
        rw [place, List.cons_append, openJoins, hjs] <;> simp⟩

/-- A nested sequence leaves the unmatched joins behind it as they are. -/
theorem openJoins_nested (h : checkBody true 0 es = .ok ()) (p : Nat) (k : List Placed) :
    openJoins (place p es ++ k) = openJoins k := by
  obtain ⟨js, hlen, hjs⟩ := openJoins_place h p
  rw [hjs, List.length_eq_zero_iff.1 hlen, List.nil_append]

/-- A sequence has at most as many unmatched joins as forks are open before it. -/
theorem length_openJoins_le (h : checkBody nested opened es = .ok ()) (p : Nat) :
    (openJoins (place p es)).length ≤ opened := by
  induction es generalizing opened p with
  | nil => exact Nat.zero_le _
  | cons e es ih =>
    obtain ⟨-, n, hn, hes⟩ := checkBody_cons h
    have hle := ih hes (p + e.size)
    cases e with
    | join =>
      obtain _ | m := opened
      · cases hn
      · cases hn
        rw [place, openJoins, List.length_cons]
        omega
    | fork branches =>
      cases hn
      rw [place, openJoins, List.length_tail]
      omega
    | _ =>
      cases hn
      rw [place, openJoins]
      · exact hle
      all_goals simp

theorem checked_place (h : checkBody nested opened es = .ok ()) (p : Nat) :
    Checked (place p es) := by
  intro x hx
  refine check_of_mem_body h x.2 ?_
  rw [← map_snd_place p es]
  exact List.mem_map_of_mem hx

theorem checked_append {k k' : List Placed} (h : Checked k) (h' : Checked k') :
    Checked (k ++ k') := by
  intro x hx
  exact (List.mem_append.1 hx).elim (h x) (h' x)

end OpenJoins

/-! ## Programs that pair their forks and joins -/

/-- The positions at which a head that has come to an instruction at `p` may go on, when it stays
on its branch. -/
def Instruction.exits (p : Nat) : Instruction → List Nat
  | .branch _ otherwise => [p + 1, otherwise]
  | .jump target => [target]
  | .race arms => arms.map Prod.snd
  | .fork _ | .join | .abort _ | .finish => []
  | _ => [p + 1]

/-- The positions at which a head may go on behind one of a program. -/
def Program.exits (program : Program) (p : Nat) : List Nat := (program.fetch p).exits p

/-- Wherever a head may stand (`Safe`), the joins that it has before it and that close forks from
before (`J`) are what the instructions make of them. -/
structure Program.Pairs (program : Program) (Safe : Nat → Prop) (J : Nat → List Nat) : Prop where
  /-- A head starts on no branch at all. -/
  start : Safe 0 ∧ J 0 = []
  /-- A head that stays on its branch has the same joins before it. -/
  exits : ∀ p, Safe p → ∀ q ∈ program.exits p, Safe q ∧ J q = J p
  /-- A fork has branches, and all of them lead to the same join, if to any. -/
  fork : ∀ p starts, Safe p → program.fetch p = .fork starts →
    starts ≠ [] ∧ ∃ js : List Nat, js.tail = J p ∧ ∀ s ∈ starts, Safe s ∧ J s = js
  /-- A join closes the latest fork that is not closed yet. -/
  join : ∀ p, Safe p → program.fetch p = .join → Safe (p + 1) ∧ J p = p :: J (p + 1)
  /-- At the end all joins have been passed. -/
  finish : ∀ p, Safe p → program.fetch p = .finish → J p = []

section Pairs

variable {body : List Element} {p : Nat}

/-- What obeys its agendas is paired by them. -/
theorem Instruction.Obeys.exits_spec {A : Nat → List Placed} {i : Instruction}
    (h : i.Obeys A p) (hp : Checked (A p)) :
    ∀ q ∈ i.exits p, Checked (A q) ∧ openJoins (A q) = openJoins (A p) := by
  have hnested {k : List Placed} {es : List Element} (q : Nat) (hk : Checked k)
      (hes : checkBody true 0 es = .ok ()) (hq : A q = place q es ++ k) :
      Checked (A q) ∧ openJoins (A q) = openJoins k := by
    rw [hq]
    exact ⟨checked_append (checked_place hes q) hk, openJoins_nested hes q k⟩
  cases i with
  | branch condition otherwise =>
    obtain ⟨yes, no, k, hA, hyes, hno⟩ := h
    have hJ : openJoins (A p) = openJoins k := by rw [hA]; rfl
    rw [hA] at hp
    obtain ⟨he, hk⟩ := List.forall_mem_cons.1 hp
    rw [Element.check, bind_ok_iff, bind_ok_iff] at he
    rw [hJ, Instruction.exits, List.forall_mem_cons, List.forall_mem_singleton]
    exact ⟨hnested (p + 1) hk he.2.1 hyes, hnested otherwise hk he.2.2 hno⟩
  | jump target =>
    have hA : A target = A p := h
    rw [Instruction.exits, List.forall_mem_singleton, hA]
    exact ⟨hp, rfl⟩
  | race starts =>
    obtain ⟨arms, k, hA, harms⟩ := h
    have hJ : openJoins (A p) = openJoins k := by rw [hA]; rfl
    rw [hA] at hp
    obtain ⟨he, hk⟩ := List.forall_mem_cons.1 hp
    rw [Element.check, bind_ok_iff] at he
    have hall := checkArms_ok_iff.1 he.2
    rw [hJ, Instruction.exits]
    clear hJ hp he hA
    induction harms with
    | nil => simp
    | cons hs _ ih =>
      obtain ⟨ha, hall⟩ := List.forall_mem_cons.1 hall
      rw [List.map_cons, List.forall_mem_cons]
      exact ⟨hnested _ hk ha.2 hs.2, ih hall⟩
  | fork | join | abort | finish => simp [Instruction.exits]
  | _ =>
    have hA := h _ rfl
    have hJ : openJoins (A p) = openJoins (A (p + 1)) := by rw [hA]; rfl
    rw [hA] at hp
    rw [hJ, Instruction.exits, List.forall_mem_singleton]
    · exact ⟨(List.forall_mem_cons.1 hp).2, rfl⟩
    all_goals simp

/-- The agendas of a body that passes its check pair its forks and joins. -/
theorem pairs_agenda (h : checkBody false 0 body = .ok ()) :
    (Program.ofBody body).Pairs (fun p => Checked (agenda body p))
      (fun p => openJoins (agenda body p)) := by
  have hobeys := fetch_obeys body
  constructor
  case start =>
    rw [agenda_zero]
    exact ⟨checked_place h 0, List.length_eq_zero_iff.1 (Nat.le_zero.1 (length_openJoins_le h 0))⟩
  case exits =>
    intro p hp
    exact (hobeys p).exits_spec hp
  case fork =>
    intro p starts hp hi
    have hf := hobeys p
    rw [hi] at hf
    obtain ⟨branches, k, hA, hstarts⟩ := hf
    rw [hA] at hp ⊢
    obtain ⟨he, hk⟩ := List.forall_mem_cons.1 hp
    rw [Element.check, bind_ok_iff, refuseIf_ok_iff] at he
    obtain ⟨hne, hbranches⟩ := he
    constructor
    · rintro rfl
      cases hstarts
      simp at hne
    · refine ⟨openJoins k, by rw [openJoins], ?_⟩
      have hall := checkBranches_ok_iff.1 hbranches
      clear hA hp hi hne hbranches
      induction hstarts with
      | nil => simp
      | cons hs _ ih =>
        obtain ⟨hb, hall⟩ := List.forall_mem_cons.1 hall
        refine List.forall_mem_cons.2 ⟨?_, ih hall⟩
        rw [hs]
        exact ⟨checked_append (checked_place hb _) hk, openJoins_nested hb _ k⟩
  case join =>
    intro p hp hi
    have hj := hobeys p
    rw [hi] at hj
    have hA : agenda body p = (p, .join) :: agenda body (p + 1) := hj _ rfl
    rw [hA] at hp ⊢
    exact ⟨(List.forall_mem_cons.1 hp).2, by rw [openJoins]⟩
  case finish =>
    intro p _ hi
    have hf := hobeys p
    rw [hi] at hf
    rw [show agenda body p = [] from hf, openJoins]

end Pairs

/-- A flow is loaded with the program of its body if its activation and its body pass their
checks. -/
theorem Flow.load_eq {f : Flow} {l : LoadedFlow} (h : f.load = .ok l) :
    l = ⟨f, .ofBody f.body⟩ ∧ (∀ p ∈ f.activation, p.check = .ok ()) ∧
      checkBody false 0 f.body = .ok () := by
  rw [Flow.load] at h
  cases hc : f.check with
  | error e => rw [hc] at h; cases h
  | ok u =>
    rw [hc] at h
    cases h
    rw [Flow.check, bind_ok_iff] at hc
    have hbody : (checkBody false 0 f.body).mapError (Error.inFlow f.id) = .ok () →
        checkBody false 0 f.body = .ok () := by
      cases checkBody false 0 f.body with
      | error e => nofun
      | ok u => exact fun _ => rfl
    refine ⟨rfl, ?_⟩
    cases ha : f.activation with
    | none =>
      rw [ha] at hc
      exact ⟨nofun, hbody hc.2⟩
    | some pattern =>
      rw [ha] at hc
      obtain ⟨hpattern, hrest⟩ := bind_ok_iff.1 hc.2
      refine ⟨fun p hp => ?_, hbody hrest⟩
      rwa [← Option.some.inj hp]

/-- A flow that is loaded runs the program of its body, and its body passes the check. -/
theorem Flow.load_ok {f : Flow} {l : LoadedFlow} (h : f.load = .ok l) :
    l.program = .ofBody f.body ∧ checkBody false 0 f.body = .ok () := by
  obtain ⟨rfl, -, hbody⟩ := Flow.load_eq h
  exact ⟨rfl, hbody⟩

/-- **The program of every flow that may be loaded pairs its forks and joins.** -/
theorem exists_pairs {f : Flow} {l : LoadedFlow} (h : f.load = .ok l) :
    ∃ Safe J, l.program.Pairs Safe J := by
  obtain ⟨hprogram, hbody⟩ := Flow.load_ok h
  rw [hprogram]
  exact ⟨_, _, pairs_agenda hbody⟩

end EventFlow

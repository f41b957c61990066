import EventFlow.Instance.Join
import Mathlib.Logic.Function.Basic

/-!
# The forest of branches

Heads fork and join in any order, and a branch may fork again before it joins, so at any time the
branches that heads are on form a forest: every open fork has a parent branch, and every head is at
a leaf.  This file is about that forest alone.  It does not know programs, states or lists of heads:
all it sees is a relation `S`, which says which head is on which branches.

## What is here

* `Grown origin n bs` says that the branches `bs` grew one inside the other, out of forks below the
  number `n`; `origin` remembers, for every fork, how many branches it has and where it was made.
* `Forest origin nextHead nextGroup S` is the invariant: heads are on branches that grew, no two of
  them are on the same branches or on branches one inside the other (`apart`), and no branch of an
  open fork is deserted (`covered`).
* `Forest.fork` and `Forest.merge` keep it.

**`Forest.eq_of_top`** is what the rest stands on: when the innermost branch of a head is some
branch, no other head is on that branch, however deep.
-/

set_option autoImplicit false

namespace EventFlow

/-- How many branches a fork has, and the branches of the head that made it. -/
structure Origin where
  size : Nat
  outer : List Branch

/-- Some branches, innermost first, that grew out of forks below `n`, each inside the next one. -/
def Grown (origin : Nat → Origin) : Nat → List Branch → Prop
  | _, [] => True
  | n, b :: bs =>
    b.group < n ∧ b.index < b.size ∧ origin b.group = ⟨b.size, bs⟩ ∧ Grown origin b.group bs

section Grown

variable {origin origin' : Nat → Origin} {n n' : Nat} {b b' : Branch} {bs : List Branch}

theorem Grown.mono (hn : n ≤ n') (h : Grown origin n bs) : Grown origin n' bs := by
  cases bs with
  | nil => trivial
  | cons b bs => exact ⟨Nat.lt_of_lt_of_le h.1 hn, h.2⟩

/-- Only the origins of the forks that the branches grew out of matter. -/
theorem Grown.congr (ho : ∀ g < n, origin g = origin' g) (h : Grown origin n bs) :
    Grown origin' n bs := by
  induction bs generalizing n with
  | nil => trivial
  | cons b bs ih =>
    obtain ⟨hlt, hindex, horigin, hbs⟩ := h
    exact ⟨hlt, hindex, by rw [← ho _ hlt, horigin],
      ih (fun g hg => ho g (Nat.lt_trans hg hlt)) hbs⟩

/-- What a branch inside others says about its fork. -/
theorem Grown.of_mem (h : Grown origin n bs) (hb : b ∈ bs) :
    b.group < n ∧ b.index < b.size ∧ (origin b.group).size = b.size ∧
      ∀ x ∈ (origin b.group).outer, x ∈ bs := by
  induction bs generalizing n with
  | nil => cases hb
  | cons c bs ih =>
    obtain ⟨hlt, hindex, horigin, hbs⟩ := h
    rcases List.mem_cons.1 hb with rfl | hb
    · rw [horigin]
      exact ⟨hlt, hindex, rfl, fun x hx => List.mem_cons_of_mem _ hx⟩
    · obtain ⟨hlt', hindex', hsize, hsub⟩ := ih hbs hb
      exact ⟨by omega, hindex', hsize, fun x hx => List.mem_cons_of_mem _ (hsub x hx)⟩

/-- A head is on one branch of a fork only. -/
theorem Grown.eq_of_group (h : Grown origin n bs) (hb : b ∈ bs) (hb' : b' ∈ bs)
    (hg : b.group = b'.group) : b = b' := by
  induction bs generalizing n with
  | nil => cases hb
  | cons c bs ih =>
    obtain ⟨-, -, -, hbs⟩ := h
    rcases List.mem_cons.1 hb with rfl | hm <;> rcases List.mem_cons.1 hb' with rfl | hm'
    · rfl
    · have := (hbs.of_mem hm').1
      omega
    · have := (hbs.of_mem hm).1
      omega
    · exact ih hbs hm hm'

end Grown

/-- The heads of an instance, as the leaves of a forest of branches. -/
structure Forest (origin : Nat → Origin) (nextHead nextGroup : Nat)
    (S : HeadId → List Branch → Prop) : Prop where
  /-- A head is where it is. -/
  single : ∀ id bs bs', S id bs → S id bs' → bs = bs'
  /-- Heads are numbered. -/
  fresh : ∀ id bs, S id bs → id.number < nextHead
  /-- The branches of a head lie one inside the other. -/
  grown : ∀ id bs, S id bs → Grown origin nextGroup bs
  /-- Two heads have parted at some fork. -/
  apart : ∀ id bs id' bs', S id bs → S id' bs' → id ≠ id' →
    ∃ b ∈ bs, ∃ b' ∈ bs', b.group = b'.group ∧ b.index ≠ b'.index
  /-- Every branch of a fork that some head is in has a head on it. -/
  covered : ∀ id bs, S id bs → ∀ b ∈ bs, ∀ j < b.size,
    ∃ id' bs', S id' bs' ∧ ∃ b' ∈ bs', b'.group = b.group ∧ b'.index = j

namespace Forest

variable {origin : Nat → Origin} {nextHead nextGroup : Nat}
  {S S' : HeadId → List Branch → Prop} {id id' : HeadId} {b b' : Branch} {bs bs' : List Branch}

theorem congr (h : Forest origin nextHead nextGroup S) (hS : ∀ id bs, S' id bs ↔ S id bs) :
    Forest origin nextHead nextGroup S' := by
  have heq : S' = S := funext fun id => funext fun bs => propext (hS id bs)
  rwa [heq]

/-- **When the innermost branch of a head is some branch, no other head is on that branch.** -/
theorem eq_of_top (h : Forest origin nextHead nextGroup S) (hs : S id (b :: bs))
    (hs' : S id' bs') (hb' : b' ∈ bs') (hg : b'.group = b.group) (hi : b'.index = b.index) :
    id' = id := by
  by_contra hne
  obtain ⟨x, hx, x', hx', hgx, hix⟩ := h.apart _ _ _ _ hs hs' (Ne.symm hne)
  have hgrown := h.grown _ _ hs'
  rcases List.mem_cons.1 hx with rfl | hx
  · have := hgrown.eq_of_group hb' hx' (hg.trans hgx)
    subst this
    exact hix hi.symm
  · -- what is around the branch is the same for both heads, so they cannot have parted there
    obtain ⟨-, -, horigin, -⟩ := h.grown _ _ hs
    have hmem : x ∈ bs' := (hgrown.of_mem hb').2.2.2 x (by rw [hg, horigin]; exact hx)
    have := hgrown.eq_of_group hmem hx' hgx
    subst this
    exact hix rfl

/-- When there is a head right on every branch of a fork, no head is deeper in that fork. -/
theorem top_of_all (h : Forest origin nextHead nextGroup S) (hs : S id (b :: bs))
    (hall : ∀ j < b.size, ∃ id' b' bs', S id' (b' :: bs') ∧ b'.group = b.group ∧ b'.index = j)
    (hs' : S id' bs') (hb' : b' ∈ bs') (hg : b'.group = b.group) : ∃ cs, bs' = b' :: cs := by
  have hgrown := h.grown _ _ hs'
  obtain ⟨-, hindex, hsize, -⟩ := hgrown.of_mem hb'
  obtain ⟨-, -, horigin, -⟩ := h.grown _ _ hs
  rw [hg, horigin] at hsize
  have hlt : b'.index < b.size := by rwa [show b.size = b'.size from hsize]
  obtain ⟨id₁, b₁, bs₁, hs₁, hg₁, hi₁⟩ := hall b'.index hlt
  have heq := h.eq_of_top hs₁ hs' hb' (hg.trans hg₁.symm) hi₁.symm
  subst heq
  have := h.single _ _ _ hs' hs₁
  subst this
  have := hgrown.eq_of_group hb' List.mem_cons_self (hg.trans hg₁.symm)
  exact ⟨bs₁, by rw [this]⟩

/-! ## Forks -/

/-- The head that goes down a branch of a fork: the forking head goes down the first one. -/
def forkHead (id : HeadId) (nextHead : Nat) : Nat → HeadId
  | 0 => id
  | j + 1 => ⟨nextHead + j⟩

theorem forkHead_inj (hid : id.number < nextHead) {j j' : Nat}
    (hj : forkHead id nextHead j = forkHead id nextHead j') : j = j' := by
  have hnumber := congrArg HeadId.number hj
  cases j <;> cases j' <;> simp only [forkHead] at hnumber <;> omega

/-- A fork, with heads on all its branches, keeps the forest. -/
theorem fork (h : Forest origin nextHead nextGroup S) (hs : S id bs) {n : Nat}
    (hS : ∀ id' bs', S' id' bs' ↔ S id' bs' ∧ id' ≠ id ∨
      ∃ j ≤ n, id' = forkHead id nextHead j ∧ bs' = ⟨nextGroup, n + 1, j⟩ :: bs) :
    Forest (Function.update origin nextGroup ⟨n + 1, bs⟩) (nextHead + n) (nextGroup + 1) S' := by
  have hid := h.fresh _ _ hs
  -- the heads of the fork are new, apart from the first, which is the forking head
  have hnew {id' : HeadId} {bs' : List Branch} {j : Nat} (hs' : S id' bs') (hne : id' ≠ id) :
      id' ≠ forkHead id nextHead j := by
    have hfresh := h.fresh _ _ hs'
    rintro rfl
    cases j with
    | zero => exact hne rfl
    | succ j => simp only [forkHead] at hfresh; omega
  have hupdate : ∀ g < nextGroup,
      origin g = Function.update origin nextGroup ⟨n + 1, bs⟩ g := by
    intro g hg
    rw [Function.update_of_ne (by omega)]
  constructor
  case single =>
    intro id₁ bs₁ bs₂ h₁ h₂
    rcases (hS _ _).1 h₁ with ⟨h₁, hne₁⟩ | ⟨j₁, -, rfl, rfl⟩ <;>
      rcases (hS _ _).1 h₂ with ⟨h₂, hne₂⟩ | ⟨j₂, -, he, rfl⟩
    · exact h.single _ _ _ h₁ h₂
    · exact absurd he (hnew h₁ hne₁)
    · exact absurd rfl (hnew h₂ hne₂)
    · rw [forkHead_inj hid he]
  case fresh =>
    intro id₁ bs₁ h₁
    rcases (hS _ _).1 h₁ with ⟨h₁, -⟩ | ⟨j, hj, rfl, rfl⟩
    · have := h.fresh _ _ h₁
      omega
    · cases j <;> simp only [forkHead] <;> omega
  case grown =>
    intro id₁ bs₁ h₁
    rcases (hS _ _).1 h₁ with ⟨h₁, -⟩ | ⟨j, hj, rfl, rfl⟩
    · exact ((h.grown _ _ h₁).congr hupdate).mono (Nat.le_succ _)
    · refine ⟨Nat.lt_succ_self _, by simp only; omega, Function.update_self .., ?_⟩
      exact (h.grown _ _ hs).congr hupdate
  case apart =>
    intro id₁ bs₁ id₂ bs₂ h₁ h₂ hne
    rcases (hS _ _).1 h₁ with ⟨h₁, hne₁⟩ | ⟨j₁, -, rfl, rfl⟩ <;>
      rcases (hS _ _).1 h₂ with ⟨h₂, hne₂⟩ | ⟨j₂, -, rfl, rfl⟩
    · exact h.apart _ _ _ _ h₁ h₂ hne
    · obtain ⟨x, hx, x', hx', hgx, hix⟩ := h.apart _ _ _ _ h₁ hs hne₁
      exact ⟨x, hx, x', List.mem_cons_of_mem _ hx', hgx, hix⟩
    · obtain ⟨x, hx, x', hx', hgx, hix⟩ := h.apart _ _ _ _ hs h₂ (Ne.symm hne₂)
      exact ⟨x, List.mem_cons_of_mem _ hx, x', hx', hgx, hix⟩
    · refine ⟨_, List.mem_cons_self, _, List.mem_cons_self, rfl, ?_⟩
      intro hj
      exact hne (by rw [show j₁ = j₂ from hj])
  case covered =>
    intro id₁ bs₁ h₁ x hx j hj
    -- a head that was on a branch still is, the forking head on the first branch of its fork
    have hkeep {id₂ : HeadId} {bs₂ : List Branch} (h₂ : S id₂ bs₂) {y : Branch} (hy : y ∈ bs₂) :
        ∃ id' bs', S' id' bs' ∧ y ∈ bs' := by
      by_cases he : id₂ = id
      · subst he
        obtain rfl := h.single _ _ _ h₂ hs
        exact ⟨_, _, (hS _ _).2 (.inr ⟨0, Nat.zero_le _, rfl, rfl⟩), List.mem_cons_of_mem _ hy⟩
      · exact ⟨_, _, (hS _ _).2 (.inl ⟨h₂, he⟩), hy⟩
    have hold {id₂ : HeadId} {bs₂ : List Branch} (h₂ : S id₂ bs₂) (hx : x ∈ bs₂) :
        ∃ id' bs', S' id' bs' ∧ ∃ b' ∈ bs', b'.group = x.group ∧ b'.index = j := by
      obtain ⟨id', bs', hs', y, hy, hgy, hiy⟩ := h.covered _ _ h₂ x hx j hj
      obtain ⟨id'', bs'', hs'', hy⟩ := hkeep hs' hy
      exact ⟨id'', bs'', hs'', y, hy, hgy, hiy⟩
    rcases (hS _ _).1 h₁ with ⟨h₁, -⟩ | ⟨i, hi, rfl, rfl⟩
    · exact hold h₁ hx
    · rcases List.mem_cons.1 hx with rfl | hx
      · exact ⟨_, _, (hS _ _).2 (.inr ⟨j, by simp only at hj; omega, rfl, rfl⟩), _,
          List.mem_cons_self, rfl, rfl⟩
      · exact hold hs hx

/-! ## Joins -/

/-- A join whose branches have all arrived keeps the forest: one head goes on around the fork, and
all others in it are gone. -/
theorem merge (h : Forest origin nextHead nextGroup S) (hs : S id (b :: bs))
    (hall : ∀ j < b.size, ∃ id' b' bs', S id' (b' :: bs') ∧ b'.group = b.group ∧ b'.index = j)
    (hS : ∀ id' bs', S' id' bs' ↔ id' = id ∧ bs' = bs ∨
      S id' bs' ∧ ∀ x ∈ bs', x.group ≠ b.group) :
    Forest origin nextHead nextGroup S' := by
  have hgrown := h.grown _ _ hs
  have hself : ∀ bs', ¬(S id bs' ∧ ∀ x ∈ bs', x.group ≠ b.group) := by
    rintro bs' ⟨hs', hnone⟩
    obtain rfl := h.single _ _ _ hs hs'
    exact hnone b List.mem_cons_self rfl
  constructor
  case single =>
    intro id₁ bs₁ bs₂ h₁ h₂
    rcases (hS _ _).1 h₁ with ⟨rfl, rfl⟩ | h₁ <;> rcases (hS _ _).1 h₂ with ⟨he, rfl⟩ | h₂
    · rfl
    · exact absurd h₂ (hself _)
    · subst he
      exact absurd h₁ (hself _)
    · exact h.single _ _ _ h₁.1 h₂.1
  case fresh =>
    intro id₁ bs₁ h₁
    rcases (hS _ _).1 h₁ with ⟨rfl, rfl⟩ | ⟨h₁, -⟩
    · exact h.fresh _ _ hs
    · exact h.fresh _ _ h₁
  case grown =>
    intro id₁ bs₁ h₁
    rcases (hS _ _).1 h₁ with ⟨rfl, rfl⟩ | ⟨h₁, -⟩
    · exact hgrown.2.2.2.mono (Nat.le_of_lt hgrown.1)
    · exact h.grown _ _ h₁
  case apart =>
    -- heads that are not in the fork have parted from the others around it
    have haround {id' : HeadId} {bs' : List Branch} (hs' : S id' bs')
        (hnone : ∀ x ∈ bs', x.group ≠ b.group) (hne : id ≠ id') :
        ∃ y ∈ bs, ∃ y' ∈ bs', y.group = y'.group ∧ y.index ≠ y'.index := by
      obtain ⟨y, hy, y', hy', hgy, hiy⟩ := h.apart _ _ _ _ hs hs' hne
      rcases List.mem_cons.1 hy with rfl | hy
      · exact absurd hgy.symm (hnone y' hy')
      · exact ⟨y, hy, y', hy', hgy, hiy⟩
    intro id₁ bs₁ id₂ bs₂ h₁ h₂ hne
    rcases (hS _ _).1 h₁ with ⟨rfl, rfl⟩ | ⟨h₁, hnone₁⟩ <;>
      rcases (hS _ _).1 h₂ with ⟨rfl, rfl⟩ | ⟨h₂, hnone₂⟩
    · exact absurd rfl hne
    · exact haround h₂ hnone₂ hne
    · obtain ⟨y, hy, y', hy', hgy, hiy⟩ := haround h₁ hnone₁ (Ne.symm hne)
      exact ⟨y', hy', y, hy, hgy.symm, Ne.symm hiy⟩
    · exact h.apart _ _ _ _ h₁ h₂ hne
  case covered =>
    -- a branch around the fork is kept by the head that goes on, any other by the head on it
    have hkeep {id' : HeadId} {bs' : List Branch} (hs' : S id' bs') {y : Branch} (hy : y ∈ bs')
        (hne : y.group ≠ b.group) : ∃ id'' bs'', S' id'' bs'' ∧ y ∈ bs'' := by
      by_cases hnone : ∀ x ∈ bs', x.group ≠ b.group
      · exact ⟨_, _, (hS _ _).2 (.inr ⟨hs', hnone⟩), hy⟩
      · simp only [not_forall, not_not] at hnone
        obtain ⟨x, hx, hgx⟩ := hnone
        obtain ⟨cs, rfl⟩ := h.top_of_all hs hall hs' hx hgx
        obtain ⟨-, -, horigin, -⟩ := h.grown _ _ hs'
        rw [hgx, hgrown.2.2.1] at horigin
        obtain rfl : bs = cs := congrArg Origin.outer horigin
        rcases List.mem_cons.1 hy with rfl | hy
        · exact absurd hgx hne
        · exact ⟨_, _, (hS _ _).2 (.inl ⟨rfl, rfl⟩), hy⟩
    intro id₁ bs₁ h₁ x hx j hj
    have hcov : ∃ id' bs', S id' bs' ∧ ∃ b' ∈ bs', b'.group = x.group ∧ b'.index = j := by
      rcases (hS _ _).1 h₁ with ⟨rfl, rfl⟩ | ⟨h₁, -⟩
      · exact h.covered _ _ hs x (List.mem_cons_of_mem _ hx) j hj
      · exact h.covered _ _ h₁ x hx j hj
    have hne : x.group ≠ b.group := by
      rcases (hS _ _).1 h₁ with ⟨rfl, rfl⟩ | ⟨-, hnone⟩
      · have := (hgrown.2.2.2.of_mem hx).1
        omega
      · exact hnone x hx
    obtain ⟨id', bs', hs', y, hy, hgy, hiy⟩ := hcov
    obtain ⟨id'', bs'', hs'', hy⟩ := hkeep hs' hy (by rw [hgy]; exact hne)
    exact ⟨id'', bs'', hs'', y, hy, hgy, hiy⟩

/-- A single head on no branch is a forest. -/
theorem root (hS : ∀ id bs, S id bs ↔ id = ⟨0⟩ ∧ bs = []) : Forest origin 1 0 S := by
  constructor
  case single =>
    intro id bs bs' h h'
    rw [((hS _ _).1 h).2, ((hS _ _).1 h').2]
  case fresh =>
    intro id bs h
    rw [((hS _ _).1 h).1]
    exact Nat.zero_lt_one
  case grown =>
    intro id bs h
    rw [((hS _ _).1 h).2]
    trivial
  case apart =>
    intro id bs id' bs' h h' hne
    exact absurd (((hS _ _).1 h).1.trans ((hS _ _).1 h').1.symm) hne
  case covered =>
    intro id bs h b hb
    rw [((hS _ _).1 h).2] at hb
    cases hb

end Forest

end EventFlow

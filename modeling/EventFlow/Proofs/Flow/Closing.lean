import EventFlow.Proofs.Flow.Pairing
import Mathlib.Data.List.Nodup

/-!
# Which join belongs to which fork

`Program.Pairs` tells a head which joins it still has before it, but not whose joins those are.  The
answer stands in the body of a flow: a sequence is read from left to right with the forks that are
open, a fork is put on top of them, and a join closes the one on top.

## What is here

* `Flow.closings` lists the forks of a flow, each with the join that closes it, by position.
* `closings_unique`: a join closes one fork only.
* `mem_closings`: the join that the branches of a fork lead to closes that fork.

**`exists_pairs_closes`** puts this beside the pairing of the program.
-/

set_option autoImplicit false

namespace EventFlow

variable {Compiled Found : Type} [Query.Library Compiled Found]

/-- The forks that are open behind an element at `p`, the latest one in front. -/
def Element.forksBehind (p : Nat) (opened : List Nat) : Element → List Nat
  | .fork _ => p :: opened
  | .join => opened.tail
  | _ => opened

mutual

/-- The forks that are closed by an element at `p` or within it, each with the join that does so. -/
def Element.closings (p : Nat) (opened : List Nat) : Element → List (Nat × Nat)
  | .join => (opened.head?.map fun fork => (fork, p)).toList
  | .branch _ yes no =>
    bodyClosings (p + 1) [] yes ++ bodyClosings (p + bodySize yes + 2) [] no
  | .fork branches => branchClosings (p + 1) branches
  | .race arms => armClosings (p + 1) arms
  | _ => []

/-- The forks that are closed in a sequence that starts at `p` behind some open forks. -/
def bodyClosings (p : Nat) (opened : List Nat) : List Element → List (Nat × Nat)
  | [] => []
  | e :: es =>
    e.closings p opened ++ bodyClosings (p + e.size) (e.forksBehind p opened) es

/-- The forks that are closed in the branches of a fork. -/
def branchClosings (p : Nat) : List (List Element) → List (Nat × Nat)
  | [] => []
  | b :: bs => bodyClosings p [] b ++ branchClosings (p + bodySize b + 1) bs

/-- The forks that are closed in the arms of a race. -/
def armClosings (p : Nat) : List (Pattern × List Element) → List (Nat × Nat)
  | [] => []
  | (_, b) :: arms => bodyClosings p [] b ++ armClosings (p + bodySize b + 1) arms

end

/-- The forks of a flow that are joined, each with the join that closes it. -/
def Flow.closings (f : Flow) : List (Nat × Nat) := bodyClosings 0 [] f.body

/-! ## A join closes one fork -/

/-- The joins of some closings stand in order, all of them from `p` on and before `q`. -/
structure Ordered (p q : Nat) (l : List (Nat × Nat)) : Prop where
  increasing : l.Pairwise fun x y => x.2 < y.2
  bounds : ∀ x ∈ l, p ≤ x.2 ∧ x.2 < q

section Ordered

variable {p q r : Nat} {l l' : List (Nat × Nat)}

theorem ordered_nil : Ordered p q [] := ⟨.nil, List.forall_mem_nil _⟩

theorem Ordered.append (h : Ordered p q l) (h' : Ordered q r l') (hpq : p ≤ q) (hqr : q ≤ r) :
    Ordered p r (l ++ l') where
  increasing := by
    refine List.pairwise_append.2 ⟨h.increasing, h'.increasing, fun x hx y hy => ?_⟩
    exact Nat.lt_of_lt_of_le (h.bounds x hx).2 (h'.bounds y hy).1
  bounds x hx := by
    rcases List.mem_append.1 hx with hx | hx
    · have := h.bounds x hx
      omega
    · have := h'.bounds x hx
      omega

theorem Ordered.mono {p' q' : Nat} (h : Ordered p q l) (hp : p' ≤ p) (hq : q ≤ q') :
    Ordered p' q' l :=
  ⟨h.increasing, fun x hx => ⟨Nat.le_trans hp (h.bounds x hx).1,
    Nat.lt_of_lt_of_le (h.bounds x hx).2 hq⟩⟩

mutual

theorem Element.ordered_closings (p : Nat) (opened : List Nat) :
    ∀ e : Element, Ordered p (p + e.size) (e.closings p opened)
  | .join => by
    rw [Element.closings, Element.size]
    · cases opened with
      | nil => exact ordered_nil
      | cons fork opened => exact ⟨List.pairwise_singleton .., by simp⟩
    all_goals simp
  | .branch _ yes no => by
    rw [Element.closings, Element.size]
    exact ((ordered_bodyClosings (p + 1) [] yes).mono (Nat.le_succ p) (by omega)).append
      ((ordered_bodyClosings (p + bodySize yes + 2) [] no).mono (Nat.le_refl _) (by omega))
      (by omega) (by omega)
  | .fork branches => by
    rw [Element.closings, Element.size]
    exact (ordered_branchClosings (p + 1) branches).mono (Nat.le_succ p) (by omega)
  | .race arms => by
    rw [Element.closings, Element.size]
    exact (ordered_armClosings (p + 1) arms).mono (Nat.le_succ p) (by omega)
  | .expect _ | .send _ | .call _ | .assign _ _ | .startTimer _ _ | .startFlow _ _ | .abort _ => by
    rw [Element.closings]
    · exact ordered_nil
    all_goals simp

theorem ordered_bodyClosings (p : Nat) (opened : List Nat) :
    ∀ es : List Element, Ordered p (p + bodySize es) (bodyClosings p opened es)
  | [] => by rw [bodyClosings]; exact ordered_nil
  | e :: es => by
    rw [bodyClosings, bodySize]
    exact (e.ordered_closings p opened).append
      ((ordered_bodyClosings _ _ es).mono (Nat.le_refl _) (by omega)) (by omega) (by omega)

theorem ordered_branchClosings (p : Nat) :
    ∀ bs : List (List Element), Ordered p (p + branchesSize bs) (branchClosings p bs)
  | [] => by rw [branchClosings]; exact ordered_nil
  | b :: bs => by
    rw [branchClosings, branchesSize]
    exact ((ordered_bodyClosings p [] b).mono (Nat.le_refl p) (Nat.le_succ _)).append
      ((ordered_branchClosings _ bs).mono (Nat.le_refl _) (by omega)) (by omega) (by omega)

theorem ordered_armClosings (p : Nat) :
    ∀ arms : List (Pattern × List Element), Ordered p (p + armsSize arms) (armClosings p arms)
  | [] => by rw [armClosings]; exact ordered_nil
  | (_, b) :: arms => by
    rw [armClosings, armsSize]
    exact ((ordered_bodyClosings p [] b).mono (Nat.le_refl p) (Nat.le_succ _)).append
      ((ordered_armClosings _ arms).mono (Nat.le_refl _) (by omega)) (by omega) (by omega)

end

/-- **A join closes one fork only.** -/
theorem closings_unique {f : Flow} {p p' q : Nat} (h : (p, q) ∈ f.closings)
    (h' : (p', q) ∈ f.closings) : p = p' := by
  have hnodup : (f.closings.map Prod.snd).Nodup :=
    List.pairwise_map.2
      ((ordered_bodyClosings 0 [] f.body).increasing.imp fun hlt => Nat.ne_of_lt hlt)
  exact congrArg Prod.fst (List.inj_on_of_nodup_map hnodup h h' rfl)

end Ordered

/-! ## Closings and agendas -/

/-- What an agenda says about its first element, if that is a fork: the join that the fork leads to
closes it. -/
def Closes (closings : List (Nat × Nat)) (a : List Placed) : Prop :=
  ∀ p branches k q, a = (p, .fork branches) :: k → (openJoins k).head? = some q → (p, q) ∈ closings

section Closes

variable {closings : List (Nat × Nat)} {es : List Element} {k : List Placed} {nested : Bool}

/-- The unmatched joins of a sequence close the forks that are open before it, from the latest
on. -/
theorem zip_openJoins_subset (p : Nat) (opened : List Nat) (es : List Element) :
    opened.zip (openJoins (place p es)) ⊆ bodyClosings p opened es := by
  induction es generalizing p opened with
  | nil => simp [place, openJoins]
  | cons e es ih =>
    have hrest := List.Subset.trans (ih (p + e.size) (e.forksBehind p opened))
      (List.subset_append_right (e.closings p opened) _)
    rw [bodyClosings, place]
    cases e with
    | join =>
      cases opened with
      | nil => simp
      | cons fork opened =>
        rw [openJoins, List.zip_cons_cons]
        exact List.cons_subset.2 ⟨by simp [Element.closings], hrest⟩
    | fork branches =>
      rw [openJoins]
      refine List.Subset.trans ?_ hrest
      cases openJoins (place (p + (Element.fork branches).size) es) with
      | nil => simp
      | cons q qs => exact List.subset_cons_self _ _
    | _ =>
      rw [openJoins]
      · exact hrest
      all_goals simp

/-- What stands at the start of a sequence is a fork that is closed in it, or no fork at all. -/
theorem closes_place {p : Nat} {opened : List Nat}
    (h : checkBody nested opened.length es = .ok ()) (hk : nested = true ∨ k = [])
    (hsub : bodyClosings p opened es ⊆ closings) (hc : Closes closings k) :
    Closes closings (place p es ++ k) := by
  intro p' branches k' q ha hq
  cases es with
  | nil => exact hc p' branches k' q ha hq
  | cons e es =>
    rw [place, List.cons_append, List.cons.injEq, Prod.mk.injEq] at ha
    obtain ⟨⟨rfl, rfl⟩, rfl⟩ := ha
    obtain ⟨-, n, hn, hes⟩ := checkBody_cons h
    cases hn
    -- within a nested sequence the fork is closed, elsewhere nothing follows
    have hown : (openJoins (place (p + (Element.fork branches).size) es)).head? = some q := by
      rcases hk with rfl | rfl
      · obtain ⟨js, hlen, hjs⟩ := openJoins_place hes (p + (Element.fork branches).size)
        have hown := hjs []
        rw [List.append_nil, openJoins, List.append_nil] at hown
        rw [hjs] at hq
        obtain ⟨j, js, rfl⟩ := List.exists_of_length_succ js hlen
        rwa [hown]
      · rwa [List.append_nil] at hq
    obtain ⟨qs, hqs⟩ := List.head?_eq_some_iff.1 hown
    have hzip := zip_openJoins_subset (p + (Element.fork branches).size) (p :: opened) es
    rw [hqs, List.zip_cons_cons] at hzip
    refine hsub ?_
    rw [bodyClosings]
    exact List.mem_append_right _ (hzip (.head _))

mutual

theorem Element.closes_agendas (p : Nat) (opened : List Nat) (k : List Placed) : ∀ e : Element,
    e.check = .ok () → e.closings p opened ⊆ closings → Closes closings ((p, e) :: k) →
    Closes closings k → ∀ a ∈ e.agendas p k, Closes closings a
  | .branch condition yes no, he, hsub, hfirst, hc => by
    rw [Element.check, bind_ok_iff, bind_ok_iff] at he
    rw [Element.closings] at hsub
    obtain ⟨hyes, hno⟩ := List.append_subset.1 hsub
    rw [Element.agendas, List.forall_mem_cons, List.forall_mem_append, List.forall_mem_cons]
    exact ⟨hfirst, closes_bodyAgendas _ [] k yes he.2.1 (.inl rfl) hyes hc, hc,
      closes_bodyAgendas _ [] k no he.2.2 (.inl rfl) hno hc⟩
  | .fork branches, he, hsub, hfirst, hc => by
    rw [Element.check, bind_ok_iff] at he
    rw [Element.closings] at hsub
    rw [Element.agendas, List.forall_mem_cons]
    exact ⟨hfirst, closes_branchAgendas _ k branches he.2 hsub hc⟩
  | .race arms, he, hsub, hfirst, hc => by
    rw [Element.check, bind_ok_iff] at he
    rw [Element.closings] at hsub
    rw [Element.agendas, List.forall_mem_cons]
    exact ⟨hfirst, closes_armAgendas _ k arms he.2 hsub hc⟩
  | .expect _, _, _, hfirst, _ | .send _, _, _, hfirst, _ | .call _, _, _, hfirst, _
  | .join, _, _, hfirst, _ | .assign _ _, _, _, hfirst, _ | .startTimer _ _, _, _, hfirst, _
  | .startFlow _ _, _, _, hfirst, _ | .abort _, _, _, hfirst, _ => by
    rw [Element.agendas]
    · exact List.forall_mem_singleton.2 hfirst
    all_goals simp

theorem closes_bodyAgendas (p : Nat) (opened : List Nat) (k : List Placed) :
    ∀ {nested : Bool} (es : List Element), checkBody nested opened.length es = .ok () →
      (nested = true ∨ k = []) → bodyClosings p opened es ⊆ closings → Closes closings k →
      ∀ a ∈ bodyAgendas p k es, Closes closings a
  | _, [], _, _, _, _ => by simp [bodyAgendas]
  | nested, e :: es, h, hk, hsub, hc => by
    obtain ⟨he, n, hn, hes⟩ := checkBody_cons h
    have hlen : n = (e.forksBehind p opened).length := by
      cases e with
      | join =>
        obtain _ | ⟨fork, opened⟩ := opened
        · cases hn
        · exact (Option.some.inj hn).symm
      | _ => exact (Option.some.inj hn).symm
    rw [hlen] at hes
    have hfirst := closes_place h hk hsub hc
    rw [bodyClosings] at hsub
    obtain ⟨hown, hrest⟩ := List.append_subset.1 hsub
    rw [bodyAgendas, List.forall_mem_append]
    exact ⟨e.closes_agendas p opened _ he hown hfirst (closes_place hes hk hrest hc),
      closes_bodyAgendas _ _ k es hes hk hrest hc⟩

theorem closes_branchAgendas (p : Nat) (k : List Placed) : ∀ bs : List (List Element),
    checkBranches bs = .ok () → branchClosings p bs ⊆ closings → Closes closings k →
    ∀ a ∈ branchAgendas p k bs, Closes closings a
  | [], _, _, _ => by simp [branchAgendas]
  | b :: bs, h, hsub, hc => by
    rw [checkBranches, bind_ok_iff] at h
    rw [branchClosings] at hsub
    obtain ⟨hown, hrest⟩ := List.append_subset.1 hsub
    rw [branchAgendas, List.forall_mem_append, List.forall_mem_cons]
    exact ⟨closes_bodyAgendas p [] k b h.1 (.inl rfl) hown hc, hc,
      closes_branchAgendas _ k bs h.2 hrest hc⟩

theorem closes_armAgendas (p : Nat) (k : List Placed) : ∀ arms : List (Pattern × List Element),
    checkArms arms = .ok () → armClosings p arms ⊆ closings → Closes closings k →
    ∀ a ∈ armAgendas p k arms, Closes closings a
  | [], _, _, _ => by simp [armAgendas]
  | (_, b) :: arms, h, hsub, hc => by
    rw [checkArms, bind_ok_iff, bind_ok_iff] at h
    rw [armClosings] at hsub
    obtain ⟨hown, hrest⟩ := List.append_subset.1 hsub
    rw [armAgendas, List.forall_mem_append, List.forall_mem_cons]
    exact ⟨closes_bodyAgendas p [] k b h.2.1 (.inl rfl) hown hc, hc,
      closes_armAgendas _ k arms h.2.2 hrest hc⟩

end

theorem closes_nil : Closes closings [] := fun _ _ _ _ ha => nomatch ha

/-- All agendas of a body that passes its check say the truth about its forks. -/
theorem closes_agenda {body : List Element} (h : checkBody false 0 body = .ok ()) (p : Nat) :
    Closes (bodyClosings 0 [] body) (agenda body p) := by
  rw [agenda]
  cases ha : (bodyAgendas 0 [] body)[p]? with
  | none => exact closes_nil
  | some a =>
    exact closes_bodyAgendas 0 [] [] body h (.inr rfl) (List.Subset.refl _) closes_nil a
      (List.mem_of_getElem? ha)

end Closes

/-! ## Programs -/

/-- The first join that the branches of a fork lead to closes that fork. -/
def Program.Closes (program : Program) (Safe : Nat → Prop) (J : Nat → List Nat)
    (closings : List (Nat × Nat)) : Prop :=
  ∀ p starts, Safe p → program.fetch p = .fork starts →
    ∀ s ∈ starts, ∀ q, (J s).head? = some q → (p, q) ∈ closings

/-- In the program of a body the joins close the forks that they close in the body. -/
theorem program_closes {body : List Element} (h : checkBody false 0 body = .ok ()) :
    (Program.ofBody body).Closes (fun p => Checked (agenda body p))
      (fun p => openJoins (agenda body p)) (bodyClosings 0 [] body) := by
  intro p starts hp hi s hs q (hq : (openJoins (agenda body s)).head? = some q)
  have hf := fetch_obeys body p
  rw [hi] at hf
  obtain ⟨branches, k, hA, hstarts⟩ := hf
  refine closes_agenda h p p branches k q hA ?_
  rw [hA] at hp
  have he := (List.forall_mem_cons.1 hp).1
  rw [Element.check, bind_ok_iff] at he
  obtain ⟨j, hj, rfl⟩ := List.getElem_of_mem hs
  have hj' : j < branches.length := by rwa [← hstarts.length_eq]
  have hstart : agenda body starts[j] = place starts[j] branches[j] ++ k := hstarts.get hj hj'
  have hb := checkBranches_ok_iff.1 he.2 _ (List.getElem_mem hj')
  rwa [hstart, openJoins_nested hb] at hq

/-- **The program of every flow that may be loaded pairs its forks and joins, each join with the
fork that it closes in the flow.** -/
theorem exists_pairs_closes {f : Flow} {l : LoadedFlow} (h : f.load = .ok l) :
    ∃ Safe J, l.program.Pairs Safe J ∧ l.program.Closes Safe J f.closings := by
  obtain ⟨hprogram, hbody⟩ := Flow.load_ok h
  rw [hprogram]
  exact ⟨_, _, pairs_agenda hbody, program_closes hbody⟩

end EventFlow

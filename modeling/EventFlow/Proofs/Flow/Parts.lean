import EventFlow.Proofs.Flow.Pairing

/-!
# What programs are made of

Every instruction of a program comes from an element of its body, at whatever depth that may be.  So
what the check of a flow requires of all elements is true wherever a head may come.

## What is here

* `Occurs e es` says that an element is one of a sequence, or of a sequence nested in it.
* `check_of_occurs` and `children_subset_of_occurs` hand down what holds of a whole body.
* **`occurs_of_fetch`**, `occurs_race`, `occurs_branch` and `occurs_fork` find the element that an
  instruction comes from.
-/

set_option autoImplicit false

namespace EventFlow

variable {Compiled Found : Type} [Query.Library Compiled Found]

/-- The sequences that are nested in an element. -/
def Element.parts : Element → List (List Element)
  | .branch _ yes no => [yes, no]
  | .fork branches => branches
  | .race arms => arms.map Prod.snd
  | _ => []

/-- An element is one of a sequence, or occurs in a sequence that is nested in one of it. -/
inductive Occurs (e : Element) : List Element → Prop
  | here {es : List Element} (mem : e ∈ es) : Occurs e es
  | within {es b : List Element} {x : Element} (mem : x ∈ es) (part : b ∈ x.parts)
      (inside : Occurs e b) : Occurs e es

section Occurrences

variable {e x : Element} {es b body : List Element} {p : Nat}

theorem Occurs.subset {es' : List Element} (h : Occurs e es) (hsub : es ⊆ es') : Occurs e es' := by
  cases h with
  | here hmem => exact .here (hsub hmem)
  | within hmem hpart hin => exact .within (hsub hmem) hpart hin

theorem Occurs.part (h : Occurs e b) (hb : b ∈ x.parts) : Occurs e [x] :=
  .within (List.mem_singleton_self x) hb h

theorem not_occurs_nil : ¬Occurs e [] := by
  rintro (hmem | ⟨hmem, -, -⟩) <;> cases hmem

/-- What occurs in a sequence is its first element, or nested in it, or occurs in the rest. -/
theorem occurs_cons : Occurs e (x :: es) ↔ (e = x ∨ ∃ b ∈ x.parts, Occurs e b) ∨ Occurs e es := by
  constructor
  · rintro (hmem | ⟨hmem, hpart, hin⟩) <;> rcases List.mem_cons.1 hmem with rfl | hmem
    · exact .inl (.inl rfl)
    · exact .inr (.here hmem)
    · exact .inl (.inr ⟨_, hpart, hin⟩)
    · exact .inr (.within hmem hpart hin)
  · rintro ((rfl | ⟨b, hb, h⟩) | h)
    · exact .here List.mem_cons_self
    · exact .within List.mem_cons_self hb h
    · exact h.subset (List.subset_cons_self x es)

theorem occurs_singleton : Occurs e [x] ↔ e = x ∨ ∃ b ∈ x.parts, Occurs e b := by
  rw [occurs_cons, or_iff_left not_occurs_nil]

/-! ## What holds of a whole body -/

/-- If an element passes its check, then so do the elements of the sequences nested in it. -/
theorem check_of_mem_part (hx : x.check = .ok ()) (hb : b ∈ x.parts) :
    ∀ y ∈ b, y.check = .ok () := by
  cases x with
  | branch condition yes no =>
    rw [Element.check, bind_ok_iff, bind_ok_iff] at hx
    rcases List.mem_cons.1 hb with rfl | hb
    · exact check_of_mem_body hx.2.1
    · rw [List.mem_singleton.1 hb]
      exact check_of_mem_body hx.2.2
  | fork branches =>
    rw [Element.check, bind_ok_iff] at hx
    exact check_of_mem_body (checkBranches_ok_iff.1 hx.2 b hb)
  | race arms =>
    rw [Element.check, bind_ok_iff] at hx
    obtain ⟨arm, harm, rfl⟩ := List.mem_map.1 hb
    exact check_of_mem_body (checkArms_ok_iff.1 hx.2 arm harm).2
  | _ => cases hb

/-- Every element of a body that passes its check passes its own. -/
theorem check_of_occurs (ho : Occurs e es) (h : ∀ x ∈ es, x.check = .ok ()) : e.check = .ok () := by
  induction ho with
  | here hmem => exact h e hmem
  | within hmem hpart _ ih => exact ih (check_of_mem_part (h _ hmem) hpart)

theorem children_subset_of_mem (hx : x ∈ es) : x.children ⊆ bodyChildren es := by
  induction es with
  | nil => cases hx
  | cons y es ih =>
    rw [bodyChildren]
    rcases List.mem_cons.1 hx with rfl | hx
    · exact List.subset_append_left _ _
    · exact fun f hf => List.mem_append_right _ (ih hx hf)

theorem children_subset_of_part (hb : b ∈ x.parts) : bodyChildren b ⊆ x.children := by
  cases x with
  | branch condition yes no =>
    rw [Element.children]
    rcases List.mem_cons.1 hb with rfl | hb
    · exact List.subset_append_left _ _
    · rw [List.mem_singleton.1 hb]
      exact List.subset_append_right _ _
  | fork branches =>
    rw [Element.children]
    rw [Element.parts] at hb
    induction branches with
    | nil => cases hb
    | cons c cs ih =>
      rw [branchChildren]
      rcases List.mem_cons.1 hb with rfl | hb
      · exact List.subset_append_left _ _
      · exact fun f hf => List.mem_append_right _ (ih hb hf)
  | race arms =>
    rw [Element.children]
    rw [Element.parts] at hb
    induction arms with
    | nil => cases hb
    | cons c cs ih =>
      rw [armChildren]
      rcases List.mem_cons.1 hb with rfl | hb
      · exact List.subset_append_left _ _
      · exact fun f hf => List.mem_append_right _ (ih hb hf)
  | _ => cases hb

/-- Whatever an element of a body starts is among what the body starts. -/
theorem children_subset_of_occurs (ho : Occurs e es) : e.children ⊆ bodyChildren es := by
  induction ho with
  | here hmem => exact children_subset_of_mem hmem
  | within hmem hpart _ ih =>
    exact fun f hf => children_subset_of_mem hmem (children_subset_of_part hpart (ih hf))

/-! ## Agendas -/

theorem occurs_of_mem_place {q : Nat} (h : (q, e) ∈ place p es) : Occurs e es := by
  have hmem := List.mem_map_of_mem (f := Prod.snd) h
  rw [map_snd_place] at hmem
  exact .here hmem

mutual

/-- What is on the agendas of an element occurs in it, or comes after it. -/
theorem Element.occurs_agendas (p : Nat) (k : List Placed) : ∀ (x : Element) {a : List Placed},
    a ∈ x.agendas p k → ∀ y ∈ a, y ∈ k ∨ Occurs y.2 [x]
  | .branch condition yes no, a, ha, y, hy => by
    rw [Element.agendas, List.mem_cons, List.mem_append, List.mem_cons] at ha
    rcases ha with rfl | ha | rfl | ha
    · exact (List.mem_cons.1 hy).elim (fun h => .inr (h ▸ .here (List.mem_singleton_self _))) .inl
    · exact (occurs_bodyAgendas _ _ yes ha y hy).imp_right fun h => h.part List.mem_cons_self
    · exact .inl hy
    · exact (occurs_bodyAgendas _ _ no ha y hy).imp_right fun h =>
        h.part (List.mem_cons_of_mem _ (List.mem_singleton_self _))
  | .fork branches, a, ha, y, hy => by
    rw [Element.agendas, List.mem_cons] at ha
    rcases ha with rfl | ha
    · exact (List.mem_cons.1 hy).elim (fun h => .inr (h ▸ .here (List.mem_singleton_self _))) .inl
    · refine (occurs_branchAgendas _ _ branches ha y hy).imp_right ?_
      rintro ⟨b, hb, h⟩
      exact h.part hb
  | .race arms, a, ha, y, hy => by
    rw [Element.agendas, List.mem_cons] at ha
    rcases ha with rfl | ha
    · exact (List.mem_cons.1 hy).elim (fun h => .inr (h ▸ .here (List.mem_singleton_self _))) .inl
    · refine (occurs_armAgendas _ _ arms ha y hy).imp_right ?_
      rintro ⟨arm, harm, h⟩
      exact h.part (List.mem_map_of_mem harm)
  | .expect _, a, ha, y, hy | .send _, a, ha, y, hy | .call _, a, ha, y, hy | .join, a, ha, y, hy
  | .assign _ _, a, ha, y, hy | .startTimer _ _, a, ha, y, hy | .startFlow _ _, a, ha, y, hy
  | .abort _, a, ha, y, hy => by
    simp only [Element.agendas, List.mem_singleton] at ha
    subst ha
    exact (List.mem_cons.1 hy).elim (fun h => .inr (h ▸ .here (List.mem_singleton_self _))) .inl

theorem occurs_bodyAgendas (p : Nat) (k : List Placed) : ∀ (es : List Element) {a : List Placed},
    a ∈ bodyAgendas p k es → ∀ y ∈ a, y ∈ k ∨ Occurs y.2 es
  | [], _, ha, _, _ => by cases ha
  | x :: es, a, ha, y, hy => by
    rw [bodyAgendas, List.mem_append] at ha
    rcases ha with ha | ha
    · rcases x.occurs_agendas p _ ha y hy with hk | h
      · rcases List.mem_append.1 hk with hk | hk
        · exact .inr ((occurs_of_mem_place hk).subset (List.subset_cons_self x es))
        · exact .inl hk
      · exact .inr (h.subset (List.cons_subset.2 ⟨List.mem_cons_self, List.nil_subset _⟩))
    · exact (occurs_bodyAgendas _ k es ha y hy).imp_right fun h =>
        h.subset (List.subset_cons_self x es)

theorem occurs_branchAgendas (p : Nat) (k : List Placed) :
    ∀ (bs : List (List Element)) {a : List Placed},
      a ∈ branchAgendas p k bs → ∀ y ∈ a, y ∈ k ∨ ∃ b ∈ bs, Occurs y.2 b
  | [], _, ha, _, _ => by cases ha
  | b :: bs, a, ha, y, hy => by
    rw [branchAgendas, List.mem_append, List.mem_cons] at ha
    rcases ha with ha | rfl | ha
    · exact (occurs_bodyAgendas _ k b ha y hy).imp_right fun h => ⟨b, List.mem_cons_self, h⟩
    · exact .inl hy
    · refine (occurs_branchAgendas _ k bs ha y hy).imp_right ?_
      rintro ⟨c, hc, h⟩
      exact ⟨c, List.mem_cons_of_mem _ hc, h⟩

theorem occurs_armAgendas (p : Nat) (k : List Placed) :
    ∀ (arms : List (Pattern × List Element)) {a : List Placed},
      a ∈ armAgendas p k arms → ∀ y ∈ a, y ∈ k ∨ ∃ arm ∈ arms, Occurs y.2 arm.2
  | [], _, ha, _, _ => by cases ha
  | (pattern, b) :: arms, a, ha, y, hy => by
    rw [armAgendas, List.mem_append, List.mem_cons] at ha
    rcases ha with ha | rfl | ha
    · exact (occurs_bodyAgendas _ k b ha y hy).imp_right fun h =>
        ⟨(pattern, b), List.mem_cons_self, h⟩
    · exact .inl hy
    · refine (occurs_armAgendas _ k arms ha y hy).imp_right ?_
      rintro ⟨c, hc, h⟩
      exact ⟨c, List.mem_cons_of_mem _ hc, h⟩

end

/-- What is left to do somewhere occurs in the body. -/
theorem occurs_of_mem_agenda {y : Placed} (h : y ∈ agenda body p) : Occurs y.2 body := by
  rw [agenda] at h
  cases ha : (bodyAgendas 0 [] body)[p]? with
  | none =>
    rw [ha] at h
    cases h
  | some a =>
    rw [ha, Option.getD_some] at h
    exact (occurs_bodyAgendas 0 [] body (List.mem_of_getElem? ha) y h).resolve_left
      List.not_mem_nil

/-! ## Instructions -/

/-- An instruction behind which control just goes on comes from an element of the body. -/
theorem occurs_of_fetch (h : ((Program.ofBody body).fetch p).plain? = some e) : Occurs e body := by
  have hcons := (unfolds_remaining body).plain p e h
  have hmem : e ∈ remaining body p := by
    rw [hcons]
    exact List.mem_cons_self
  obtain ⟨y, hy, rfl⟩ := List.mem_map.1 hmem
  exact occurs_of_mem_agenda hy

/-- A race of events comes from one of the body, with the same patterns. -/
theorem occurs_race {starts : List (Pattern × Nat)}
    (h : (Program.ofBody body).fetch p = .race starts) :
    ∃ arms, Occurs (.race arms) body ∧ starts.map Prod.fst = arms.map Prod.fst := by
  have hobeys := fetch_obeys body p
  rw [h] at hobeys
  obtain ⟨arms, k, hp, hall⟩ := hobeys
  refine ⟨arms, ?_, ?_⟩
  · have hmem : (p, Element.race arms) ∈ agenda body p := by
      rw [hp]
      exact List.mem_cons_self
    exact occurs_of_mem_agenda hmem
  · clear h hp
    induction hall with
    | nil => rfl
    | cons hs _ ih => rw [List.map_cons, List.map_cons, ih, hs.1]

/-- A branch comes from one of the body, with the same condition. -/
theorem occurs_branch {condition : String} {otherwise : Nat}
    (h : (Program.ofBody body).fetch p = .branch condition otherwise) :
    ∃ yes no, Occurs (.branch condition yes no) body := by
  have hobeys := fetch_obeys body p
  rw [h] at hobeys
  obtain ⟨yes, no, k, hp, -⟩ := hobeys
  have hmem : (p, Element.branch condition yes no) ∈ agenda body p := by
    rw [hp]
    exact List.mem_cons_self
  exact ⟨yes, no, occurs_of_mem_agenda hmem⟩

/-- A fork comes from one of the body, with as many branches. -/
theorem occurs_fork {starts : List Nat} (h : (Program.ofBody body).fetch p = .fork starts) :
    ∃ branches, Occurs (.fork branches) body ∧ starts.length = branches.length := by
  have hobeys := fetch_obeys body p
  rw [h] at hobeys
  obtain ⟨branches, k, hp, hall⟩ := hobeys
  have hmem : (p, Element.fork branches) ∈ agenda body p := by
    rw [hp]
    exact List.mem_cons_self
  exact ⟨branches, occurs_of_mem_agenda hmem, hall.length_eq⟩

end Occurrences

end EventFlow

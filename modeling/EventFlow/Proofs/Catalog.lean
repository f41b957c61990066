import EventFlow.Proofs.Engine.Created

/-!
# Registering flows

Flows are registered one after the other, and what cannot be registered changes nothing.  However
many attempts fail on the way, in the end a flow can be looked up by its identity, and what is found
is the one flow that has this identity.

A list has to be searched for it.  A `Shelf` keeps a table of places beside the list; that table can
be kept up to date while flows are registered, and looking a flow up comes to the same.

## What is here

* `Catalog.attempts` is the catalog after some attempts to register flows, and `formed_attempts`
  says that it is in order.
* **`find?_eq_some_iff`**: what is found under an identity.
* `Shelf` is a catalog with a table of places.  `Shelf.Labelled` is what holds of the table, and
  **`get?_attempts`** says that it serves to look up flows.
-/

set_option autoImplicit false

namespace EventFlow

variable {Compiled Found : Type} [Query.Library Compiled Found]

namespace Catalog

variable {c : Catalog} {id : FlowId} {l : LoadedFlow}

/-- The catalog after an attempt to register a flow. -/
def attempt (c : Catalog) (f : Flow) : Catalog :=
  match c.register f with
  | .ok c' => c'
  | .error _ => c

/-- The catalog after attempts to register some flows. -/
def attempts (fs : List Flow) : Catalog := fs.foldl attempt empty

theorem formed_empty : empty.Formed := ⟨List.forall_mem_nil _, List.nodup_nil⟩

theorem formed_attempt (hc : c.Formed) (f : Flow) : (c.attempt f).Formed := by
  rw [attempt]
  split
  · next h => exact Engine.formed_register hc h
  · exact hc

theorem formed_attempts (fs : List Flow) : (attempts fs).Formed :=
  List.foldlRecOn fs attempt (motive := Formed) formed_empty fun _ hc f _ => formed_attempt hc f

/-- Attempts that do not fail register all flows. -/
theorem attempts_of_foldlM {fs : List Flow} {c' : Catalog} (h : fs.foldlM register c = .ok c') :
    fs.foldl attempt c = c' := by
  induction fs generalizing c with
  | nil =>
    cases h
    rfl
  | cons f fs ih =>
    rw [List.foldlM_cons] at h
    obtain ⟨c₁, hr, h⟩ := Engine.exists_of_bind_ok h
    rw [List.foldl_cons, attempt, hr]
    exact ih h

/-- **What is found under an identity is the flow with this identity.** -/
theorem find?_eq_some_iff (hc : c.Formed) : c.find? id = some l ↔ l ∈ c.flows ∧ l.id = id := by
  constructor
  · exact fun h => ⟨List.mem_of_find?_eq_some h, Engine.id_of_find? h⟩
  · rintro ⟨hl, rfl⟩
    have hsome : (c.find? l.id).isSome = true :=
      List.find?_isSome.2 ⟨l, hl, decide_eq_true rfl⟩
    obtain ⟨l', hl'⟩ := Option.isSome_iff_exists.1 hsome
    rw [hl', List.inj_on_of_nodup_map hc.distinct (List.mem_of_find?_eq_some hl') hl
      (Engine.id_of_find? hl')]

end Catalog

/-! ## A table of places -/

/-- Flows in the order they were registered, with a table of their places. -/
structure Shelf where
  flows : List LoadedFlow
  place? : FlowId → Option Nat

namespace Shelf

/-- No flows. -/
def empty : Shelf := ⟨[], fun _ => none⟩

/-- The flow with an identity. -/
def get? (r : Shelf) (id : FlowId) : Option LoadedFlow := (r.place? id).bind fun k => r.flows[k]?

/-- Load a flow, add it and note its place. -/
def register (r : Shelf) (f : Flow) : Except Error Shelf := do
  if (r.place? f.id).isSome then throw (.duplicateFlow f.id)
  let l ← f.load
  return ⟨r.flows ++ [l], fun id => if id = l.id then some r.flows.length else r.place? id⟩

/-- The shelf after an attempt to register a flow. -/
def attempt (r : Shelf) (f : Flow) : Shelf :=
  match r.register f with
  | .ok r' => r'
  | .error _ => r

/-- The shelf after attempts to register some flows. -/
def attempts (fs : List Flow) : Shelf := fs.foldl attempt empty

/-- The table has the place of every flow, and nothing else. -/
def Labelled (r : Shelf) : Prop :=
  ∀ id k, r.place? id = some k ↔ ∃ l, r.flows[k]? = some l ∧ l.id = id

variable {r : Shelf} {id : FlowId}

theorem get?_eq_some_iff (hr : r.Labelled) {l : LoadedFlow} :
    r.get? id = some l ↔ l ∈ r.flows ∧ l.id = id := by
  rw [get?, Option.bind_eq_some_iff]
  constructor
  · rintro ⟨k, hk, hl⟩
    obtain ⟨l', hl', hid⟩ := (hr id k).1 hk
    rw [hl, Option.some.injEq] at hl'
    exact ⟨List.mem_of_getElem? hl, hl' ▸ hid⟩
  · rintro ⟨hl, hid⟩
    obtain ⟨k, hk⟩ := List.mem_iff_getElem?.1 hl
    exact ⟨k, (hr id k).2 ⟨l, hk, hid⟩, hk⟩

/-- A table that has all places finds what a search finds. -/
theorem get?_eq_find? {c : Catalog} (hr : r.Labelled) (hc : c.Formed) (hflows : r.flows = c.flows) :
    r.get? id = c.find? id := by
  refine Option.ext fun l => ?_
  rw [get?_eq_some_iff hr, Catalog.find?_eq_some_iff hc, hflows]

theorem isSome_place? (hr : r.Labelled) : (r.place? id).isSome = (r.get? id).isSome := by
  rw [get?]
  cases hk : r.place? id with
  | none => rfl
  | some k =>
    obtain ⟨l, hl, -⟩ := (hr id k).1 hk
    rw [Option.bind_some, hl]
    rfl

/-- The place of a flow that is added is behind all others. -/
theorem labelled_append (hr : r.Labelled) {l : LoadedFlow} (hnew : r.place? l.id = none) :
    Labelled
      ⟨r.flows ++ [l], fun id => if id = l.id then some r.flows.length else r.place? id⟩ := by
  intro id k
  simp only
  rw [List.getElem?_append]
  by_cases hk : k < r.flows.length
  · have hother : id = l.id → ¬∃ l', r.flows[k]? = some l' ∧ l'.id = id := by
      rintro rfl h
      rw [(hr l.id k).2 h] at hnew
      cases hnew
    rw [if_pos hk, ← hr id k]
    split
    · next hid =>
      rw [hr id k]
      refine iff_of_false (fun h => ?_) (hother hid)
      rw [← Option.some.inj h] at hk
      exact absurd hk (Nat.lt_irrefl _)
    · rfl
  · have hnone : r.place? id ≠ some k := by
      intro h
      obtain ⟨l', hl', -⟩ := (hr id k).1 h
      exact hk (List.getElem?_eq_some_iff.1 hl').1
    rw [if_neg hk]
    constructor
    · intro h
      split at h
      · next hid =>
        cases h
        exact ⟨l, by simp, hid.symm⟩
      · exact absurd h hnone
    · rintro ⟨l', hl', rfl⟩
      have hlast : k = r.flows.length := by
        have := (List.getElem?_eq_some_iff.1 hl').1
        simp only [List.length_singleton] at this
        omega
      rw [hlast, Nat.sub_self] at hl'
      cases hl'
      rw [if_pos rfl, hlast]

/-- A shelf holds the flows of a catalog that is in order, and has the places of all of them. -/
structure Serves (r : Shelf) (c : Catalog) : Prop where
  flows : r.flows = c.flows
  labelled : r.Labelled
  formed : c.Formed

/-- Registering a flow fails for both with the same error, or adds it to both. -/
theorem Serves.attempt {c : Catalog} (h : r.Serves c) (f : Flow) :
    (r.attempt f).Serves (c.attempt f) := by
  have htaken : (r.place? f.id).isSome = (c.find? f.id).isSome := by
    rw [isSome_place? h.labelled, get?_eq_find? h.labelled h.formed h.flows]
  have hformed := Catalog.formed_attempt h.formed f
  rw [Catalog.attempt, Catalog.register] at hformed ⊢
  rw [Shelf.attempt, register, htaken]
  cases hnew : (c.find? f.id).isSome with
  | true => exact h
  | false =>
    rw [hnew] at hformed htaken
    cases hload : f.load with
    | error err => exact h
    | ok l =>
      rw [hload] at hformed
      obtain ⟨rfl, -⟩ := Flow.load_eq hload
      refine ⟨congrArg (· ++ _) h.flows, labelled_append h.labelled ?_, hformed⟩
      exact Option.isNone_iff_eq_none.1 (Option.isSome_eq_false_iff.1 htaken)

/-- **A table of places, kept up to date while flows are registered, serves to look up flows.** -/
theorem get?_attempts (fs : List Flow) (id : FlowId) :
    (attempts fs).get? id = (Catalog.attempts fs).find? id := by
  have hserves : (attempts fs).Serves (Catalog.attempts fs) := by
    rw [attempts, Catalog.attempts]
    have hempty : empty.Serves Catalog.empty :=
      ⟨rfl, by simp [Labelled, empty], Catalog.formed_empty⟩
    generalize empty = r at hempty
    generalize Catalog.empty = c at hempty
    induction fs generalizing r c with
    | nil => exact hempty
    | cons f fs ih => exact ih _ _ (hempty.attempt f)
  exact get?_eq_find? hserves.labelled hserves.formed hserves.flows

end Shelf

end EventFlow

import EventFlow.Engine.Process
import EventFlow.Proofs.Flow.Parts
import Mathlib.Data.List.Nodup

/-!
# Engines that were created

An engine is created for flows that may be loaded, each identity once, and every flow is there that
one of them starts.

## What is here

* `create_ok` takes the creation of an engine apart.
* `Catalog.Formed` is what holds of a catalog while flows are registered: `load_of_create` and
  `eq_of_create` say it of an engine.
* **`complete_of_create`**: no flow is missing.
-/

set_option autoImplicit false

namespace EventFlow

variable {Compiled Found : Type} [Query.Library Compiled Found]

/-- All flows of a catalog passed their checks, and no identity is taken twice. -/
structure Catalog.Formed (c : Catalog) : Prop where
  loads : ∀ l ∈ c.flows, l.flow.load = .ok l
  distinct : (c.flows.map LoadedFlow.id).Nodup

namespace Engine

/-- All flows are loaded that loaded flows start. -/
def Complete (e : Engine) : Prop :=
  ∀ l ∈ e.catalog.flows, ∀ (position : Nat) (flow : FlowId) (child : Option Variable),
    l.program.fetch position = .startFlow flow child → (e.catalog.find? flow).isSome = true

section Created

variable {e : Engine} {flows : List Flow} {config : Config} {c c' : Catalog}

theorem exists_of_bind_ok {α β : Type} {x : Except Error α} {f : α → Except Error β} {b : β}
    (h : (x >>= f) = .ok b) : ∃ a, x = .ok a ∧ f a = .ok b := by
  cases x with
  | error err => cases h
  | ok a => exact ⟨a, rfl, h⟩

/-! ## Catalogs -/

theorem id_of_find? {id : FlowId} {l : LoadedFlow} (h : c.find? id = some l) : l.id = id := by
  simpa using List.find?_some h

/-- Registering a flow that is new and passes its check adds it. -/
theorem register_ok {f : Flow} (h : c.register f = .ok c') : ¬(c.find? f.id).isSome = true ∧
    ∃ l, f.load = .ok l ∧ c' = ⟨c.flows ++ [l]⟩ := by
  rw [Catalog.register] at h
  split at h
  · cases h
  · next hnew =>
    obtain ⟨l, hload, h⟩ := exists_of_bind_ok h
    cases h
    exact ⟨hnew, l, hload, rfl⟩

theorem formed_register {f : Flow} (hc : c.Formed) (h : c.register f = .ok c') : c'.Formed := by
  obtain ⟨hnew, l, hload, rfl⟩ := register_ok h
  obtain ⟨rfl, -⟩ := Flow.load_eq hload
  refine ⟨fun l hl => ?_, ?_⟩
  · rcases List.mem_append.1 hl with hl | hl
    · exact hc.loads l hl
    · obtain rfl := List.mem_singleton.1 hl
      exact hload
  · rw [List.map_append, List.nodup_append]
    refine ⟨hc.distinct, List.nodup_singleton _, fun id hid id' hid' heq => hnew ?_⟩
    obtain ⟨l, hl, rfl⟩ := List.mem_map.1 hid
    rw [Catalog.find?, List.find?_isSome]
    exact ⟨l, hl, decide_eq_true (heq.trans (List.mem_singleton.1 hid'))⟩

theorem flows_foldlM (h : flows.foldlM Catalog.register c = .ok c') :
    c'.flows.map LoadedFlow.flow = c.flows.map LoadedFlow.flow ++ flows := by
  induction flows generalizing c with
  | nil =>
    cases h
    exact (List.append_nil _).symm
  | cons f flows ih =>
    rw [List.foldlM_cons] at h
    obtain ⟨c₁, hr, h⟩ := exists_of_bind_ok h
    obtain ⟨-, l, hload, rfl⟩ := register_ok hr
    obtain ⟨rfl, -⟩ := Flow.load_eq hload
    rw [ih h, List.map_append, List.append_assoc]
    rfl

theorem formed_foldlM (hc : c.Formed) (h : flows.foldlM Catalog.register c = .ok c') :
    c'.Formed := by
  induction flows generalizing c with
  | nil =>
    cases h
    exact hc
  | cons f flows ih =>
    rw [List.foldlM_cons] at h
    obtain ⟨c₁, hr, h⟩ := exists_of_bind_ok h
    exact ih (formed_register hc hr) h

theorem ofFlows_ok (h : Catalog.ofFlows flows = .ok c) :
    c.Formed ∧ c.check = .ok () ∧ c.flows.map LoadedFlow.flow = flows := by
  obtain ⟨c', hfold, h⟩ := exists_of_bind_ok h
  obtain ⟨_, hcheck, h⟩ := exists_of_bind_ok h
  cases h
  exact ⟨formed_foldlM ⟨List.forall_mem_nil _, List.nodup_nil⟩ hfold, hcheck, flows_foldlM hfold⟩

theorem create_ok (hc : create flows config = .ok e) :
    Catalog.ofFlows flows = .ok e.catalog ∧ config.check = .ok () ∧ e.config = config := by
  obtain ⟨catalog, hload, hc⟩ := exists_of_bind_ok hc
  obtain ⟨_, hcheck, hc⟩ := exists_of_bind_ok hc
  cases hc
  exact ⟨hload, hcheck, rfl⟩

/-- The flows of an engine passed their checks. -/
theorem load_of_create (hc : create flows config = .ok e) {l : LoadedFlow}
    (hl : l ∈ e.catalog.flows) : l.flow.load = .ok l :=
  (ofFlows_ok (create_ok hc).1).1.loads l hl

/-- The flows of an engine are those it was created with. -/
theorem flows_of_create (hc : create flows config = .ok e) :
    e.catalog.flows.map LoadedFlow.flow = flows :=
  (ofFlows_ok (create_ok hc).1).2.2

/-- A flow of an engine is told by its identity. -/
theorem eq_of_create (hc : create flows config = .ok e) {l l' : LoadedFlow}
    (hl : l ∈ e.catalog.flows) (hl' : l' ∈ e.catalog.flows) (hid : l.id = l'.id) : l = l' :=
  List.inj_on_of_nodup_map (ofFlows_ok (create_ok hc).1).1.distinct hl hl' hid

/-- Every flow is there that a flow of a catalog may start, if the catalog passes its check. -/
theorem complete_of_check (hformed : c.Formed) (hcheck : c.check = .ok ()) :
    Complete ⟨c, config⟩ := by
  intro l hl position flow child hfetch
  have hprogram : l.program = .ofBody l.flow.body := (Flow.load_ok (hformed.loads l hl)).1
  have hoccurs : Occurs (.startFlow flow child) l.flow.body :=
    occurs_of_fetch (p := position) (by rw [← hprogram, hfetch]; rfl)
  have hmem : flow ∈ l.flow.children :=
    children_subset_of_occurs hoccurs (by rw [Element.children]; exact List.mem_singleton_self _)
  have hloaded := forM_ok_iff.1 (forM_ok_iff.1 hcheck l hl) flow hmem
  split at hloaded
  · assumption
  · cases hloaded

/-- **Every flow is loaded that a loaded flow may start.** -/
theorem complete_of_create (hc : create flows config = .ok e) : e.Complete := by
  obtain ⟨hformed, hcheck, -⟩ := ofFlows_ok (create_ok hc).1
  have hcomplete : Complete ⟨e.catalog, e.config⟩ := complete_of_check hformed hcheck
  exact hcomplete

end Created

end Engine

end EventFlow

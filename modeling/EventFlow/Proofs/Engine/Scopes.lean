import EventFlow.Proofs.Engine.Created
import EventFlow.Proofs.Engine.Invariant
import EventFlow.Proofs.Instance.Locals
import EventFlow.Proofs.Scope
import EventFlow.Query.Eval
import Mathlib

/-!
# Which variables are hidden

Over the variables of a head queries find the variables of the conversation, the identity of the
instance and the name of the flow.  A head that had bound one of these three names itself would read
another value in a query than in a template.  What elements write to is checked for that when a flow
is loaded.  The variables that patterns capture are not.

## What is here

* `Engine.Binds` are the names that heads may bind: those that are not reserved, and those that
  patterns bind.
* **`shown_or_captured`**: a variable is shown, or reserved and captured by a pattern.  So
  **`locals_are_shown`**: if patterns leave the reserved names alone, no variable is ever hidden.
* `captured_under_reserved_name`: a pattern that captures a field as `flow` is accepted, and what it
  captures is hidden.
-/

set_option autoImplicit false

namespace EventFlow

section

variable {Compiled Found : Type} [Query.Library Compiled Found]

namespace Engine

/-- Flows may bind a name if it is not reserved, or by a pattern. -/
structure Binds (flows : List Flow) (k : String) : Prop where
  dotless : '.' ∉ k.toList
  captured : k ∈ Variable.reserved → ∃ f ∈ flows, ∃ p, f.Awaits p ∧ k ∈ p.binders

section Scopes

variable {e : Engine} {flows : List Flow} {config : Config} {s : State} {i : Instance} {h : Head}

theorem binds_of_awaits (he : create flows config = .ok e) {l : LoadedFlow} {p : Pattern}
    (hl : l ∈ e.catalog.flows) (hp : l.flow.Awaits p) : ∀ k ∈ p.binders, Binds flows k := by
  have hload := load_of_create he hl
  have hmem : l.flow ∈ flows := by
    rw [← flows_of_create he]
    exact List.mem_map_of_mem hl
  exact fun k hk => ⟨Pattern.binders_of_check (check_of_awaits hload hp) k hk,
    fun _ => ⟨l.flow, hmem, p, hp, hk⟩⟩

theorem within_program (he : create flows config = .ok e) {l : LoadedFlow}
    (hl : l ∈ e.catalog.flows) : l.program.Within (Binds flows) :=
  within_of_load (load_of_create he hl) (fun _ hdot hfree => ⟨hdot, fun hr => absurd hr hfree⟩)
    fun _ hp k hk _ => binds_of_awaits he hl hp k hk

/-- Whatever happens to an instance, it gets no names but those that flows may bind. -/
theorem bequeaths_within (he : create flows config = .ok e) :
    e.Bequeaths (Instance.Within (Binds flows)) (Bindings.Within (Binds flows)) where
  capture hloaded hp hm :=
    Pattern.within_match? Bindings.within_nil (binds_of_awaits he hloaded (.activation hp)) hm
  start hloaded id priority createdAt parent specificity w hb hr := by
    subst hr
    exact Instance.Within.start (within_program he hloaded)
      (Instance.within_spawn id _ priority createdAt parent hb specificity _) w
  advance hi hflow ha := hi.advance? (within_program he (List.mem_of_find?_eq_some hflow)) ha
  abort reason hi := hi.abort reason
  note _ hi := ⟨hi.heads, hi.bases⟩
  windUp _ _ hi := ⟨hi.heads, hi.bases⟩
  drain hi := ⟨hi.heads, hi.bases⟩

/-- **Heads bind no names but those that flows may bind.** -/
theorem binds_of_reachable (he : create flows config = .ok e) (hs : e.Reachable s)
    (hi : i ∈ s.instances) (hh : h ∈ i.heads) : ∀ k ∈ Dict.keys h.bindings, Binds flows k :=
  (((bequeaths_within he).reachable hs i hi).heads h hh).bindings

/-- **A variable of a head is shown, or reserved and captured by a pattern.** -/
theorem shown_or_captured (he : create flows config = .ok e) (hs : e.Reachable s)
    (hi : i ∈ s.instances) (hh : h ∈ i.heads) {k : String} {v : Json}
    (hv : Dict.get? h.bindings k = some v) :
    (∀ globals, (i.scope globals h).Shows k v) ∨
      k ∈ Variable.reserved ∧ ∃ f ∈ flows, ∃ p, f.Awaits p ∧ k ∈ p.binders := by
  have hbinds := binds_of_reachable he hs hi hh k (Dict.mem_keys_of_has (by rw [Dict.has, hv]; rfl))
  by_cases hr : k ∈ Variable.reserved
  · exact .inr ⟨hr, hbinds.captured hr⟩
  · exact .inl fun globals => Scope.shows hv hbinds.dotless hr

/-- **No variable is hidden that patterns have not captured under a reserved name.**  If the patterns
of all flows leave the reserved names alone, no head ever binds one of these, and every variable has
the same value for templates and for queries. -/
theorem locals_are_shown (he : create flows config = .ok e)
    (hfree : ∀ f ∈ flows, ∀ p, f.Awaits p → ∀ k ∈ p.binders, k ∉ Variable.reserved)
    (hs : e.Reachable s) (hi : i ∈ s.instances) (hh : h ∈ i.heads) :
    (∀ k ∈ Dict.keys h.bindings, k ∉ Variable.reserved) ∧
      ∀ k v, Dict.get? h.bindings k = some v → ∀ globals, (i.scope globals h).Shows k v := by
  have hnone : ∀ k ∈ Dict.keys h.bindings, k ∉ Variable.reserved := by
    intro k hk hr
    obtain ⟨f, hf, p, hp, hbinds⟩ := (binds_of_reachable he hs hi hh k hk).captured hr
    exact hfree f hf p hp k hbinds hr
  refine ⟨hnone, fun k v hv => (shown_or_captured he hs hi hh hv).resolve_right fun hcaptured => ?_⟩
  exact hnone k (Dict.mem_keys_of_has (by rw [Dict.has, hv]; rfl)) hcaptured.1

end Scopes

end Engine

end

namespace Engine

/-! ## A flow that captures a field -/

/-- A flow that captures a field under a name, and sends what a template and a query find there. -/
def capture (name : String) : Flow where
  id := ⟨"f"⟩
  description := none
  priority := none
  activation := some ⟨"go", [("x", .var name)]⟩
  body :=
    [.send ⟨"out", [("a", .var (.ofText name)), ("b", .expr name)], .external, .byName⟩,
      .expect ⟨"end", []⟩]

/-- An engine with nothing else. -/
def capturing (name : String) : Engine :=
  ⟨⟨[⟨capture name, .ofBody (capture name).body⟩]⟩, .default⟩

/-- The reply to the first event whose field the flow captures. -/
def captured (name : String) : Reply :=
  (capturing name).respond (.initial (.seeded 0))
    (.event ⟨⟨"1"⟩, "go", [("x", .ofNat 1)], .external⟩)

theorem binders_of_capture {name : String} {p : Pattern} (hp : (capture name).Awaits p) :
    ∀ k ∈ p.binders, k = name := by
  have hoccurs {x : Element} (ho : Occurs x (capture name).body) : x ∈ (capture name).body := by
    cases ho with
    | here hmem => exact hmem
    | within hmem hpart =>
      rcases List.mem_pair.1 hmem with rfl | rfl <;> cases hpart
  cases hp with
  | activation hp =>
    cases hp
    exact List.forall_mem_singleton.2 rfl
  | expect ho =>
    rcases List.mem_pair.1 (hoccurs ho) with heq | heq <;> cases heq
    exact List.forall_mem_nil _
  | race ho => rcases List.mem_pair.1 (hoccurs ho) with heq | heq <;> cases heq

/-- What is captured as `seen` is sent twice. -/
theorem locals_are_shown_seen :
    (captured "seen").state.instances.map (fun i => i.heads.map (Dict.keys ·.bindings)) =
        [[["seen"]]] ∧
      ((captured "seen").outcome.toOption.getD []).map (fun m => (Json.obj m.payload).text) =
        ["\x7b\"a\":1,\"b\":1\x7d"] ∧
      ∀ i ∈ (captured "seen").state.instances, ∀ h ∈ i.heads,
        (∀ k ∈ Dict.keys h.bindings, k ∉ Variable.reserved) ∧
          ∀ k v, Dict.get? h.bindings k = some v → ∀ globals, (i.scope globals h).Shows k v := by
  have he : create [capture "seen"] .default = .ok (capturing "seen") := by cbv
  have hfree : ∀ f ∈ [capture "seen"], ∀ p, f.Awaits p → ∀ k ∈ p.binders,
      k ∉ Variable.reserved := by
    refine List.forall_mem_singleton.2 fun p hp k hk => ?_
    rw [binders_of_capture hp k hk]
    decide
  exact ⟨by cbv, by cbv, fun i hi h hh =>
    locals_are_shown he hfree ((Reachable.initial _).respond _) hi hh⟩

/-- **A pattern may capture a field under a reserved name.**  A flow that does so is accepted, and then
a template finds the field and a query the name of the flow. -/
theorem captured_under_reserved_name :
    create [capture "flow"] .default = .ok (capturing "flow") ∧
      (capturing "flow").Reachable (captured "flow").state ∧
      ((captured "flow").state.instances.flatMap fun i => i.heads.map fun h =>
          (Dict.keys h.bindings, (i.scope [] h).resolve (.var (.ofText "flow")),
            (i.scope [] h).resolve (.expr "flow"))) =
        [(["flow"], .ok (.ofNat 1), .ok (.str "f"))] ∧
      ((captured "flow").outcome.toOption.getD []).map (fun m => (Json.obj m.payload).text) =
        ["\x7b\"a\":1,\"b\":\"f\"\x7d"] :=
  ⟨by cbv, (Reachable.initial _).respond _, by cbv, by cbv⟩

end Engine

end EventFlow

import EventFlow.Proofs.Engine.Limits
import EventFlow.Proofs.Pattern
import EventFlow.Query.Eval
import Mathlib

/-!
# Whose limit a refused start has met

Starts are counted under keys.  Where the activation patterns are plain, a key belongs to one
pattern or to one flow to start as a child, and so a start is refused exactly if as many instances
as the limit allows were started for that very pattern, or as children of that very flow.

## What is here

* `Engine.Owns` says which instances count against the limit of an ask, and `owns_iff_key` that
  these are the ones that were granted under its key.
* `Engine.Judged` is what holds of an ask at its place in a request, and `exists_judged` proves it.
* **`guards_are_apart`** is the result.
* `shared_guard`: two patterns that are not plain share a key, and one of them is refused because of
  the other.
-/

set_option autoImplicit false

namespace EventFlow

section

variable {Compiled Found : Type} [Query.Library Compiled Found]

namespace Engine

variable (e : Engine)

/-- An instance counts against the limit of an ask: it was activated by that very pattern, or is a
child of that very flow. -/
def Owns : Ask → Instance.Origin → Prop
  | .activation _ p, o => e.Activated p o
  | .child c, o => o.parent.isSome = true ∧ o.flow = c.request.flow

open Classical in
/-- How many of some instances count against the limit of an ask. -/
noncomputable def owned (a : Ask) (os : List Instance.Origin) : Nat :=
  os.countP fun o => e.Owns a o

/-- What holds of an ask that comes behind some asks, and before others. -/
structure Judged (s : State) (r : Request) (before : List Ask) (a : Ask) (after : List Ask)
    (earlier : List Instance.Origin) : Prop where
  /-- Some instances are the ones that the asks before it have started. -/
  starts : List.Forall₂ Ask.Gets (Ask.grants e.config.maxInstancesPerPattern [] before) earlier
  first : earlier <+: e.spawnedBy s r
  /-- It is refused exactly if as many of its own are among them as the limit allows. -/
  refused : Ask.refusals e.config.maxInstancesPerPattern before [a] = [a] ↔
    e.owned a earlier = e.config.maxInstancesPerPattern
  /-- It is granted otherwise. -/
  granted : Ask.grants e.config.maxInstancesPerPattern before [a] = [a] ↔
    e.owned a earlier < e.config.maxInstancesPerPattern
  /-- What is refused is reported in its place, if instances hold no reports but their own. -/
  reported : (∀ i ∈ s.instances, i.Personal) → (e.respond s r).refusals =
    (Ask.refusals e.config.maxInstancesPerPattern [] before ++
      Ask.refusals e.config.maxInstancesPerPattern before [a] ++
      Ask.refusals e.config.maxInstancesPerPattern (before ++ [a]) after).map
        (Ask.report e.config.maxInstancesPerPattern)

end Engine

section Guards

open Engine

variable {e : Engine} {s : State} {r : Request} {before after : List Ask} {a b : Ask}
  {o : Instance.Origin} {flows : List Flow} {config : Config}

theorem childKey_injective {flow flow' : FlowId} (h : childKey flow = childKey flow') :
    flow = flow' := by
  have hlist := congrArg String.toList h
  rw [childKey, childKey, String.toList_append, String.toList_append] at hlist
  have htext := String.toList_inj.1 (List.append_cancel_left hlist)
  cases flow
  cases flow'
  exact congrArg _ htext

/-- **The instances that count against the limit of an ask are those that have got its key.** -/
theorem owns_iff_key (he : Engine.create flows config = .ok e)
    (hplain : ∀ f ∈ flows, ∀ p ∈ f.activation, p.Plain) (ha : a ∈ e.asksBy s r)
    (hb : b ∈ e.asksBy s r) (hgets : b.Gets o) : e.Owns a o ↔ b.key = a.key := by
  have hplain' (l) (hl : l ∈ e.catalog.flows) (p) (hp : l.flow.activation = some p) : p.Plain :=
    hplain l.flow (flows_of_create he ▸ List.mem_map_of_mem hl) p hp
  rcases mem_asksBy ha with ⟨l, hl, p, hp, rfl⟩ | ⟨c, -, rfl⟩
  · refine ⟨fun howns => key_of_activated he hb hgets howns, fun hkey => ?_⟩
    rcases mem_asksBy hb with ⟨l', hl', p', hp', rfl⟩ | ⟨c', -, rfl⟩
    · have hsame := (hplain' l' hl' p' hp').eq_of_key (hplain' l hl p hp) hkey
      subst hsame
      exact ⟨hgets.parent, l', hl', hgets.flow.symm, hp'⟩
    · exact absurd hkey.symm ((hplain' l hl p hp).key_ne_childKey _)
  · refine ⟨fun ⟨hparent, hflow⟩ => ?_, fun hkey => ?_⟩
    · rw [key_of_child hgets hparent, hflow, Ask.key]
    · rcases mem_asksBy hb with ⟨l', hl', p', hp', rfl⟩ | ⟨c', -, rfl⟩
      · exact absurd hkey ((hplain' l' hl' p' hp').key_ne_childKey _)
      · refine ⟨by rw [hgets.parent]; rfl, hgets.flow.trans (childKey_injective hkey)⟩

/-- As many instances count against the limit of an ask as were asked for under its key before, up
to the limit. -/
theorem owned_eq (he : Engine.create flows config = .ok e)
    (hplain : ∀ f ∈ flows, ∀ p ∈ f.activation, p.Plain)
    (hasks : e.asksBy s r = before ++ a :: after) {earlier : List Instance.Origin}
    (hstarts : List.Forall₂ Ask.Gets (Ask.grants e.config.maxInstancesPerPattern [] before)
      earlier) :
    e.owned a earlier = min e.config.maxInstancesPerPattern (Ask.tally a.key before) := by
  classical
  have ha : a ∈ e.asksBy s r := hasks ▸ List.mem_append_right _ List.mem_cons_self
  have hcount : earlier.countP (fun o => decide (e.Owns a o)) =
      Ask.tally a.key (Ask.grants e.config.maxInstancesPerPattern [] before) := by
    refine countP_eq_tally hstarts fun b hb o hgets => ?_
    have hmem : b ∈ e.asksBy s r := hasks ▸ List.mem_append_left _ (Ask.mem_of_mem_grants hb)
    rw [decide_eq_true_iff]
    exact owns_iff_key he hplain ha hmem hgets
  have hall := Ask.tally_grants e.config.maxInstancesPerPattern a.key [] before
  have hnil : Ask.tally a.key [] = 0 := rfl
  rw [hnil, List.nil_append] at hall
  rw [owned, hcount]
  omega

/-- **Every ask is judged by the instances of its own that were started before.** -/
theorem exists_judged (he : Engine.create flows config = .ok e)
    (hplain : ∀ f ∈ flows, ∀ p ∈ f.activation, p.Plain)
    (hasks : e.asksBy s r = before ++ a :: after) :
    ∃ earlier, e.Judged s r before a after earlier := by
  have hc := complete_of_create he
  have hstarts := List.forall₂_take
    (Ask.grants e.config.maxInstancesPerPattern [] before).length (started_respond hc s r).1
  rw [grantsBy, hasks, Ask.grants_append, List.take_left] at hstarts
  have howned := owned_eq he hplain hasks hstarts
  refine ⟨_, hstarts, List.take_prefix _ _, ?_, ?_, fun hp => ?_⟩
  · rw [Ask.refusals_eq_self_iff, howned]
    omega
  · rw [Ask.grants_eq_self_iff, howned]
    omega
  · rw [refused_respond hc hp r, refusalsBy, hasks, ← List.singleton_append, ← List.append_assoc,
      Ask.refusals_append, Ask.refusals_append]
    rfl

/-- **The limit of one pattern never affects another.**  Plain patterns with the same key are the
same, and no flow is started as a child under the key of a plain pattern; so, if the patterns of an
engine are plain, what it is asked to start is refused exactly if as many instances of that very
pattern, or children of that very flow, were started earlier in the step as the limit allows. -/
theorem guards_are_apart (he : Engine.create flows config = .ok e)
    (hplain : ∀ f ∈ flows, ∀ p ∈ f.activation, p.Plain) :
    (∀ p p' : Pattern, p.Plain → p'.Plain → p.key = p'.key → p = p') ∧
      (∀ p : Pattern, p.Plain → ∀ flow, p.key ≠ childKey flow) ∧
      ∀ (s : State) (r : Request) (before : List Ask) (a : Ask) (after : List Ask),
        e.asksBy s r = before ++ a :: after → ∃ earlier, e.Judged s r before a after earlier :=
  ⟨fun _ _ hp hp' => hp.eq_of_key hp', fun _ hp => hp.key_ne_childKey,
    fun _ _ _ _ _ hasks => exists_judged he hplain hasks⟩

end Guards

end

open Engine

/-! ## Two flows that wait for the same event -/

/-- The pattern of an event that has some fields. -/
def having (paths : List String) : Pattern := ⟨"e", paths.map fun path => (path, .any)⟩

theorem plain_having {paths : List String}
    (hpaths : (paths.all fun path => path.toList.all fun c => !Constraint.isMark c) = true) :
    (having paths).Plain := by
  have hname : (having paths).name = "e" := rfl
  refine ⟨by rw [hname]; decide, by rw [hname]; decide, fun f hf => ?_, fun f hf v hv => ?_⟩
  · obtain ⟨path, hpath, rfl⟩ := List.mem_map.1 hf
    intro c hc
    have hmark := List.all_eq_true.1 (List.all_eq_true.1 hpaths path hpath) c hc
    simpa using hmark
  · obtain ⟨path, -, rfl⟩ := List.mem_map.1 hf
    cases hv

/-- A flow that is activated by an event that has some fields, and then waits. -/
def listening (id : String) (paths : List String) : Flow where
  id := ⟨id⟩
  description := none
  priority := none
  activation := some (having paths)
  body := [.expect ⟨"end", []⟩]

/-- Two such flows. -/
def rivals (first second : List String) : List Flow := [listening "A" first, listening "B" second]

/-- An engine with these, in which a pattern may start one instance at a time. -/
def rivalry (first second : List String) : Engine where
  catalog := ⟨(rivals first second).map fun f => ⟨f, .ofBody f.body⟩⟩
  config := { Config.default with maxInstancesPerPattern := 1 }

/-- An event that both patterns match. -/
def contested : Event :=
  ⟨⟨"1"⟩, "e", [("a", .ofNat 1), ("a*,b", .ofNat 1), ("b", .ofNat 1)], .external⟩

/-- The same pattern activates two flows, and the second start is refused because of the first. -/
theorem guards_are_apart_rivals :
    (having ["a", "b"]).key ≠ (having ["a"]).key ∧ (having ["a", "b"]).key ≠ childKey ⟨"e"⟩ ∧
      ((rivalry ["a", "b"] ["a", "b"]).respond (.initial (.seeded 0)) (.event contested)).refusals =
        [.activationLimitReached ⟨"B"⟩ (having ["a", "b"]).key 1] ∧
      (rivalry ["a", "b"] ["a", "b"]).asksBy (.initial (.seeded 0)) (.event contested) =
        [.activation ⟨"A"⟩ (having ["a", "b"])] ++ .activation ⟨"B"⟩ (having ["a", "b"]) :: [] ∧
      ∃ earlier, (rivalry ["a", "b"] ["a", "b"]).Judged (.initial (.seeded 0)) (.event contested)
        [.activation ⟨"A"⟩ (having ["a", "b"])] (.activation ⟨"B"⟩ (having ["a", "b"])) []
        earlier := by
  have hboth : (having ["a", "b"]).Plain := plain_having (by decide)
  have hasks : (rivalry ["a", "b"] ["a", "b"]).asksBy (.initial (.seeded 0)) (.event contested) =
      [.activation ⟨"A"⟩ (having ["a", "b"])] ++ .activation ⟨"B"⟩ (having ["a", "b"]) :: [] := by
    cbv
  have hcreated : Engine.create (rivals ["a", "b"] ["a", "b"])
      (rivalry ["a", "b"] ["a", "b"]).config = .ok (rivalry ["a", "b"] ["a", "b"]) := by cbv
  have hplain : ∀ f ∈ rivals ["a", "b"] ["a", "b"], ∀ p ∈ f.activation, p.Plain := by
    intro f hf p hp
    rcases List.mem_pair.1 hf with rfl | rfl <;> cases hp <;> exact hboth
  obtain ⟨hkeys, hchildren, hjudged⟩ := guards_are_apart hcreated hplain
  refine ⟨fun hkey => ?_, hchildren _ hboth _, by cbv, hasks, hjudged _ _ _ _ _ hasks⟩
  have hsame := hkeys _ _ hboth (plain_having (by decide)) hkey
  cases congrArg (fun p => p.fields.length) hsame

/-- **Patterns that are not plain may share a key**, though they are well-formed: a path with a star
and a comma reads as two paths.  Then one is refused for the other. -/
theorem shared_guard :
    (having ["a*,b"]).check = .ok () ∧ (having ["a", "b"]).check = .ok () ∧
      having ["a*,b"] ≠ having ["a", "b"] ∧ (having ["a*,b"]).key = (having ["a", "b"]).key ∧
      Engine.create (rivals ["a*,b"] ["a", "b"]) (rivalry ["a*,b"] ["a", "b"]).config =
        .ok (rivalry ["a*,b"] ["a", "b"]) ∧
      ((rivalry ["a*,b"] ["a", "b"]).spawnedBy (.initial (.seeded 0)) (.event contested)).map
        Instance.Origin.flow = [⟨"A"⟩] ∧
      ((rivalry ["a*,b"] ["a", "b"]).respond (.initial (.seeded 0)) (.event contested)).refusals =
        [.activationLimitReached ⟨"B"⟩ (having ["a", "b"]).key 1] := by
  refine ⟨by cbv, by cbv, fun h => ?_, by cbv, by cbv, by cbv, by cbv⟩
  cases congrArg (fun p => p.fields.length) h

end EventFlow

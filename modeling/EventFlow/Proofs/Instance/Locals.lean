import EventFlow.Proofs.Flow.Binders
import EventFlow.Proofs.Instance.Children
import EventFlow.Proofs.Instance.Legible

/-!
# Which names heads bind

A head gets its bindings from many sides: from the event that has activated its flow or from the head
that has asked for the child, from elements that write to a variable, from results, from the fields
that patterns capture, from the heads it joins.  All the names come from three places: from what the
instance was started with, from the variables that elements of the flow write to, and from the
patterns that its elements wait for.

## What is here

* `Instance.Within P` says that heads have names for nothing but what satisfies `P`, and will not get
  any by going on from where they wait.
* **`Within.start`** and **`Within.advance?`**: if all names a program binds satisfy `P`, then
  running keeps instances within `P`, and whatever children are asked for get only such names.
-/

set_option autoImplicit false

namespace EventFlow

variable {Compiled Found : Type} [Query.Library Compiled Found]

/-- All names that some bindings have values for satisfy `P`. -/
def Bindings.Within (P : String → Prop) (b : Bindings) : Prop := ∀ k ∈ Dict.keys b, P k

/-- All names satisfy `P` that a head has values for, or may get when it goes on. -/
structure Head.Within (P : String → Prop) (h : Head) : Prop where
  bindings : h.bindings.Within P
  expected : ∀ x ∈ h.expectations, ∀ k ∈ x.pattern.binders, P k
  awaited : ∀ v ∈ h.resultTarget, ∀ k ∈ v.binders, P k

/-- All names satisfy `P` that the heads of an instance have values for, or may get. -/
structure Instance.Within (P : String → Prop) (i : Instance) : Prop where
  heads : ∀ h ∈ i.heads, h.Within P
  bases : ∀ entry ∈ i.bases, Bindings.Within P entry.2

section Within

open Instance

variable {P : String → Prop} {program : Program} {i i' : Instance} {h h' : Head} {k : Nat}
  {w w' : World} {b b' : Bindings} {e : Event} {m m' : Machine}

/-! ## Bindings -/

theorem Bindings.within_nil : Bindings.Within P [] := fun _ hk => absurd hk List.not_mem_nil

theorem Bindings.Within.ofList (hb : b.Within P) : Bindings.Within P (Dict.ofList b) :=
  fun k hk => hb k (Dict.mem_keys_ofList.1 hk)

theorem Bindings.Within.set {path : String} (hb : b.Within P) (hp : P (Path.root path))
    (value : Json) : Bindings.Within P (Path.set b path value) := by
  intro k hk
  rcases Path.mem_keys_set.1 hk with rfl | hk
  · exact hp
  · exact hb k hk

theorem within_bind {v : Variable} (hb : h.bindings.Within P) (hv : ∀ k ∈ v.binders, P k)
    (value : Json) (w : World) : (bind v value h w).1.bindings.Within P := by
  obtain ⟨owner, name⟩ := v
  cases owner with
  | head => exact hb.set (hv _ (List.mem_singleton_self _)) value
  | conversation => exact hb

theorem within_bindOption {v : Option Variable} (hb : h.bindings.Within P)
    (hv : ∀ x ∈ v, ∀ k ∈ x.binders, P k) (value : Json) (w : World) :
    (bindOption v value h w).1.bindings.Within P := by
  cases v with
  | none => exact hb
  | some v => exact within_bind hb (hv v rfl) value w

theorem Constraint.within_match? {c : Constraint} {value : Json} (hb : b.Within P)
    (hc : ∀ k ∈ c.binder?, P k) (hm : c.match? value b = some b') : b'.Within P := by
  cases c with
  | any =>
    cases hm
    exact hb
  | literal expected =>
    rw [Constraint.match?] at hm
    split at hm <;> cases hm
    exact hb
  | var name =>
    rw [Constraint.match?] at hm
    split at hm
    · split at hm <;> cases hm
      exact hb
    · cases hm
      intro k hk
      rcases Dict.mem_keys_put.1 hk with rfl | hk
      · exact hc k rfl
      · exact hb k hk

theorem Pattern.within_matchFields? {fields : Dict String Constraint} (hb : b.Within P)
    (hf : ∀ k ∈ (Dict.values fields).filterMap Constraint.binder?, P k)
    (hm : matchFields? e b fields = some b') : b'.Within P := by
  induction fields generalizing b with
  | nil =>
    cases hm
    exact hb
  | cons f fields ih =>
    simp only [matchFields?, Option.bind_eq_bind, Option.bind_eq_some_iff] at hm
    obtain ⟨value, -, d, hd, hm⟩ := hm
    refine ih (Constraint.within_match? hb (fun k hk => ?_) hd) (fun k hk => ?_) hm
    · exact hf k (List.mem_filterMap.2 ⟨f.2, List.mem_cons_self, hk⟩)
    · obtain ⟨c, hc, hk⟩ := List.mem_filterMap.1 hk
      exact hf k (List.mem_filterMap.2 ⟨c, List.mem_cons_of_mem _ hc, hk⟩)

/-- A match adds no names but those its pattern binds. -/
theorem Pattern.within_match? {p : Pattern} (hb : b.Within P) (hp : ∀ k ∈ p.binders, P k)
    (hm : p.match? e b = some b') : b'.Within P := by
  rw [Pattern.match?] at hm
  split at hm
  · exact within_matchFields? hb hp hm
  · cases hm

theorem within_mergeBindings {branches : List Bindings} (hb : b.Within P)
    (hs : ∀ x ∈ branches, Bindings.Within P x) :
    Bindings.Within P (mergeBindings b branches) := by
  refine List.foldlRecOn (motive := fun d => Bindings.Within P d) branches _ hb
    fun d hd x hx k hk => ?_
  rcases Dict.mem_keys_putAll.1 hk with hk | hk
  · exact hd k hk
  · exact hs x hx k (List.filter_sublist.map Prod.fst |>.subset hk)

/-! ## Heads -/

/-- A head that waits for nothing has only the names it has values for. -/
theorem Head.within_of_idle (hb : h.bindings.Within P) (hx : h.expectations = [])
    (hr : h.resultTarget = none) : h.Within P := by
  refine ⟨hb, ?_, ?_⟩
  · rw [hx]
    exact List.forall_mem_nil _
  · rw [hr]
    exact nofun

theorem Head.within_of_ready (hb : h.bindings.Within P) (hr : h.state = .ready) : h.Within P := by
  refine within_of_idle hb ?_ ?_
  · rw [expectations, hr]
  · rw [resultTarget, hr]

/-- Executing an instruction adds no names but those the instruction binds. -/
theorem within_of_execute {instr : Instruction} (hi : ∀ k ∈ instr.binders, P k)
    (hb : h.bindings.Within P) (hr : h.state = .ready)
    (he : (i.execute w h instr).1 = .become h') : h'.Within P := by
  have hstill {x : Head} (hx : x.bindings.Within P) (hs : x.state = h.state) (q : Nat) :
      (x.goTo q).Within P := Head.within_of_ready hx (hs.trans hr)
  have hwrite {v : Option Variable} (hv : v.toList.flatMap Variable.binders ⊆ instr.binders)
      (value : Json) (w : World) : (bindOption v value h w).1.bindings.Within P :=
    within_bindOption hb (fun x hx k hk => hi k (hv (List.mem_flatMap.2
      ⟨x, Option.mem_toList.2 hx, hk⟩))) value w
  have hstate (v : Option Variable) (value : Json) (w : World) :
      (bindOption v value h w).1.state = h.state := by
    obtain ⟨bindings, hv⟩ := bindOption_head v value h w
    rw [hv]
  cases instr with
  | expect pattern =>
    cases he
    exact ⟨hb, List.forall_mem_singleton.2 hi, fun v hv => (Option.not_mem_none v hv).elim⟩
  | race arms =>
    cases he
    refine ⟨hb, fun x hx k hk => ?_, fun v hv => (Option.not_mem_none v hv).elim⟩
    obtain ⟨a, ha, rfl⟩ := List.mem_map.1 hx
    exact hi k (List.mem_flatMap.2 ⟨a, ha, hk⟩)
  | send event =>
    simp only [execute, executeSend] at he
    split at he <;> cases he
    exact hstill hb rfl _
  | call spec =>
    have hresult : spec.result.toList.flatMap Variable.binders ⊆
        (Instruction.call spec).binders := by
      rw [Instruction.binders, List.flatMap_append]
      exact List.subset_append_left _ _
    have hinvocation : spec.invocation.toList.flatMap Variable.binders ⊆
        (Instruction.call spec).binders := by
      rw [Instruction.binders, List.flatMap_append]
      exact List.subset_append_right _ _
    simp only [execute, executeCall] at he
    split at he
    · cases he
    · split at he
      · cases he
        refine ⟨hwrite hinvocation _ _, fun x hx => ?_, fun v hv k hk => ?_⟩
        · -- the pattern of a result binds nothing
          rw [List.mem_singleton.1 hx]
          exact List.forall_mem_nil _
        · exact hi k (hresult (List.mem_flatMap.2 ⟨v, Option.mem_toList.2 hv, hk⟩))
      · cases he
        exact hstill (hwrite hinvocation _ _) (hstate ..) _
  | branch condition otherwise =>
    simp only [execute] at he
    split at he <;> cases he <;> exact hstill hb rfl _
  | jump target =>
    cases he
    exact hstill hb rfl _
  | fork starts =>
    cases starts <;> cases he
    exact hstill hb rfl _
  | assign target value =>
    simp only [execute] at he
    split at he <;> cases he
    refine hstill (hwrite (v := some target) ?_ _ _) (hstate (some target) _ _) _
    rw [Option.toList_some, List.flatMap_singleton]
    exact List.Subset.refl _
  | startTimer duration timer =>
    cases he
    exact hstill (hwrite (List.Subset.refl _) _ _) (hstate ..) _
  | startFlow flow child =>
    cases he
    exact hstill (hwrite (List.Subset.refl _) _ _) (hstate ..) _
  | finish =>
    cases he
    exact Head.within_of_idle hb rfl rfl
  | join | abort => cases he

theorem within_resume {x : HeadMatch} (hh : h.Within P) (hm : h.match? e = some x) (w : World) :
    (resume h x e w).1.Within P := by
  obtain ⟨y, hy, hm⟩ := List.exists_of_findSome?_eq_some hm
  obtain ⟨d, hd, rfl⟩ := Option.map_eq_some_iff.1 hm
  refine Head.within_of_ready (within_bindOption ?_ hh.awaited _ _) (resume_head ..).2
  exact Pattern.within_match? hh.bindings (hh.expected y hy) hd

/-! ## Instances -/

namespace Instance

theorem Within.setHead (hi : i.Within P) (hh : h'.Within P) (k : Nat) :
    (i.setHead k h').Within P := by
  refine ⟨fun x hx => ?_, hi.bases⟩
  rcases List.mem_or_eq_of_mem_set hx with hx | rfl
  · exact hi.heads x hx
  · exact hh

/-- Aborting heads binds nothing. -/
theorem Within.stops (hi : i.Within P) (hs : i.Stops i') (hb : List.Sublist i'.bases i.bases) :
    i'.Within P := by
  refine ⟨fun x hx => ?_, fun entry he => hi.bases entry (hb.subset he)⟩
  rcases hs.mem hx with hx | ⟨y, hy, reason, rfl⟩
  · exact hi.heads x hx
  · exact Head.within_of_idle (hi.heads y hy).bindings rfl rfl

theorem Within.settle (hi : i.Within P) : i.settle.Within P :=
  hi.stops (stops_settle i) (bases_settle_sublist i)

theorem Within.abortHead (hi : i.Within P) (hh : h.Within P) (k : Nat) (reason : String) :
    (i.abortHead k h reason).Within P := by
  have hstopped : Head.Within P { h with state := .aborted reason } :=
    Head.within_of_idle hh.bindings rfl rfl
  exact (hi.setHead hstopped k).stops (stops_abortHead ..) (bases_settle_sublist _)

theorem Within.refresh (hi : i.Within P) : i.refresh.Within P := by
  refine hi.stops (stops_refresh i) ?_
  rw [bases_refresh]

theorem Within.abort (hi : i.Within P) (reason : String) : (i.abort reason).Within P := by
  rw [abort_eq]
  split
  · exact hi
  · exact (hi.stops (stops_stopAll i reason) (.refl _)).refresh

theorem Within.fork (hi : i.Within P) (hh : h.Within P) (hr : h.state = .ready) (k first : Nat)
    (others : List Nat) : (i.fork k h first others).1.Within P := by
  have hdown (id : HeadId) (b : Branch) (start : Nat) : (h.goDown id b start).Within P :=
    Head.within_of_ready hh.bindings hr
  refine ⟨fun x hx => ?_, fun entry he => ?_⟩
  · rcases List.mem_append.1 hx with hx | hx
    · rcases List.mem_or_eq_of_mem_set hx with hx | rfl
      · exact hi.heads x hx
      · exact hdown _ _ _
    · obtain ⟨s, -, rfl⟩ := List.mem_map.1 hx
      exact hdown _ _ _
  · rcases Dict.mem_put he with rfl | he
    · exact hh.bindings
    · exact hi.bases entry he

/-- A join leaves the names of the fork and of the heads it merges. -/
theorem Within.merge (hi : i.Within P) {g place : Nat} {first : Head}
    {others : List (Head × Nat)} (ha : i.arrived g = (first, place) :: others) :
    (i.merge g first place others).Within P := by
  have hwaits : ∀ x ∈ (first, place) :: others, x.1.Within P := by
    intro x hx
    rw [← ha, arrived] at hx
    have hx := (List.mem_filter.1 ((List.mergeSort_perm ..).subset hx)).1
    exact hi.heads x.1 (List.mem_of_getElem? (getElem?_of_mem_zipIdx hx))
  have hbase : Bindings.Within P ((Dict.get? i.bases g).getD []) := by
    cases hg : Dict.get? i.bases g with
    | none => exact Bindings.within_nil
    | some base => exact hi.bases (g, base) (Dict.mem_of_get? hg)
  refine ⟨fun x hx => ?_, fun entry he => hi.bases entry (List.mem_filter.1 he).1⟩
  rcases List.mem_or_eq_of_mem_set (List.mem_filter.1 hx).1 with hx | rfl
  · exact hi.heads x hx
  · refine Head.within_of_ready (within_mergeBindings hbase fun b hb => ?_) rfl
    obtain ⟨y, hy, rfl⟩ := List.mem_map.1 hb
    rcases List.mem_cons.1 hy with rfl | hy
    · exact (hwaits _ List.mem_cons_self).bindings
    · obtain ⟨z, hz, rfl⟩ := List.mem_map.1 hy
      exact (hwaits z (List.mem_cons_of_mem _ hz)).bindings

theorem Within.arrive (hi : i.Within P) (hh : h.Within P) (hr : h.state = .ready) (k : Nat) :
    (i.arrive k h).1.Within P := by
  rw [Instance.arrive]
  split
  · exact @Within.setHead P i h.advance hi (Head.within_of_ready hh.bindings hr) k
  · next b _ _ =>
    have hwaits : Head.Within P { h with state := .atJoin b.group } :=
      Head.within_of_idle hh.bindings rfl rfl
    have hat := (hi.setHead hwaits k).settle
    simp only
    split
    · split
      · exact hat
      · next ha =>
        split
        · exact hat
        · exact hat.merge ha
    · exact hat

/-! ## Runs -/

/-- A step binds no names but those its program binds. -/
theorem Within.step (hp : program.Within P) (hm : m.inst.Within P)
    (hs : m.step? program = some m') : m'.inst.Within P := by
  rcases Machine.step?_eq hs with ⟨id, rest, -, rfl, -⟩ | ⟨x, k, hr, rfl⟩
  · exact hm
  · have hx := hm.heads x hr.mem
    rw [Machine.turn]
    generalize he : m.inst.execute m.world x (program.fetch x.position) = turned
    obtain ⟨turn, world, effects⟩ := turned
    cases turn with
    | become h' =>
      exact hm.setHead
        (within_of_execute (hp x.position) hx.bindings hr.ready (congrArg Prod.fst he)) k
    | abort reason => exact hm.abortHead hx k reason
    | split first others => exact hm.fork hx hr.ready k first others
    | arrive => exact hm.arrive hx hr.ready k

theorem Within.reach (hp : program.Within P) (hm : m.inst.Within P)
    (hr : Relation.ReflTransGen (fun m m' : Machine => m.step? program = some m') m m') :
    m'.inst.Within P := by
  induction hr with
  | refl => exact hm
  | tail _ hs ih => exact ih.step hp hs

/-- A child that is asked for in a run gets only names that the head has which asks for it. -/
theorem Within.starts {r : ChildRequest} (hp : program.Within P) (hm : m.inst.Within P)
    (hr : m.Starts program r) : r.bindings.Within P := by
  obtain ⟨before, after, position, child, h, hissues⟩ := hr
  have hafter : after.inst.Within P := hm.reach hp (hissues.reached.tail hissues.step)
  rw [← hissues.parent.2.2]
  exact (hafter.heads h hissues.parent.1).bindings

theorem Within.outcome (hp : program.Within P) (hm : m.inst.Within P) :
    (m.run program).outcome.1.Within P :=
  Within.refresh <| @Machine.run_of_step _ _ _ program _ (fun m => m.inst.Within P)
    (fun _ _ hm hs => Within.step hp hm hs) hm

theorem within_spawn (id : InstanceId) (flow : FlowId) (priority : Int) (createdAt : Nat)
    (parent : Option InstanceId) (hb : b.Within P) (specificity : Nat) (o : Observation) :
    ((spawn id flow priority createdAt parent b specificity).observe o).Within P := by
  refine ⟨fun h hh => ?_, List.forall_mem_nil _⟩
  rw [List.mem_singleton.1 hh]
  exact Head.within_of_ready hb.ofList rfl

/-- **Starting an instance binds no names but those its program binds**, and hands on no others. -/
theorem Within.start (hp : program.Within P) (hi : i.Within P) (w : World) :
    (i.start program w).1.Within P ∧ ∀ r ∈ (i.start program w).2.2.children, r.bindings.Within P :=
  ⟨Within.outcome (m := .starting i w) hp hi, fun r hr =>
    Within.starts (m := .starting i w) hp hi (starts_start program i w r hr)⟩

/-- **Moving a head binds no names but those its program binds**, and hands on no others. -/
theorem Within.advance? (hp : program.Within P) (hi : i.Within P) {id : HeadId}
    {r : Instance × World × Effects} (ha : i.advance? program w id e = some r) :
    r.1.Within P ∧ ∀ c ∈ r.2.2.children, c.bindings.Within P := by
  obtain ⟨i', w', f⟩ := r
  obtain ⟨m, hm, hchildren⟩ := starts_advance? ha
  have hwithin : m.inst.Within P := by
    obtain ⟨-, x, k, y, hslot, hy, rfl⟩ := advancing?_eq_some.1 hm
    have hx := hi.heads x (List.mem_of_getElem? (Machine.getElem?_of_slot? hslot))
    exact hi.setHead (within_resume hx hy w) k
  refine ⟨?_, fun c hc => hwithin.starts hp (hchildren c hc)⟩
  rw [advance?_eq, hm, Option.map_some, Option.some.injEq] at ha
  rw [← ha]
  exact hwithin.outcome hp

end Instance

end Within

end EventFlow

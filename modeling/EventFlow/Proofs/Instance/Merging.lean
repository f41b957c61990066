import EventFlow.Proofs.Instance.Kept
import EventFlow.Proofs.Json.Fields
import EventFlow.Query.Eval
import Mathlib

/-!
# What a join makes of its branches

The branches of a fork arrive in any order, and the join puts them back in the order of the fork.
So what goes on behind it can be said without a word about arrivals: by the head that forked and the
heads of the branches, the first branch in front.

## What is here

* `get?_mergeBindings`: a variable has the value of the last branch that changed it.
* `Merged` describes the head that goes on.  `Merged.unique`: it leaves nothing open.
* `Machine.Joins` describes the step that completes a join; `joins_of_completes` proves it of every
  such step.

**`join_merges_branches`** is the main result, for every flow that may be loaded.
-/

set_option autoImplicit false

namespace EventFlow

section

variable {Compiled Found : Type} [Query.Library Compiled Found]

/-! ## Bindings -/

/-- A value differs from the one that some bindings have for a variable, if they have one. -/
def Bindings.Differs (base : Bindings) (key : String) (value : Json) : Prop :=
  ∀ w, Dict.get? base key = some w → w.same value = false

namespace Instance

variable {base b : Bindings} {key : String}

theorem sorted_changes (h : b.Sorted) : (changes base b).Sorted :=
  h.sublist (List.filter_sublist.map Prod.fst)

theorem get?_changes_eq_some (h : b.Sorted) {v : Json} :
    Dict.get? (changes base b) key = some v ↔ Dict.get? b key = some v ∧ base.Differs key v := by
  have hfilter : Dict.get? (changes base b) key = (Dict.get? b key).filter _ :=
    Dict.get?_filter h.nodup_keys _ key
  rw [hfilter, Option.filter_eq_some_iff]
  refine and_congr_right fun _ => ?_
  cases hbase : Dict.get? base key <;> simp [Bindings.Differs, hbase]

/-- **A variable has the value of the last branch that changed it**, and otherwise its old one. -/
theorem get?_mergeBindings {bs : List Bindings} (h : ∀ b ∈ bs, b.Sorted) :
    Dict.get? (mergeBindings base bs) key =
      (bs.reverse.findSome? fun b => Dict.get? (changes base b) key).or (Dict.get? base key) := by
  induction bs using List.reverseRecOn with
  | nil => rfl
  | append_singleton bs b ih =>
    have hb := h b (by simp)
    rw [mergeBindings, List.foldl_append, List.foldl_cons, List.foldl_nil, ← mergeBindings,
      Dict.get?_putAll, Dict.get?_reverse (sorted_changes hb).nodup_keys,
      ih fun b hb => h b (List.mem_append_left _ hb), List.reverse_append]
    simp only [List.reverse_cons, List.reverse_nil, List.nil_append, List.cons_append,
      List.findSome?_cons]
    cases Dict.get? (changes base b) key <;> rfl

end Instance

/-! ## The head that goes on -/

/-- A head has a value for a variable that the head before the fork did not have. -/
def Head.Changed (x origin : Head) (key : String) : Prop :=
  ∃ v, Dict.get? x.bindings key = some v ∧ origin.bindings.Differs key v

/-- The head `s` is what a join makes of the head `o` that forked and of the heads `xs` that have
come to the join, one from each branch and in the order of the branches. -/
structure Merged (program : Program) (o : Head) (xs : List Head) (s : Head) : Prop where
  id : s.id = o.id
  branches : s.branches = o.branches
  state : s.state = .ready
  /-- It goes on behind the join. -/
  position : ∀ x ∈ xs, program.fetch x.position = .join ∧ s.position = x.position + 1
  specificity : (xs.map Head.specificity).max? = some s.specificity
  /-- A variable that no branch has changed keeps its value. -/
  unchanged : ∀ key, (∀ x ∈ xs, ¬x.Changed o key) →
    Dict.get? s.bindings key = Dict.get? o.bindings key
  /-- Of the branches that have changed a variable the last one counts. -/
  changed : ∀ (key : String) (j : Nat) (x : Head), xs[j]? = some x → x.Changed o key →
    (∀ (j' : Nat) (y : Head), j < j' → xs[j']? = some y → ¬y.Changed o key) →
      Dict.get? s.bindings key = Dict.get? x.bindings key
  sorted : s.bindings.Sorted

/-- Two heads bring the same to a join. -/
structure Head.Alike (x y : Head) : Prop where
  position : x.position = y.position
  bindings : x.bindings = y.bindings
  specificity : x.specificity = y.specificity

section Merged

variable {program : Program} {o s s' : Head} {xs ys : List Head} {key : String}

/-- A variable is changed by no branch, or by a last one. -/
theorem exists_last_changed (o : Head) (xs : List Head) (key : String) :
    (∀ x ∈ xs, ¬x.Changed o key) ∨ ∃ (j : Nat) (x : Head), xs[j]? = some x ∧ x.Changed o key ∧
      ∀ (j' : Nat) (y : Head), j < j' → xs[j']? = some y → ¬y.Changed o key := by
  classical
  by_cases hall : ∀ x ∈ xs, ¬x.Changed o key
  · exact .inl hall
  · simp only [not_forall, not_not] at hall
    obtain ⟨x, hx, hch⟩ := hall
    obtain ⟨j, hj⟩ := List.mem_iff_getElem?.1 hx
    have hlt {j : Nat} {y : Head} (hy : xs[j]? = some y) : j ≤ xs.length :=
      Nat.le_of_lt (List.getElem?_eq_some_iff.1 hy).1
    let P (j : Nat) : Prop := ∃ y, xs[j]? = some y ∧ y.Changed o key
    have hP : P j := ⟨x, hj, hch⟩
    obtain ⟨y, hy, hych⟩ : P (Nat.findGreatest P xs.length) := Nat.findGreatest_spec (hlt hj) hP
    refine .inr ⟨_, y, hy, hych, fun j' z hlt' hz hzch => ?_⟩
    exact Nat.findGreatest_is_greatest hlt' (hlt hz) ⟨z, hz, hzch⟩

/-- **The forking head and what the branches bring determine the head that goes on.** -/
theorem Merged.unique (hs : Merged program o xs s) (hs' : Merged program o ys s')
    (h : List.Forall₂ Head.Alike xs ys) : s = s' := by
  have hspec : xs.map Head.specificity = ys.map Head.specificity := by
    clear hs hs'
    induction h with
    | nil => rfl
    | cons hxy _ ih => rw [List.map_cons, List.map_cons, hxy.specificity, ih]
  have hpos : s.position = s'.position := by
    cases h with
    | nil => cases hs.specificity
    | cons hxy _ =>
      rw [(hs.position _ (.head _)).2, (hs'.position _ (.head _)).2, hxy.position]
  have hright {j : Nat} {y : Head} (hy : ys[j]? = some y) : ∃ x, xs[j]? = some x ∧ x.Alike y := by
    obtain ⟨hlt, rfl⟩ := List.getElem?_eq_some_iff.1 hy
    have hlt' : j < xs.length := by rwa [h.length_eq]
    exact ⟨xs[j], List.getElem?_eq_getElem hlt', h.get hlt' hlt⟩
  have hchanged {x y : Head} {key : String} (hxy : x.Alike y) :
      y.Changed o key ↔ x.Changed o key := by
    rw [Head.Changed, Head.Changed, hxy.bindings]
  have hbindings : s.bindings = s'.bindings := by
    refine Dict.ext_get? hs.sorted hs'.sorted fun key => ?_
    rcases exists_last_changed o xs key with hnone | ⟨j, x, hx, hch, hlast⟩
    · rw [hs.unchanged key hnone, hs'.unchanged key]
      intro y hy
      obtain ⟨j, hj⟩ := List.mem_iff_getElem?.1 hy
      obtain ⟨x, hx, hxy⟩ := hright hj
      exact mt (hchanged hxy).1 (hnone x (List.mem_of_getElem? hx))
    · have hlt : j < ys.length := by
        rw [← h.length_eq]
        exact (List.getElem?_eq_some_iff.1 hx).1
      have hy : ys[j]? = some ys[j] := List.getElem?_eq_getElem hlt
      obtain ⟨x', hx', hxy⟩ := hright hy
      rw [hx] at hx'
      cases hx'
      rw [hs.changed key j x hx hch hlast, hxy.bindings]
      refine (hs'.changed key j _ hy ((hchanged hxy).2 hch) fun j' z hlt' hz => ?_).symm
      obtain ⟨z', hz', hzz⟩ := hright hz
      exact mt (hchanged hzz).1 (hlast j' z' hlt' hz')
  have hspecificity : s.specificity = s'.specificity := by
    have := hs.specificity
    rw [hspec, hs'.specificity] at this
    exact (Option.some.inj this).symm
  have hid := hs.id.trans hs'.id.symm
  have hbranches := hs.branches.trans hs'.branches.symm
  have hstate := hs.state.trans hs'.state.symm
  cases s
  cases s'
  simp only at hid hpos hstate hbindings hbranches hspecificity
  rw [hid, hpos, hstate, hbindings, hbranches, hspecificity]

/-- Branches that have not changed a variable leave it as it was. -/
theorem get?_mergeBindings_of_unchanged (hs : ∀ x ∈ xs, x.bindings.Sorted)
    (hnone : ∀ x ∈ xs, ¬x.Changed o key) :
    Dict.get? (Instance.mergeBindings o.bindings (xs.map Head.bindings)) key =
      Dict.get? o.bindings key := by
  rw [Instance.get?_mergeBindings (List.forall_mem_map.2 hs),
    List.findSome?_eq_none_iff.2 fun d hd => ?_, Option.none_or]
  obtain ⟨x, hx, rfl⟩ := List.mem_map.1 (List.mem_reverse.1 hd)
  by_contra hsome
  obtain ⟨v, hv⟩ := Option.ne_none_iff_exists'.1 hsome
  exact hnone x hx ⟨v, (Instance.get?_changes_eq_some (hs x hx)).1 hv⟩

/-- The last branch that has changed a variable decides about it. -/
theorem get?_mergeBindings_of_changed (hs : ∀ x ∈ xs, x.bindings.Sorted) {j : Nat} {x : Head}
    (hx : xs[j]? = some x) (hch : x.Changed o key)
    (hlast : ∀ (j' : Nat) (y : Head), j < j' → xs[j']? = some y → ¬y.Changed o key) :
    Dict.get? (Instance.mergeBindings o.bindings (xs.map Head.bindings)) key =
      Dict.get? x.bindings key := by
  obtain ⟨v, hv, hd⟩ := hch
  have hsplit : xs = xs.take j ++ x :: xs.drop (j + 1) := by
    obtain ⟨hlt, rfl⟩ := List.getElem?_eq_some_iff.1 hx
    rw [List.getElem_cons_drop, List.take_append_drop]
  have hrest : ((xs.drop (j + 1)).map Head.bindings).reverse.findSome?
      (fun d => Dict.get? (Instance.changes o.bindings d) key) = none := by
    refine List.findSome?_eq_none_iff.2 fun d hd => ?_
    obtain ⟨y, hy, rfl⟩ := List.mem_map.1 (List.mem_reverse.1 hd)
    by_contra hsome
    obtain ⟨w, hw⟩ := Option.ne_none_iff_exists'.1 hsome
    obtain ⟨j', hj'⟩ := List.mem_iff_getElem?.1 hy
    rw [List.getElem?_drop] at hj'
    exact hlast _ y (by omega) hj'
      ⟨w, (Instance.get?_changes_eq_some (hs y (List.mem_of_getElem? hj'))).1 hw⟩
  have hown := (Instance.get?_changes_eq_some (hs x (List.mem_of_getElem? hx))).2 ⟨hv, hd⟩
  rw [Instance.get?_mergeBindings (List.forall_mem_map.2 hs), hv, hsplit, List.map_append,
    List.map_cons, List.reverse_append, List.reverse_cons, List.findSome?_append,
    List.findSome?_append, hrest, Option.none_or, List.findSome?_cons, hown]
  rfl

end Merged

/-! ## The step that completes a join -/

/-- A head as it came to the join at which it waits. -/
def Head.roused (x : Head) : Head := { x with state := .ready }

namespace Instance

section Joins

variable {program : Program} {Safe : Nat → Prop} {J : Nat → List Nat} {c : Chronicle}
  {i : Instance} {h x y : Head} {k g place : Nat} {b : Branch} {bs : List Branch} {first : Head}
  {others : List (Head × Nat)}

theorem mem_of_arrived {s : Head × Nat} (hs : s ∈ i.arrived g) :
    s.1 ∈ i.heads ∧ s.1.state = .atJoin g := by
  obtain ⟨hplace, hj⟩ := mem_arrived.1 hs
  exact ⟨List.mem_of_getElem? hplace, state_of_joining hj⟩

theorem roused_waiter (hr : y.state = .ready) : (waiter y g).roused = y := by
  rw [Head.roused, waiter, ← hr]

/-- The heads of a fork that wait, as they came to the join. -/
def comers (i : Instance) (g : Nat) : List Head := (i.arrived g).map fun s => s.1.roused

/-- When all branches of a fork have arrived, they have done so in the order of the branches. -/
theorem Told.branches_comers (ht : i.Told program Safe J c)
    (ha : i.arrived g = (first, place) :: others) (hb : first.branches = b :: bs)
    (hle : b.size ≤ others.length + 1) (j : Nat) (hx : (i.comers g)[j]? = some x) :
    x.branches = ⟨g, b.size, j⟩ :: bs := by
  obtain ⟨hfirst, hj⟩ := first_of_arrived ha
  obtain ⟨-, d, ds, hd, rfl⟩ := ht.waits hfirst hj
  rw [hb] at hd
  cases hd
  have horders := ht.joinOrders hfirst hb (by rw [ha]; exact hle)
  rw [comers, List.getElem?_map] at hx
  obtain ⟨s, hs, rfl⟩ := Option.map_eq_some_iff.1 hx
  obtain ⟨hmem, hsj⟩ := mem_of_arrived (List.mem_of_getElem? hs)
  obtain ⟨-, e, es, he, hg⟩ := ht.waits hmem hsj
  obtain ⟨hsize, rfl⟩ := ht.eq_of_group hfirst hmem hb he hg
  have hindex : e.index = j := by
    have hget := congrArg (·[j]?) horders
    simp only [List.getElem?_map, hs, Option.map_some] at hget
    obtain ⟨hlt, hget⟩ := List.getElem?_eq_some_iff.1 hget.symm
    rw [List.getElem_range'] at hget
    simp only [Head.joinOrder, he] at hget
    omega
  show s.1.branches = _
  rw [he, ← hg, ← hsize, ← hindex]

/-- The heads that wait for a fork are those that have arrived, as long as none is aborted. -/
theorem Kept.mem_comers (hi : i.Kept c) (hopen : i.Open g) (hu : ¬i.Broken g) :
    x ∈ i.comers g ↔ (g, x) ∈ c.arrivals := by
  constructor
  · intro hx
    obtain ⟨s, hs, rfl⟩ := List.mem_map.1 hx
    obtain ⟨hmem, hsj⟩ := mem_of_arrived hs
    obtain ⟨y, hy, he⟩ := hi.waiters _ hmem g hsj
    rwa [he, roused_waiter (hi.arrivals g y hy).1]
  · intro hx
    obtain ⟨hr, -, ⟨b, bs, hb, hg⟩, hcounted⟩ := hi.arrivals g x hx
    obtain ⟨z, hz, -, hbs, rfl | ha⟩ := hcounted hopen
    · obtain ⟨place, hplace⟩ := List.mem_iff_getElem?.1 hz
      refine List.mem_map.2 ⟨(waiter x g, place), mem_arrived.2 ⟨hplace, rfl⟩, roused_waiter hr⟩
    · refine absurd ⟨z, hz, ha, b, ?_, hg⟩ hu
      rw [hbs, hb]
      exact .head _

/-- The join makes of its branches what it is said to. -/
theorem Kept.merged (hp : program.Pairs Safe J) (hi : i.Kept c) (ht : i.Told program Safe J c)
    (ha : i.arrived g = (first, place) :: others) (hb : first.branches = b :: bs)
    (hle : b.size ≤ others.length + 1) (hu : ¬i.Broken g) :
    ∃ o, c.Made program g b.size o ∧ o.branches = bs ∧
      Merged program o (i.comers g)
        (survivor ((Dict.get? i.bases g).getD []) first (first :: others.map Prod.fst)) := by
  obtain ⟨hfirst, hj⟩ := first_of_arrived ha
  obtain ⟨hfetch, d, ds, hd, rfl⟩ := ht.waits hfirst hj
  rw [hb] at hd
  cases hd
  have hopen : i.Open b.group := ⟨first, hfirst, b, by rw [hb]; exact .head _, rfl⟩
  have hfit := ht.fits first hfirst
  rw [hb] at hfit
  obtain ⟨o, ho, hbs, hid⟩ := hfit
  have hbase := hi.bases _ o ho.1 hopen hu
  have hall : first :: others.map Prod.fst = (i.arrived b.group).map Prod.fst := by rw [ha]; rfl
  have hbindings : (first :: others.map Prod.fst).map Head.bindings =
      (i.comers b.group).map Head.bindings := by
    rw [hall, comers, List.map_map, List.map_map]
    rfl
  have hspecificity : (first :: others.map Prod.fst).map Head.specificity =
      (i.comers b.group).map Head.specificity := by
    rw [hall, comers, List.map_map, List.map_map]
    rfl
  have hsorted : ∀ x ∈ i.comers b.group, x.bindings.Sorted := by
    intro x hx
    obtain ⟨s, hs, rfl⟩ := List.mem_map.1 hx
    exact hi.sorted s.1 (mem_of_arrived hs).1
  refine ⟨o, ho, hbs, ?_⟩
  rw [survivor, hbase, Option.getD_some, hbindings]
  constructor
  case id => exact (hid (ht.index_first ha hb hle)).symm
  case branches => rw [hb, List.tail_cons, hbs]
  case state => rfl
  case position =>
    intro x hx
    obtain ⟨s, hs, rfl⟩ := List.mem_map.1 hx
    obtain ⟨hmem, hsj⟩ := mem_of_arrived hs
    have hpos := ht.position_eq hp hmem hfirst hsj hj
    show program.fetch s.1.position = .join ∧ first.position + 1 = s.1.position + 1
    rw [hpos]
    exact ⟨hfetch, rfl⟩
  case specificity =>
    rw [← hspecificity, List.map_cons, List.max?_cons']
    simp only [List.foldl_cons, Nat.zero_max]
  case unchanged => exact fun key hnone => get?_mergeBindings_of_unchanged hsorted hnone
  case changed =>
    exact fun key j x hx hch hlast => get?_mergeBindings_of_changed hsorted hx hch hlast
  case sorted => exact sorted_mergeBindings (hi.origins o (List.mem_of_getElem? ho.1)) _

end Joins

end Instance

/-- The next step of a machine completes the join of a fork. -/
def Machine.Completes (program : Program) (c : Chronicle) (m : Machine) (g : Nat) : Prop :=
  (c.after program m).joins = c.joins ++ [g]

/-- From `m` to `m'` the join of the fork `g` has completed, which the head `o` made: the heads `xs`
had come to it, one from each branch, and `s` is the one that goes on. -/
structure Machine.Joins (program : Program) (c : Chronicle) (m m' : Machine) (g : Nat) (o : Head)
    (xs : List Head) (s : Head) : Prop where
  made : c.Made program g xs.length o
  /-- Those that had come are all there. -/
  arrivals : ∀ x, x ∈ xs ↔ (g, x) ∈ (c.after program m).arrivals
  /-- They stand in the order of their branches. -/
  branches : ∀ (j : Nat) (x : Head), xs[j]? = some x → x.branches = ⟨g, xs.length, j⟩ :: o.branches
  merged : Merged program o xs s
  /-- The head that goes on runs again. -/
  queued : s.id ∈ m'.queue
  /-- All other heads of the fork are gone, and heads outside it stay. -/
  heads : ∀ x, x ∈ m'.inst.heads ↔ x = s ∨ x ∈ m.inst.heads ∧ ∀ b ∈ x.branches, b.group ≠ g
  /-- What the forking head knew is forgotten. -/
  base : Dict.get? m'.inst.bases g = none

section Completes

open Instance

variable {program : Program} {Safe : Nat → Prop} {J : Nat → List Nat} {c : Chronicle}
  {m m' : Machine} {h : Head} {k g : Nat} {b : Branch} {bs : List Branch}

/-- When a join completes nobody was waiting in vain. -/
theorem heads_atJoin (hm : m.Sound program Safe J) (hr : m.Runs h k)
    (hw : waiter h b.group ∈ (m.inst.atJoin k h b.group).heads) :
    (m.inst.atJoin k h b.group).heads = (m.inst.setHead k (waiter h b.group)).heads := by
  have hd := hm.inst.distinct
  have hk := hr.getElem?
  refine heads_settle fun x hx g hj hb => ?_
  rcases (mem_setHead hd hk).1 hx with rfl | ⟨hx, -⟩
  · cases hj
    exact settle_unbroken _ _ hw _ rfl ((stops_settle _).broken hb)
  · rw [broken_setHead hd hk (by rw [hr.ready]; rfl) rfl] at hb
    exact hm.inst.unbroken x hx g hj hb

/-- The heads behind a join: the one that goes on, and those outside the fork. -/
theorem mem_heads_merge (hm : m.Sound program Safe J) (hr : m.Runs h k)
    (hb : h.branches = b :: bs) (hw : waiter h b.group ∈ (m.inst.atJoin k h b.group).heads)
    (hl : (m.inst.atJoin k h b.group).Laid program Safe J) {place : Nat} {first x : Head}
    {others : List (Head × Nat)}
    (ha : (m.inst.atJoin k h b.group).arrived b.group = (first, place) :: others)
    (hle : b.size ≤ others.length + 1) :
    x ∈ ((m.inst.atJoin k h b.group).merge b.group first place others).heads ↔
      x = survivor ((Dict.get? (m.inst.atJoin k h b.group).bases b.group).getD []) first
        (first :: others.map Prod.fst) ∨
      x ∈ m.inst.heads ∧ ∀ d ∈ x.branches, d.group ≠ b.group := by
  have hd := hm.inst.distinct
  have hk := hr.getElem?
  have hall := hl.all_arrived hw hb (by rw [ha]; exact hle)
  rw [mem_merge hl.distinct ha]
  refine or_congr_right ⟨fun ⟨hx, hne⟩ => ⟨?_, fun d hdx hg => ?_⟩, fun ⟨hx, hnone⟩ => ⟨?_, ?_⟩⟩
  · rw [heads_atJoin hm hr hw] at hx
    exact ((mem_setHead hd hk).1 hx).elim (fun he => absurd (by rw [he]; rfl) hne) And.left
  · exact hne (hl.state_of_all_arrived hw hb hall hx hdx hg)
  · rw [heads_atJoin hm hr hw]
    refine (mem_setHead hd hk).2 (.inr ⟨hx, fun he => ?_⟩)
    obtain rfl := eq_of_id hd hr.mem hx he
    exact hnone b (by rw [hb]; exact .head _) rfl
  · intro hj
    obtain ⟨-, d, ds, hdx, hg⟩ := hm.inst.waits hx hj
    exact hnone d (by rw [hdx]; exact .head _) hg

/-- **A step that completes a join merges the heads of its branches.** -/
theorem joins_of_completes (hp : program.Pairs Safe J) (hm : m.Sound program Safe J)
    (ht : m.inst.Told program Safe J c) (hi : m.inst.Kept c) (hs : m.step? program = some m')
    (hg : m.Completes program c g) : ∃ o xs s, Machine.Joins program c m m' g o xs s := by
  have htells := tells_of_step hp hm hs c
  rw [Machine.Completes] at hg
  have hnot : c.joins ≠ c.joins ++ [g] := by simp
  generalize hafter : c.after program m = c' at htells hg
  cases htells with
  | idle | go | abort | fork | wait => exact absurd hg hnot
  | merge h k b bs runs fetch branches first place others waits arrived all inst queue =>
    obtain rfl : b.group = g := by simpa [Chronicle.join, Chronicle.arrive] using hg
    have htold := ht.atJoin hp runs.getElem? fetch branches
    have hkept := hi.atJoin ht runs.getElem? runs.ready branches
    obtain ⟨hfirst, hfj⟩ := first_of_arrived arrived
    obtain ⟨-, d, ds, hd, hdg⟩ := htold.waits hfirst hfj
    have hsize := (htold.eq_of_group waits hfirst branches hd hdg).1
    have hle : d.size ≤ others.length + 1 := by omega
    have hu : ¬(m.inst.atJoin k h b.group).Broken b.group := settle_unbroken _ _ waits _ rfl
    have hopen : (m.inst.atJoin k h b.group).Open b.group :=
      ⟨_, waits, b, by rw [show (waiter h b.group).branches = _ from branches]; exact .head _, rfl⟩
    obtain ⟨o, ho, hbs, hmerged⟩ := hkept.merged hp htold arrived hd hle hu
    have hlen : ((m.inst.atJoin k h b.group).comers b.group).length = d.size := by
      have := congrArg List.length (htold.joinOrders waits branches (by rw [arrived]; exact all))
      rw [List.length_map, List.length_range'] at this
      rw [comers, List.length_map, this, hsize]
    refine ⟨o, _, _, ?made, ?arrivals, ?branches, hmerged, ?queued, ?heads, ?base⟩
    case made =>
      rw [hlen]
      exact ho
    case arrivals =>
      intro x
      rw [hafter]
      exact hkept.mem_comers hopen hu
    case branches =>
      intro j x hx
      rw [hlen, hbs]
      exact htold.branches_comers arrived hd hle j hx
    case queued =>
      rw [queue, Machine.wake]
      split
      · next hid =>
        obtain ⟨rest, hq⟩ := runs.queue
        rw [hq, ← hid]
        exact .head _
      · exact List.mem_append_right _ (.head _)
    case heads =>
      intro x
      rw [inst]
      exact mem_heads_merge hm runs branches waits htold.toLaid arrived all
    case base =>
      rw [inst]
      exact Dict.get?_remove_self _ _

end Completes

/-- **A completed join is a merge whatever the order of arrival.**  In every step that completes the
join of a fork, the head that goes on is what `Merged` makes of the head that forked and of those
that have come from the branches, in the order of the branches; the others of the fork are gone, and
so is its base.  If a fork is made by the same head in two runs, and its branches bring the same to
the join, then the same head goes on, in whatever order they have come. -/
theorem join_merges_branches {f : Flow} {l : LoadedFlow} (hl : f.load = .ok l) :
    (∀ m : Machine, m.Passed l.program → ∃ c, m.Recorded l.program c) ∧
    (∀ (c : Chronicle) (m m' : Machine) (g : Nat), m.Recorded l.program c →
      m.step? l.program = some m' → m.Completes l.program c g →
        ∃ o xs s, Machine.Joins l.program c m m' g o xs s) ∧
    ∀ (c c' : Chronicle) (m₁ m₁' m₂ m₂' : Machine) (g g' : Nat) (o s s' : Head)
      (xs ys : List Head), Machine.Joins l.program c m₁ m₁' g o xs s →
      Machine.Joins l.program c' m₂ m₂' g' o ys s' →
      (∀ x y, (g, x) ∈ (c.after l.program m₁).arrivals →
        (g', y) ∈ (c'.after l.program m₂).arrivals → x.joinOrder = y.joinOrder → x.Alike y) →
      s = s' := by
  obtain ⟨Safe, J, hp⟩ := exists_pairs hl
  refine ⟨fun m hm => hm.recorded fun p => (valid_of_load hl p).branches,
    fun c m m' g hm hs hg => ?_,
    fun c c' m₁ m₁' m₂ m₂' g g' o s s' xs ys hj hj' hsame => ?_⟩
  · obtain ⟨hsound, ht⟩ := hm.told hp
    exact joins_of_completes hp hsound ht (hm.kept hp) hs hg
  · have hlen : xs.length = ys.length := by
      obtain ⟨-, starts, hstarts, hxs⟩ := hj.made
      obtain ⟨-, starts', hstarts', hys⟩ := hj'.made
      rw [hstarts] at hstarts'
      cases hstarts'
      exact hxs.symm.trans hys
    refine hj.merged.unique hj'.merged (List.forall₂_iff_get.2 ⟨hlen, fun j hx hy => ?_⟩)
    have hbx := hj.branches j xs[j] (List.getElem?_eq_getElem hx)
    have hby := hj'.branches j ys[j] (List.getElem?_eq_getElem hy)
    refine hsame _ _ ((hj.arrivals _).1 (List.getElem_mem hx))
      ((hj'.arrivals _).1 (List.getElem_mem hy)) ?_
    rw [Head.joinOrder, Head.joinOrder, List.get_eq_getElem, List.get_eq_getElem]
    simp only [hbx, hby]

end

/-- A flow whose branches change a variable, the second one more often. -/
def rivalBranches : Flow where
  id := ⟨"rivals"⟩
  description := none
  priority := none
  activation := none
  body :=
    [.fork
      [[.assign ⟨.head, "x"⟩ (.literal (.bool true))],
       [.assign ⟨.head, "x"⟩ (.literal .null), .assign ⟨.head, "y"⟩ (.literal .null)]],
     .join]

/-- An instance of it that has come so far that its join completes in the next step. -/
def rivalsMeeting : Chronicle × Machine :=
  Machine.follow (.ofBody rivalBranches.body) 8
    (.opening [], .starting (.spawn ⟨"i"⟩ rivalBranches.id 0 0 none [] 0) ⟨[], .seeded 0⟩)

theorem join_merges_branches_rivals :
    ∃ (l : LoadedFlow) (m' : Machine) (o : Head) (xs : List Head) (s : Head),
      rivalBranches.load = .ok l ∧ rivalsMeeting.2.Recorded l.program rivalsMeeting.1 ∧
      rivalsMeeting.2.step? l.program = some m' ∧
      rivalsMeeting.2.Completes l.program rivalsMeeting.1 0 ∧
      Machine.Joins l.program rivalsMeeting.1 rivalsMeeting.2 m' 0 o xs s := by
  have hl : rivalBranches.load = .ok ⟨rivalBranches, .ofBody rivalBranches.body⟩ := rfl
  have hm : rivalsMeeting.2.Recorded (.ofBody rivalBranches.body) rivalsMeeting.1 :=
    recorded_follow 8 _ (.start _ _ _ _ _ [] _ _)
  have hmoves : (rivalsMeeting.2.step? (.ofBody rivalBranches.body)).isSome = true := by
    cbv
  have hg : rivalsMeeting.2.Completes (.ofBody rivalBranches.body) rivalsMeeting.1 0 := by
    rw [Machine.Completes]
    cbv
  obtain ⟨m', hs⟩ := Option.isSome_iff_exists.1 hmoves
  obtain ⟨o, xs, s, hjoins⟩ := (join_merges_branches hl).2.1 _ _ _ 0 hm hs hg
  exact ⟨_, m', o, xs, s, hl, hm, hs, hg, hjoins⟩

end EventFlow

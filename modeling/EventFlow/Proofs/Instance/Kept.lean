import EventFlow.Proofs.Dict
import EventFlow.Proofs.Instance.Told

/-!
# What a join will need

A join completes long after its fork, and what it needs is kept in two places: the bindings of the
forking head among the bases of the instance, and the bindings of the branches in the heads that
wait.  Neither is touched in between, whatever other heads do, how often they fork and join
themselves, and in whatever order the branches arrive.

## What is here

* `sorted_of_execute` and `sorted_resume`: the bindings of a head stay a map.
* `Instance.Kept` is the invariant: bases are what the forking heads knew, and the heads that wait
  are those that have arrived, nobody else.
* `Kept.setHead`, `Kept.arrive`, `Kept.stops`, `Kept.fork` and `Kept.merge` keep it, and
  **`Machine.Recorded.kept`** says that calls do.
-/

set_option autoImplicit false

namespace EventFlow

variable {Compiled Found : Type} [Query.Library Compiled Found]

/-! ## Bindings are maps -/

section Sorted

open Instance

variable {i : Instance} {w : World} {h h' : Head} {e : Event}

theorem sorted_set {d : Bindings} (hd : d.Sorted) (path : String) (value : Json) :
    (Path.set d path value).Sorted := by
  rw [Path.set]
  unfold Path.setAt
  split
  · exact hd
  · exact Dict.sorted_put hd _ _

theorem sorted_bind (hs : h.bindings.Sorted) (v : Variable) (value : Json) (w : World) :
    (bind v value h w).1.bindings.Sorted := by
  rw [bind]
  split
  · exact sorted_set hs v.name value
  · exact hs

theorem sorted_bindOption (hs : h.bindings.Sorted) (v : Option Variable) (value : Json)
    (w : World) : (bindOption v value h w).1.bindings.Sorted := by
  unfold bindOption
  split
  · exact sorted_bind hs ..
  · exact hs

/-- Whatever a head executes, its bindings stay a map. -/
theorem sorted_of_execute {instr : Instruction} (hs : h.bindings.Sorted)
    (he : (i.execute w h instr).1 = .become h') : h'.bindings.Sorted := by
  cases instr with
  | send event =>
    simp only [execute, executeSend] at he
    split at he <;> cases he
    exact hs
  | call spec =>
    simp only [execute, executeCall] at he
    split at he
    · cases he
    · split at he <;> cases he <;> exact sorted_bindOption hs ..
  | branch condition otherwise =>
    simp only [execute] at he
    split at he <;> cases he <;> exact hs
  | fork starts =>
    cases starts <;> cases he
    exact hs
  | assign target value =>
    simp only [execute] at he
    split at he <;> cases he
    exact sorted_bind hs ..
  | startTimer duration timer =>
    cases he
    exact sorted_bindOption hs ..
  | startFlow flow child =>
    cases he
    exact sorted_bindOption hs ..
  | expect | race | jump | finish =>
    cases he
    exact hs
  | join | abort => cases he

theorem sorted_matchFields? {fields : Dict String Constraint} {d d' : Bindings} (hd : d.Sorted)
    (hm : Pattern.matchFields? e d fields = some d') : d'.Sorted := by
  induction fields generalizing d with
  | nil =>
    cases hm
    exact hd
  | cons f fields ih =>
    simp only [Pattern.matchFields?, Option.bind_eq_bind, Option.bind_eq_some_iff] at hm
    obtain ⟨value, -, d₁, hd₁, hm⟩ := hm
    refine ih ?_ hm
    unfold Constraint.match? at hd₁
    split at hd₁
    · cases hd₁
      exact hd
    · split at hd₁ <;> cases hd₁
      exact hd
    · split at hd₁
      · split at hd₁ <;> cases hd₁
        exact hd
      · cases hd₁
        exact Dict.sorted_put hd _ _

theorem sorted_resume {x : HeadMatch} (hs : h.bindings.Sorted) (hm : h.match? e = some x)
    (w : World) : (resume h x e w).1.bindings.Sorted := by
  obtain ⟨y, -, hy⟩ := List.exists_of_findSome?_eq_some hm
  obtain ⟨d, hd, rfl⟩ := Option.map_eq_some_iff.1 hy
  refine sorted_bindOption ?_ ..
  simp only
  rw [Pattern.match?] at hd
  split at hd
  · exact sorted_matchFields? hs hd
  · cases hd

theorem sorted_mergeBindings {base : Bindings} (h : base.Sorted) (bs : List Bindings) :
    (mergeBindings base bs).Sorted :=
  List.foldlRecOn (motive := fun d : Bindings => d.Sorted) bs _ h fun _ hd _ _ =>
    Dict.sorted_putAll hd

end Sorted

namespace Instance

/-! ## What is kept until the join -/

/-- What the joins of an instance need is there. -/
structure Kept (c : Chronicle) (i : Instance) : Prop where
  /-- The bindings of the forking heads are kept, unless no join will ask for them. -/
  bases : ∀ g o, c.forks[g]? = some o → i.Open g → ¬i.Broken g →
    Dict.get? i.bases g = some o.bindings
  /-- Whoever waits has come to the join, and has not changed. -/
  waiters : ∀ x ∈ i.heads, ∀ g, x.state = .atJoin g → ∃ y, (g, y) ∈ c.arrivals ∧ x = waiter y g
  /-- Whoever has come to a join that is not complete still waits there, or was aborted. -/
  arrivals : ∀ g y, (g, y) ∈ c.arrivals → y.state = .ready ∧ g < i.nextGroup ∧
    (∃ b bs, y.branches = b :: bs ∧ b.group = g) ∧ (i.Open g →
      ∃ x ∈ i.heads, x.id = y.id ∧ x.branches = y.branches ∧
        (x = waiter y g ∨ x.state.isAborted = true))
  /-- Bindings are maps. -/
  sorted : ∀ x ∈ i.heads, x.bindings.Sorted
  origins : ∀ o ∈ c.forks, o.bindings.Sorted

section Kept

variable {program : Program} {Safe : Nat → Prop} {J : Nat → List Nat} {c : Chronicle}
  {i i' : Instance} {h h' x y : Head} {k g : Nat} {b : Branch} {bs : List Branch}

/-- A head that is ready, or waits for an event or a result, is nobody a join counts on. -/
theorem ne_of_counted (hj : h.state.joining? = none) (hu : h.state.isAborted = false)
    (hx : x = waiter y g ∨ x.state.isAborted = true) : x ≠ h := by
  rintro rfl
  rcases hx with rfl | hx
  · cases hj
  · rw [hu] at hx
    cases hx

/-- Whoever a join counts on stays when another head is replaced. -/
theorem mem_setHead_of_counted (hd : (i.heads.map Head.id).Nodup) (hk : i.heads[k]? = some h)
    (hj : h.state.joining? = none) (hu : h.state.isAborted = false) (hx : x ∈ i.heads)
    (hc : x = waiter y g ∨ x.state.isAborted = true) : x ∈ (i.setHead k h').heads :=
  (mem_setHead hd hk).2 (.inr ⟨hx, fun he =>
    ne_of_counted hj hu hc (eq_of_id hd (List.mem_of_getElem? hk) hx he)⟩)

/-- No abort is forgotten when a head is replaced that is not aborted. -/
theorem broken_of_setHead (hd : (i.heads.map Head.id).Nodup) (hk : i.heads[k]? = some h)
    (hu : h.state.isAborted = false) (hb : i.Broken g) : (i.setHead k h').Broken g := by
  obtain ⟨x, hx, ha, hg⟩ := hb
  refine ⟨x, (mem_setHead hd hk).2 (.inr ⟨hx, fun he => ?_⟩), ha, hg⟩
  rw [eq_of_id hd (List.mem_of_getElem? hk) hx he, hu] at ha
  cases ha

theorem Kept.setHead (hi : i.Kept c) (hd : (i.heads.map Head.id).Nodup)
    (hk : i.heads[k]? = some h) (hid : h'.id = h.id) (hbs : h'.branches = h.branches)
    (hj : h.state.joining? = none) (hu : h.state.isAborted = false)
    (hj' : h'.state.joining? = none) (hs : h'.bindings.Sorted) : (i.setHead k h').Kept c := by
  have hopen {g : Nat} : (i.setHead k h').Open g ↔ i.Open g :=
    Machine.open_iff_of_on (on_setHead hd hk hid hbs)
  refine ⟨?bases, ?waiters, ?arrivals, ?sorted, hi.origins⟩
  case bases =>
    intro g o ho hg hu'
    exact hi.bases g o ho (hopen.1 hg) fun hb => hu' (broken_of_setHead hd hk hu hb)
  case waiters =>
    intro x hx g hg
    exact hi.waiters x (mem_of_setHead hd hk hj' x hx g hg) g hg
  case arrivals =>
    intro g y hy
    obtain ⟨hr, hlt, hon, hcounted⟩ := hi.arrivals g y hy
    refine ⟨hr, hlt, hon, fun hg => ?_⟩
    obtain ⟨x, hx, hrest⟩ := hcounted (hopen.1 hg)
    exact ⟨x, mem_setHead_of_counted hd hk hj hu hx hrest.2.2, hrest⟩
  case sorted =>
    intro x hx
    rcases (mem_setHead hd hk).1 hx with rfl | ⟨hx, -⟩
    · exact hs
    · exact hi.sorted x hx

/-- A head comes to a join. -/
theorem Kept.arrive (hi : i.Kept c) (hd : (i.heads.map Head.id).Nodup)
    (hk : i.heads[k]? = some h) (hr : h.state = .ready) (hg : g < i.nextGroup)
    (hon : ∃ b bs, h.branches = b :: bs ∧ b.group = g) :
    (i.setHead k (waiter h g)).Kept (c.arrive g h) := by
  have hmem := List.mem_of_getElem? hk
  have hu : h.state.isAborted = false := by rw [hr]; rfl
  have hopen {g' : Nat} : (i.setHead k (waiter h g)).Open g' ↔ i.Open g' :=
    Machine.open_iff_of_on (on_setState hd hk (.atJoin g))
  refine ⟨?bases, ?waiters, ?arrivals, ?sorted, hi.origins⟩
  case bases =>
    intro g' o ho hg' hu'
    exact hi.bases g' o ho (hopen.1 hg') fun hb => hu' (broken_of_setHead hd hk hu hb)
  case waiters =>
    intro x hx g' hg'
    rcases (mem_setHead hd hk).1 hx with rfl | ⟨hx, -⟩
    · cases hg'
      exact ⟨h, List.mem_append_right _ (List.mem_singleton_self _), rfl⟩
    · obtain ⟨y, hy, hxy⟩ := hi.waiters x hx g' hg'
      exact ⟨y, List.mem_append_left _ hy, hxy⟩
  case arrivals =>
    intro g' y hy
    rcases List.mem_append.1 hy with hy | hy
    · obtain ⟨hr', hlt, hon', hcounted⟩ := hi.arrivals g' y hy
      refine ⟨hr', hlt, hon', fun hg' => ?_⟩
      obtain ⟨x, hx, hrest⟩ := hcounted (hopen.1 hg')
      exact ⟨x, mem_setHead_of_counted hd hk (by rw [hr]; rfl) hu hx hrest.2.2, hrest⟩
    · obtain ⟨rfl, rfl⟩ := Prod.mk.inj (List.mem_singleton.1 hy)
      exact ⟨hr, hg, hon, fun _ =>
        ⟨_, (mem_setHead hd hk).2 (.inl rfl), rfl, rfl, .inl rfl⟩⟩
  case sorted =>
    intro x hx
    rcases (mem_setHead hd hk).1 hx with rfl | ⟨hx, -⟩
    · exact hi.sorted h hmem
    · exact hi.sorted x hx

/-! ## Aborts -/

theorem Stops.broken (hs : i.Stops i') (hb : i.Broken g) : i'.Broken g := by
  obtain ⟨f, hf, hs⟩ := hs.heads
  obtain ⟨x, hx, ha, hg⟩ := hb
  refine ⟨f x, by rw [hf]; exact List.mem_map_of_mem hx, ?_⟩
  rcases hs x with he | ⟨reason, he⟩
  · rw [he]
    exact ⟨ha, hg⟩
  · rw [he]
    exact ⟨rfl, hg⟩

/-- Aborts leave everything in place that a join may still need. -/
theorem Kept.stops (hi : i.Kept c) (hs : i.Stops i')
    (hbases : ∀ g, ¬i'.Broken g → Dict.get? i'.bases g = Dict.get? i.bases g) : i'.Kept c := by
  have hopen {g : Nat} : i'.Open g ↔ i.Open g := Machine.open_iff_of_on hs.on
  refine ⟨?bases, ?waiters, ?arrivals, ?sorted, hi.origins⟩
  case bases =>
    intro g o ho hg hu
    rw [hbases g hu]
    exact hi.bases g o ho (hopen.1 hg) fun hb => hu (hs.broken hb)
  case waiters =>
    intro x hx g hg
    rcases hs.mem hx with hx | ⟨y, -, reason, rfl⟩
    · exact hi.waiters x hx g hg
    · cases hg
  case arrivals =>
    intro g y hy
    obtain ⟨hr, hlt, hon, hcounted⟩ := hi.arrivals g y hy
    refine ⟨hr, by rwa [hs.nextGroup], hon, fun hg => ?_⟩
    obtain ⟨x, hx, hid, hbs, hx'⟩ := hcounted (hopen.1 hg)
    obtain ⟨f, hf, hs⟩ := hs.heads
    have hmem : f x ∈ i'.heads := by rw [hf]; exact List.mem_map_of_mem hx
    rcases hs x with he | ⟨reason, he⟩
    · rw [he] at hmem
      exact ⟨x, hmem, hid, hbs, hx'⟩
    · rw [he] at hmem
      exact ⟨_, hmem, hid, hbs, .inr rfl⟩
  case sorted =>
    intro x hx
    rcases hs.mem hx with hx | ⟨y, hy, reason, rfl⟩
    · exact hi.sorted x hx
    · exact hi.sorted y hy

/-- Settling forgets the bases of broken forks only. -/
theorem get?_bases_settle (hu : ¬i.settle.Broken g) :
    Dict.get? i.settle.bases g = Dict.get? i.bases g := by
  have honce (i : Instance) (hu : ¬i.Broken g) :
      Dict.get? i.settleOnce.bases g = Dict.get? i.bases g := by
    have hfold : ∀ (broken : List Nat) (bases : Dict Nat Bindings), g ∉ broken →
        Dict.get? (broken.foldl Dict.remove bases) g = Dict.get? bases g := by
      intro broken
      induction broken with
      | nil => exact fun _ _ => rfl
      | cons g' broken ih =>
        intro bases hg
        rw [List.mem_cons, not_or] at hg
        rw [List.foldl_cons, ih _ hg.2, Dict.get?_remove_of_ne hg.1]
    exact hfold _ _ fun hg => hu (mem_brokenForks.1 hg)
  have hu' : ¬i.Broken g := fun hb => hu ((stops_settle i).broken hb)
  fun_induction settle i with
  | case1 i _ ih =>
    rw [ih hu fun hb => hu ((stops_settle _).broken hb), honce i hu']
  | case2 i _ => exact honce i hu'

theorem Kept.settle (hi : i.Kept c) : i.settle.Kept c :=
  hi.stops (stops_settle i) fun _ hu => get?_bases_settle hu

theorem Kept.abortHead (hi : i.Kept c) (hd : (i.heads.map Head.id).Nodup)
    (hk : i.heads[k]? = some h) (hr : h.state = .ready) (reason : String) :
    (i.abortHead k h reason).Kept c := by
  have hset : (i.setHead k { h with state := .aborted reason }).Kept c :=
    hi.setHead hd hk rfl rfl (by rw [hr]; rfl) (by rw [hr]; rfl) rfl
      (hi.sorted h (List.mem_of_getElem? hk))
  -- the observation and the reason of the instance say nothing about its heads and bases
  exact Kept.settle ⟨hset.bases, hset.waiters, hset.arrivals, hset.sorted, hset.origins⟩

theorem Kept.refresh (hi : i.Kept c) : i.refresh.Kept c := by
  refine hi.stops (stops_refresh i) fun g _ => ?_
  rw [Instance.refresh]
  split
  · rfl
  · simp only
    split <;> rfl

theorem Kept.abort (hi : i.Kept c) (reason : String) : (i.abort reason).Kept c := by
  rw [abort_eq]
  split
  · exact hi
  · exact (hi.stops (stops_stopAll i reason) fun _ _ => rfl).refresh

/-! ## Forks and joins -/

theorem Kept.fork (hi : i.Kept c) (ht : i.Told program Safe J c) (hk : i.heads[k]? = some h)
    (hr : h.state = .ready) (first : Nat) (others : List Nat) :
    (i.fork k h first others).1.Kept (c.fork h) := by
  have hmem := List.mem_of_getElem? hk
  have hd := ht.distinct
  have hold {x : Head} (hx : x ∈ (i.fork k h first others).1.heads) (hne : x.state ≠ .ready) :
      x ∈ i.heads := by
    rcases (mem_fork hd hk).1 hx with ⟨hx, -⟩ | ⟨j, start, -, rfl⟩
    · exact hx
    · exact absurd hr hne
  have hkeep {x : Head} (hx : x ∈ i.heads) (hne : x ≠ h) :
      x ∈ (i.fork k h first others).1.heads :=
    (mem_fork hd hk).2 (.inl ⟨hx, fun he => hne (eq_of_id hd hmem hx he)⟩)
  have hbroken {g : Nat} (hb : i.Broken g) : (i.fork k h first others).1.Broken g := by
    obtain ⟨x, hx, ha, hg⟩ := hb
    refine ⟨x, hkeep hx ?_, ha, hg⟩
    rintro rfl
    rw [hr] at ha
    cases ha
  refine ⟨?bases, ?waiters, ?arrivals, ?sorted, ?origins⟩
  case bases =>
    intro g o ho hg hu
    show Dict.get? (Dict.put i.bases i.nextGroup h.bindings) g = some o.bindings
    rw [Dict.get?_put]
    by_cases hne : g = i.nextGroup
    · subst hne
      rw [← ht.counted, Chronicle.getElem?_fork_self] at ho
      cases ho
      exact if_pos rfl
    · have hlt := (List.getElem?_eq_some_iff.1 ho).1
      rw [Chronicle.fork, List.length_append, ht.counted, List.length_singleton] at hlt
      rw [Chronicle.getElem?_fork (by rw [ht.counted]; omega)] at ho
      rw [if_neg hne]
      exact hi.bases g o ho ((open_fork hd hk hne).1 hg) fun hb => hu (hbroken hb)
  case waiters =>
    intro x hx g hg
    exact hi.waiters x (hold hx (by simp [hg])) g hg
  case arrivals =>
    intro g y hy
    obtain ⟨hr', hlt, hon, hcounted⟩ := hi.arrivals g y hy
    refine ⟨hr', Nat.lt_succ_of_lt hlt, hon, fun hg => ?_⟩
    obtain ⟨x, hx, hrest⟩ := hcounted ((open_fork hd hk (Nat.ne_of_lt hlt)).1 hg)
    exact ⟨x, hkeep hx (ne_of_counted (by rw [hr]; rfl) (by rw [hr]; rfl) hrest.2.2), hrest⟩
  case sorted =>
    intro x hx
    rcases (mem_fork hd hk).1 hx with ⟨hx, -⟩ | ⟨j, start, -, rfl⟩
    · exact hi.sorted x hx
    · exact hi.sorted h hmem
  case origins =>
    intro o ho
    rcases List.mem_append.1 ho with ho | ho
    · exact hi.origins o ho
    · rw [List.mem_singleton.1 ho]
      exact hi.sorted h hmem

/-- Behind a join everything is kept that other joins need. -/
theorem Kept.merge (hi : i.Kept c) (ht : i.Told program Safe J c) {place : Nat} {first : Head}
    {others : List (Head × Nat)} (ha : i.arrived g = (first, place) :: others)
    (hb : first.branches = b :: bs) (hle : b.size ≤ others.length + 1) (hu : ¬i.Broken g) :
    (i.merge g first place others).Kept (c.join g) := by
  have hd := ht.distinct
  obtain ⟨hfirst, hj⟩ := first_of_arrived ha
  obtain ⟨-, e, es, he, hg⟩ := ht.waits hfirst hj
  rw [hb] at he
  cases he
  subst hg
  have hclosed := Machine.not_open_merge ht.toLaid hfirst hb
    (ht.all_arrived hfirst hb (by rw [ha]; exact hle)) ha
  have hopen {g : Nat} (ho : (i.merge b.group first place others).Open g) :
      g ≠ b.group ∧ i.Open g := by
    have hne : g ≠ b.group := by
      rintro rfl
      exact hclosed ho
    exact ⟨hne, (open_merge_iff ht.toLaid ha hne).1 ho⟩
  have hbase : ((Dict.get? i.bases b.group).getD []).Sorted := by
    obtain ⟨o, ho, -⟩ := ht.made hfirst (show first.branches = [] ++ b :: bs from hb)
    rw [hi.bases _ o ho.1 ⟨first, hfirst, b, by rw [hb]; exact .head _, rfl⟩ hu]
    exact hi.origins o (List.mem_of_getElem? ho.1)
  refine ⟨?bases, ?waiters, ?arrivals, ?sorted, hi.origins⟩
  case bases =>
    intro g o ho hg hu'
    obtain ⟨hne, hg⟩ := hopen hg
    show Dict.get? (Dict.remove i.bases b.group) g = some o.bindings
    rw [Dict.get?_remove_of_ne hne]
    refine hi.bases g o ho hg ?_
    rintro ⟨x, hx, ha', hxg⟩
    refine hu' ⟨x, (mem_merge hd ha).2 (.inr ⟨hx, fun hxj => ?_⟩), ha', hxg⟩
    rw [hxj] at ha'
    cases ha'
  case waiters =>
    intro x hx g hg
    rcases (mem_merge hd ha).1 hx with rfl | ⟨hx, -⟩
    · cases hg
    · exact hi.waiters x hx g hg
  case arrivals =>
    intro g y hy
    obtain ⟨hr, hlt, hon, hcounted⟩ := hi.arrivals g y hy
    refine ⟨hr, hlt, hon, fun hg => ?_⟩
    obtain ⟨hne, hg⟩ := hopen hg
    obtain ⟨x, hx, hid, hbs, hx'⟩ := hcounted hg
    refine ⟨x, (mem_merge hd ha).2 (.inr ⟨hx, fun hxj => ?_⟩), hid, hbs, hx'⟩
    rcases hx' with rfl | hx'
    · exact hne (HeadState.atJoin.inj hxj)
    · rw [hxj] at hx'
      cases hx'
  case sorted =>
    intro x hx
    rcases (mem_merge hd ha).1 hx with rfl | ⟨hx, -⟩
    · exact sorted_mergeBindings hbase _
    · exact hi.sorted x hx

/-! ## Runs -/

theorem Kept.atJoin (hi : i.Kept c) (ht : i.Told program Safe J c) (hk : i.heads[k]? = some h)
    (hr : h.state = .ready) (hb : h.branches = b :: bs) :
    (i.atJoin k h b.group).Kept (c.arrive b.group h) :=
  (hi.arrive ht.distinct hk hr
    (ht.lt_nextGroup (List.mem_of_getElem? hk) (by rw [hb]; exact .head _)) ⟨b, bs, hb, rfl⟩).settle

theorem Kept.step {m m' : Machine} (hp : program.Pairs Safe J) (hm : m.Sound program Safe J)
    (ht : m.inst.Told program Safe J c) (hi : m.inst.Kept c) (hs : m.step? program = some m') :
    m'.inst.Kept (c.after program m) := by
  have htells := tells_of_step hp hm hs c
  generalize c.after program m = c' at htells ⊢
  cases htells with
  | idle inst =>
    rw [inst]
    exact hi
  | go h h' k runs on made inst =>
    rw [inst]
    exact hi.setHead ht.distinct runs.getElem? on.id on.branches (by rw [runs.ready]; rfl)
      (by rw [runs.ready]; rfl) on.joining (sorted_of_execute (hi.sorted h runs.mem) made)
  | abort h k reason runs inst =>
    rw [inst]
    exact hi.abortHead ht.distinct runs.getElem? runs.ready reason
  | fork h k first others runs fetch inst =>
    rw [inst]
    exact hi.fork ht runs.getElem? runs.ready first others
  | wait h k b bs runs fetch branches inst =>
    rw [inst]
    exact hi.atJoin ht runs.getElem? runs.ready branches
  | merge h k b bs runs fetch branches first place others waits arrived all inst queue =>
    have htold := ht.atJoin hp runs.getElem? fetch branches
    obtain ⟨hfirst, hfj⟩ := first_of_arrived arrived
    obtain ⟨-, d, ds, hd, hg⟩ := htold.waits hfirst hfj
    have hsize := (htold.eq_of_group waits hfirst branches hd hg).1
    rw [inst]
    exact (hi.atJoin ht runs.getElem? runs.ready branches).merge htold arrived hd (by omega)
      (settle_unbroken _ _ waits _ rfl)

theorem kept_spawn (id : InstanceId) (flow : FlowId) (priority : Int) (createdAt : Nat)
    (parent : Option InstanceId) (bindings : Bindings) (specificity : Nat) :
    (spawn id flow priority createdAt parent bindings specificity).Kept
      (.opening (Dict.ofList bindings)) := by
  refine ⟨nofun, fun x hx g hj => ?_, nofun, fun x hx => ?_, List.forall_mem_nil _⟩
  · rw [List.mem_singleton.1 hx] at hj
    cases hj
  · rw [List.mem_singleton.1 hx]
    exact Dict.sorted_ofList bindings

theorem Kept.advance {m : Machine} {w : World} {id : HeadId} {e : Event}
    (ht : i.Told program Safe J c) (hi : i.Kept c)
    (ha : Machine.advancing? i w id e = some m) : m.inst.Kept c := by
  obtain ⟨-, h, k, x, hslot, hx, rfl⟩ := advancing?_eq_some.1 ha
  have hk := Machine.getElem?_of_slot? hslot
  have hmem := List.mem_of_getElem? hk
  have hst := ht.stands h hmem
  have hgo := Machine.goesOn_resume hst hx w
  have hl : h.Listens := Head.listens_of_match? (by rw [hx]; rfl)
  have hj : h.state.joining? = none := by
    by_contra hj
    obtain ⟨g, hg⟩ := Option.ne_none_iff_exists'.1 hj
    exact hl.state.2.1 g (state_of_joining hg)
  exact hi.setHead ht.distinct hk hgo.id hgo.branches hj (Machine.resume_mem_exits hst hx).2
    hgo.joining (sorted_resume (hi.sorted h hmem) hx w)

end Kept

end Instance

section Recorded

variable {program : Program} {Safe : Nat → Prop} {J : Nat → List Nat}

mutual

/-- **Calls keep what the joins of an instance need.** -/
theorem Machine.Recorded.kept (hp : program.Pairs Safe J) {c : Chronicle} {m : Machine} :
    m.Recorded program c → m.inst.Kept c
  | .start .. => Instance.kept_spawn ..
  | .advance w id e before set => (before.kept hp).advance (before.told hp).2 set
  | .step before step => by
    obtain ⟨hm, ht⟩ := before.told hp
    exact (before.kept hp).step hp hm ht step

theorem Instance.Recorded.kept (hp : program.Pairs Safe J) {c : Chronicle} {i : Instance} :
    i.Recorded program c → i.Kept c
  | .rest before _ => (before.kept hp).refresh
  | .abort reason before => (before.kept hp).abort reason

end

end Recorded

end EventFlow

import EventFlow.Proofs.Instance.Reports
import EventFlow.Total

/-!
# What is told of the lives of instances

Of every instance the same story is told: it was started, heads of it were lost, it came to its end
in one way or the other, and it was let go.  The beginning of the story may still be kept by the
instance, since observations are collected only after a round.

## What is here

* `Observation.subject?` is the instance of whose life an observation is a part.
* `Life` says which observations, in which order, make up the life of an instance up to some stage.
  `Life.split` and `Life.counts` say what is seen of the order.
* `Narrates` says that lives are told of all instances that were ever started, those that are gone
  and those that are still there, and of nobody else.  It is kept when instances are started
  (`Narrates.spawn`), moved (`Narrates.same`), relieved of their observations (`Narrates.drain`) and
  let go (`Narrates.letGo`).
-/

set_option autoImplicit false

namespace EventFlow

/-- The instance of whose life an observation is a part. -/
def Observation.subject? : Observation → Option InstanceId
  | instanceSpawned i _ _ | instanceFinished i _ | instanceAborted i _ _ | instanceEvicted i _
  | headAborted i _ _ => some i
  | _ => none

/-- Whether an observation says that an instance was started. -/
def Observation.isSpawn : Observation → Bool
  | instanceSpawned .. => true
  | _ => false

/-- Whether an observation says that an instance was let go. -/
def Observation.isEviction : Observation → Bool
  | instanceEvicted .. => true
  | _ => false

/-- How far an instance has come in its life. -/
inductive Stage
  | live
  | ended
  | gone
deriving DecidableEq

namespace Instance

/-- How far an instance has come that is there. -/
def stage (i : Instance) : Stage := if i.status.isTerminal then .ended else .live

namespace Origin

/-- The observation that an instance was started. -/
def spawned (o : Origin) : Observation := .instanceSpawned o.id o.flow o.parent

/-- The observation that an instance was let go. -/
def evicted (o : Origin) : Observation := .instanceEvicted o.id o.flow

end Origin

end Instance

/-- An episode in the life of an instance, and the observation of it. -/
inductive Episode (o : Instance.Origin) : Stage → Observation → Stage → Prop
  | lost (head : HeadId) (reason : String) : Episode o .live (.headAborted o.id head reason) .live
  | finished : Episode o .live (.instanceFinished o.id o.flow) .ended
  | aborted (reason : String) : Episode o .live (.instanceAborted o.id o.flow reason) .ended
  | evicted : Episode o .ended o.evicted .gone

/-- The observations that make up the life of an instance up to a stage: it was started, and took
some turns since. -/
inductive Life (o : Instance.Origin) : Stage → List Observation → Prop
  | spawned : Life o .live [o.spawned]
  | next {stage stage' : Stage} {os : List Observation} {x : Observation}
      (before : Life o stage os) (episode : Episode o stage x stage') : Life o stage' (os ++ [x])

/-- What some observations tell of the life of an instance. -/
def lifeIn (c : InstanceId) (os : List Observation) : List Observation :=
  os.filter fun x => x.subject? = some c

section Lives

open Instance

variable {o : Instance.Origin} {stage : Stage} {os told more pre post : List Observation}
  {x : Observation} {c : InstanceId}

/-! ## Lives -/

/-- Starts, ends and evictions are parts of lives. -/
theorem Observation.exists_subject
    (h : x.isSpawn = true ∨ x.isClosing = true ∨ x.isEviction = true) :
    ∃ c, x.subject? = some c := by
  cases x <;> first | exact ⟨_, rfl⟩ | (rcases h with h | h | h <;> cases h)

theorem Episode.subject {stage' : Stage} (h : Episode o stage x stage') :
    x.subject? = some o.id := by
  cases h <;> rfl

/-- A life is about nobody else. -/
theorem Life.subject (h : Life o stage os) : ∀ x ∈ os, x.subject? = some o.id := by
  induction h with
  | spawned => exact List.forall_mem_singleton.2 rfl
  | next _ episode ih =>
    exact List.forall_mem_append.2 ⟨ih, List.forall_mem_singleton.2 episode.subject⟩

/-- Whatever is told in a life is told first of all that the instance was started, and otherwise
after a shorter life. -/
theorem Life.split (h : Life o stage (pre ++ x :: post)) :
    pre = [] ∧ x = o.spawned ∨
      ∃ stage' stage'', Life o stage' pre ∧ Episode o stage' x stage'' := by
  generalize hos : pre ++ x :: post = os at h
  induction h generalizing post with
  | spawned =>
    cases pre with
    | nil => exact .inl ⟨rfl, (List.cons_eq_cons.1 hos).1⟩
    | cons y pre => simp at hos
  | @next stage stage' os y before episode ih =>
    rcases List.eq_nil_or_concat post with rfl | ⟨post, z, rfl⟩
    · obtain ⟨rfl, hy⟩ := List.append_inj' hos rfl
      obtain rfl := (List.cons_eq_cons.1 hy).1
      exact .inr ⟨stage, stage', before, episode⟩
    · rw [List.concat_eq_append, ← List.cons_append, ← List.append_assoc] at hos
      exact ih (List.append_inj' hos rfl).1

theorem Life.spawned_mem (h : Life o stage os) : o.spawned ∈ os := by
  induction h with
  | spawned => exact List.mem_singleton_self _
  | next _ _ ih => exact List.mem_append_left _ ih

/-- No other start is told in a life. -/
theorem Life.eq_spawned (h : Life o stage os) (hmem : x ∈ os) (hx : x.isSpawn = true) :
    x = o.spawned := by
  obtain ⟨pre, post, rfl⟩ := List.append_of_mem hmem
  rcases h.split with ⟨-, rfl⟩ | ⟨_, _, -, episode⟩
  · rfl
  · cases episode <;> cases hx

/-- In a life the start comes before everything else. -/
theorem Life.spawned_first (h : Life o stage (pre ++ x :: post)) :
    x = o.spawned ∨ o.spawned ∈ pre := by
  rcases h.split with ⟨-, rfl⟩ | ⟨_, _, hlife, -⟩
  · exact .inl rfl
  · exact .inr hlife.spawned_mem

/-- The start is told once, the end once if it has come, and that the instance was let go once if it
was. -/
theorem Life.counts (h : Life o stage os) :
    os.countP Observation.isSpawn = 1 ∧
      os.countP Observation.isClosing = (if stage = .live then 0 else 1) ∧
      os.countP Observation.isEviction = if stage = .gone then 1 else 0 := by
  induction h with
  | spawned => exact ⟨rfl, rfl, rfl⟩
  | next _ episode ih =>
    obtain ⟨hspawn, hclosing, heviction⟩ := ih
    simp only [List.countP_append, hspawn, hclosing, heviction]
    cases episode <;> exact ⟨rfl, rfl, rfl⟩

/-- An instance is let go after its end was told. -/
theorem Life.closing_first (h : Life o stage (pre ++ x :: post)) (hx : x.isEviction = true) :
    ∃ y ∈ pre, y.isClosing = true := by
  rcases h.split with ⟨-, rfl⟩ | ⟨_, _, hlife, episode⟩
  · cases hx
  · cases episode with
    | evicted =>
      have hcount := hlife.counts.2.1
      exact List.countP_pos_iff.1 (by rw [hcount]; decide)
    | _ => cases hx

/-- Heads are lost while an instance lives. -/
theorem Life.losses (h : Life o .live os) (lost : List (HeadId × String)) :
    Life o .live (os ++ lost.map fun l => .headAborted o.id l.1 l.2) := by
  induction lost generalizing os with
  | nil => simpa using h
  | cons l lost ih =>
    have hnext := ih (h.next (.lost l.1 l.2))
    rwa [List.append_assoc] at hnext

/-- **What a call reports goes on with the life.** -/
theorem Life.reports {i i' : Instance} {lost : List (HeadId × String)}
    (h : Life i.origin .live (os ++ i.observations)) (hr : i.Reports i' lost) :
    Life i'.origin i'.stage (os ++ i'.observations) := by
  have hlost := h.losses lost
  rw [hr.observations, hr.origin, ← List.append_assoc, ← List.append_assoc]
  have hid : i'.id = i.id := congrArg Instance.Origin.id hr.origin
  have hflow : i'.flow = i.flow := congrArg Instance.Origin.flow hr.origin
  rw [Instance.stage, closing, hid, hflow]
  cases i'.status with
  | finished => exact hlost.next .finished
  | aborted => exact hlost.next (.aborted _)
  | _ =>
    rw [List.append_nil]
    exact hlost

/-! ## Observations of several instances -/

theorem lifeIn_append (c : InstanceId) (os more : List Observation) :
    lifeIn c (os ++ more) = lifeIn c os ++ lifeIn c more := List.filter_append ..

theorem lifeIn_append_cons (h : x.subject? = some c) (pre post : List Observation) :
    lifeIn c (pre ++ x :: post) = lifeIn c pre ++ x :: lifeIn c post := by
  rw [lifeIn_append]
  exact congrArg (lifeIn c pre ++ ·) (List.filter_cons_of_pos (decide_eq_true h))

theorem lifeIn_eq_self (h : ∀ x ∈ os, x.subject? = some c) : lifeIn c os = os :=
  List.filter_eq_self.2 fun x hx => decide_eq_true (h x hx)

theorem lifeIn_eq_nil (h : ∀ x ∈ os, x.subject? ≠ some c) : lifeIn c os = [] :=
  List.filter_eq_nil_iff.2 fun x hx => by simpa using h x hx

theorem mem_lifeIn : x ∈ lifeIn c os ↔ x ∈ os ∧ x.subject? = some c := by
  rw [lifeIn, List.mem_filter, decide_eq_true_eq]

/-- What is told of one of several instances is what it has to tell itself. -/
theorem lifeIn_flatMap {is : List Instance} {f : Instance → List Observation}
    (hf : ∀ i ∈ is, ∀ x ∈ f i, x.subject? = some i.id) (hd : (is.map Instance.id).Nodup)
    {i : Instance} (hi : i ∈ is) : lifeIn i.id (is.flatMap f) = f i := by
  induction is with
  | nil => cases hi
  | cons j is ih =>
    obtain ⟨hj, hrest⟩ := List.forall_mem_cons.1 hf
    rw [List.map_cons, List.nodup_cons] at hd
    rw [List.flatMap_cons, lifeIn_append]
    have hother {a b : Instance} (hb : b ∈ j :: is) (hne : b.id ≠ a.id) :
        lifeIn a.id (f b) = [] :=
      lifeIn_eq_nil fun x hx heq => hne (Option.some.inj ((hf b hb x hx).symm.trans heq))
    rcases List.mem_cons.1 hi with rfl | hi
    · have hnone : lifeIn i.id (is.flatMap f) = [] := lifeIn_eq_nil fun x hx heq => by
        obtain ⟨b, hb, hx⟩ := List.mem_flatMap.1 hx
        rw [hrest b hb x hx, Option.some.injEq] at heq
        exact hd.1 (heq ▸ List.mem_map_of_mem hb)
      rw [lifeIn_eq_self hj, hnone, List.append_nil]
    · have hne : j.id ≠ i.id := fun heq => hd.1 (heq ▸ List.mem_map_of_mem hi)
      rw [hother List.mem_cons_self hne, List.nil_append, ih hrest hd.2 hi]

theorem lifeIn_flatMap_of_notMem {is : List Instance} {f : Instance → List Observation}
    (hf : ∀ i ∈ is, ∀ x ∈ f i, x.subject? = some i.id) (hc : c ∉ is.map Instance.id) :
    lifeIn c (is.flatMap f) = [] :=
  lifeIn_eq_nil fun x hx heq => by
    obtain ⟨i, hi, hx⟩ := List.mem_flatMap.1 hx
    rw [hf i hi x hx, Option.some.injEq] at heq
    exact hc (heq ▸ List.mem_map_of_mem hi)

end Lives

/-! ## Narratives -/

/-- The life of an instance is told, as far as the instance does not keep it for itself. -/
def Instance.Narrated (told : List Observation) (i : Instance) : Prop :=
  Life i.origin i.stage (lifeIn i.id told ++ i.observations)

/-- The identities of instances that are gone, and of instances that are there. -/
def identities (gone : List Instance.Origin) (present : List Instance) : List InstanceId :=
  gone.map Instance.Origin.id ++ present.map Instance.id

/-- Lives are told of all instances that are gone, and of all that are there, and of nobody else. -/
structure Narrates (told : List Observation) (gone : List Instance.Origin)
    (present : List Instance) : Prop where
  distinct : (identities gone present).Nodup
  known : ∀ x ∈ told, ∀ c, x.subject? = some c → c ∈ identities gone present
  gone : ∀ o ∈ gone, Life o .gone (lifeIn o.id told)
  present : ∀ i ∈ present, i.Narrated told

section Narratives

open Instance

variable {told more : List Observation} {gone : List Instance.Origin}
  {present present' : List Instance} {i : Instance}

theorem narrates_nil : Narrates [] [] [] := ⟨List.nodup_nil, nofun, nofun, nofun⟩

theorem Narrates.distinct_present (h : Narrates told gone present) :
    (present.map Instance.id).Nodup := List.Nodup.of_append_right h.distinct

theorem Narrates.id_notMem (h : Narrates told gone present) {o : Instance.Origin} (ho : o ∈ gone) :
    o.id ∉ present.map Instance.id :=
  List.disjoint_of_nodup_append h.distinct (List.mem_map_of_mem ho)

/-- Of whoever has handed on everything the whole life is told. -/
theorem Narrates.life (h : Narrates told gone present) (hi : i ∈ present)
    (hdrained : i.observations = []) : Life i.origin i.stage (lifeIn i.id told) := by
  have hlife := h.present i hi
  rwa [Narrated, hdrained, List.append_nil] at hlife

/-- What instances have kept for themselves is about themselves. -/
theorem Narrates.subject (h : Narrates told gone present) :
    ∀ i ∈ present, ∀ x ∈ i.observations, x.subject? = some i.id := fun i hi x hx =>
  (h.present i hi).subject x (List.mem_append_right _ hx)

/-- Instances may become others with the same identities, if their lives go on. -/
theorem Narrates.same (h : Narrates told gone present)
    (hids : present'.map Instance.id = present.map Instance.id)
    (hpresent : ∀ i ∈ present', i.Narrated told) : Narrates told gone present' := by
  have hsame : identities gone present' = identities gone present := by
    rw [identities, hids, identities]
  exact ⟨hsame ▸ h.distinct, hsame ▸ h.known, h.gone, hpresent⟩

/-- What is no part of a life may be told at any time. -/
theorem Narrates.aside (h : Narrates told gone present) (hmore : ∀ x ∈ more, x.subject? = none) :
    Narrates (told ++ more) gone present := by
  have hsame (c : InstanceId) : lifeIn c (told ++ more) = lifeIn c told := by
    have hnone : lifeIn c more = [] := lifeIn_eq_nil fun x hx => by
      rw [hmore x hx]
      nofun
    rw [lifeIn_append, hnone, List.append_nil]
  refine ⟨h.distinct, fun x hx c hc => ?_, fun o ho => ?_, fun i hi => ?_⟩
  · rcases List.mem_append.1 hx with hx | hx
    · exact h.known x hx c hc
    · rw [hmore x hx] at hc
      cases hc
  · rw [hsame]
    exact h.gone o ho
  · rw [Narrated, hsame]
    exact h.present i hi

/-- Nothing was told of an instance before it was started. -/
theorem Narrates.spawn (h : Narrates told gone present) (hi : Life i.origin i.stage i.observations)
    (hd : (identities gone (present ++ [i])).Nodup) : Narrates told gone (present ++ [i]) := by
  have hsplit : identities gone (present ++ [i]) = identities gone present ++ [i.id] := by
    rw [identities, identities, List.map_append, List.append_assoc]
    rfl
  rw [hsplit] at hd
  have hnone : lifeIn i.id told = [] := lifeIn_eq_nil fun x hx heq =>
    List.disjoint_of_nodup_append hd (h.known x hx _ heq) (List.mem_singleton_self _)
  refine ⟨hsplit ▸ hd, fun x hx c hc => ?_, h.gone,
    List.forall_mem_append.2 ⟨h.present, List.forall_mem_singleton.2 ?_⟩⟩
  · rw [hsplit]
    exact List.mem_append_left _ (h.known x hx c hc)
  · rw [Narrated, hnone]
    exact hi

/-- **Instances hand on what they have kept for themselves.** -/
theorem Narrates.drain (h : Narrates told gone present) :
    Narrates (told ++ present.flatMap Instance.observations) gone
      (present.map fun i => { i with observations := [] }) := by
  have hids : identities gone (present.map fun i => { i with observations := [] }) =
      identities gone present :=
    congrArg (gone.map Instance.Origin.id ++ ·) (List.map_map.trans rfl)
  refine ⟨hids ▸ h.distinct, ?_, fun o ho => ?_, fun i hi => ?_⟩
  · rw [hids]
    refine List.forall_mem_append.2 ⟨h.known, fun x hx c hc => ?_⟩
    obtain ⟨i, hi, hx⟩ := List.mem_flatMap.1 hx
    obtain rfl := Option.some.inj ((h.subject i hi x hx).symm.trans hc)
    exact List.mem_append_right _ (List.mem_map_of_mem hi)
  · rw [lifeIn_append, lifeIn_flatMap_of_notMem h.subject (h.id_notMem ho), List.append_nil]
    exact h.gone o ho
  · obtain ⟨x, hx, rfl⟩ := List.mem_map.1 hi
    have hlife := h.present x hx
    rw [Narrated] at hlife ⊢
    rw [lifeIn_append, lifeIn_flatMap h.subject h.distinct_present hx, List.append_nil]
    exact hlife

/-- **Instances are let go** after they have ended and handed on everything. -/
theorem Narrates.letGo {stale kept : List Instance} (h : Narrates told gone present)
    (hdrained : ∀ i ∈ present, i.observations = []) (hp : (stale ++ kept).Perm present)
    (hended : ∀ i ∈ stale, i.status.isTerminal = true)
    (hmore : more.filter (fun x => x.subject?.isSome) = stale.map fun i => i.origin.evicted) :
    Narrates (told ++ more) (gone ++ stale.map Instance.origin) kept := by
  obtain ⟨hstale, hkept⟩ := List.forall_mem_append.1 fun i (hi : i ∈ stale ++ kept) => hp.subset hi
  have hids : (identities (gone ++ stale.map Instance.origin) kept).Perm
      (identities gone present) := by
    have hgone : identities (gone ++ stale.map Instance.origin) kept =
        gone.map Instance.Origin.id ++ (stale ++ kept).map Instance.id := by
      rw [identities, List.map_append, List.map_append, List.map_map, List.append_assoc]
      rfl
    rw [hgone]
    exact (hp.map Instance.id).append_left _
  have hdistinct : (stale.map Instance.id ++ kept.map Instance.id).Nodup := by
    rw [← List.map_append]
    exact (hp.map _).nodup_iff.2 h.distinct_present
  -- all that is told of lives is who was let go
  have hlife (c : InstanceId) :
      lifeIn c more = lifeIn c (stale.flatMap fun i => [i.origin.evicted]) := by
    rw [← List.map_eq_flatMap, ← hmore, lifeIn, lifeIn, List.filter_filter]
    refine List.filter_congr fun x _ => ?_
    cases x.subject? <;> simp
  have hself : ∀ i ∈ stale, ∀ x ∈ [i.origin.evicted], x.subject? = some i.id :=
    fun i _ => List.forall_mem_singleton.2 rfl
  refine ⟨hids.nodup_iff.2 h.distinct, fun x hx c hc => hids.mem_iff.2 ?_,
    List.forall_mem_append.2 ⟨fun o ho => ?_, fun o ho => ?_⟩, fun i hi => ?_⟩
  · rcases List.mem_append.1 hx with hx | hx
    · exact h.known x hx c hc
    · have hmem : x ∈ stale.map fun i => i.origin.evicted :=
        hmore ▸ List.mem_filter.2 ⟨hx, by rw [hc]; rfl⟩
      obtain ⟨i, hi, rfl⟩ := List.mem_map.1 hmem
      obtain rfl := Option.some.inj hc
      exact List.mem_append_right _ (List.mem_map_of_mem (f := Instance.id) (hstale i hi))
  · have hnot : o.id ∉ stale.map Instance.id := fun hmem => by
      obtain ⟨i, hi, hid⟩ := List.mem_map.1 hmem
      exact h.id_notMem ho (hid ▸ List.mem_map_of_mem (hstale i hi))
    rw [lifeIn_append, hlife, lifeIn_flatMap_of_notMem hself hnot, List.append_nil]
    exact h.gone o ho
  · obtain ⟨i, hi, rfl⟩ := List.mem_map.1 ho
    have htold := h.life (hstale i hi) (hdrained i (hstale i hi))
    rw [Instance.stage, if_pos (hended i hi)] at htold
    rw [lifeIn_append, hlife, show i.origin.id = i.id from rfl,
      lifeIn_flatMap hself hdistinct.of_append_left hi]
    exact htold.next .evicted
  · have hnot : i.id ∉ stale.map Instance.id := fun hmem =>
      List.disjoint_of_nodup_append hdistinct hmem (List.mem_map_of_mem hi)
    rw [Narrated, lifeIn_append, hlife, lifeIn_flatMap_of_notMem hself hnot, List.append_nil]
    exact h.present i (hkept i hi)

end Narratives

end EventFlow

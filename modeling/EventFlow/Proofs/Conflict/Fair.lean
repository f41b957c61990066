import EventFlow.Conflict
import EventFlow.Proofs.Dict

/-!
# Fair arbitration

Letting emissions compete splits a list of them in two, and this file says along which line.

* `Emission.rank` is a total preorder, since it is a lexicographic product of linear orders; Std
  knows about those.  Two emissions that rank equal agree in everything a comparison looks at
  (`standing_eq_of_rank_eq`), in particular in their instance.
* `Emission.Leads t es best` says that `best` is an emission of `es` that ranks at or before every
  other one.  The running search `best?` finds such an emission whenever there is one to find.
* `Conflict.Settles t es r` collects what a resolution `r` of `es` has to be: a partition of `es`,
  in order, in which every group goes to the instance of an emission that leads it.
* **`resolve_settles`** is the main result.  Its second half says that the order in which emissions
  were collected does not matter: rearranging them rearranges winners and losers, and reports the
  same ties.

The second half is not a consequence of the first.  Two emissions of one instance can rank equal,
and which of them leads a group then depends on the order; what does not depend on it is the
standing of the leader, and that is all that the rest of the resolution reads.
-/

set_option autoImplicit false

namespace EventFlow

open Std

namespace Emission

/-! ## Ranks -/

theorem rank_eq_compareLex (t : TieBreak) :
    rank t = compareLex (fun a b => compareOn Emission.priority b a)
      (compareLex (fun a b => compareOn Emission.specificity b a)
        (compareLex (compareCreation t) (compareOn fun e => e.instanceId.text))) := rfl

instance (t : TieBreak) : TransCmp (compareCreation t) :=
  match t with
  | .earliestFirst => inferInstanceAs (TransCmp (compareOn Emission.createdAt))
  | .latestFirst => inferInstanceAs (TransCmp fun a b => compareOn Emission.createdAt b a)

instance (t : TieBreak) : TransCmp (rank t) := by
  rw [rank_eq_compareLex]
  infer_instance

/-- What decides how an emission compares to others. -/
def standing (e : Emission) : Int × Nat × Nat × InstanceId :=
  (e.priority, e.specificity, e.createdAt, e.instanceId)

theorem standing_eq_of_rank_eq {t : TieBreak} {a b : Emission} (h : rank t a b = .eq) :
    standing a = standing b := by
  simp only [rank, Ordering.then_eq_eq] at h
  obtain ⟨hp, hs, hc, hi⟩ := h
  have hcreated : a.createdAt = b.createdAt := by
    cases t with
    | earliestFirst => exact LawfulEqOrd.eq_of_compare hc
    | latestFirst => exact (LawfulEqOrd.eq_of_compare hc).symm
  have hid : a.instanceId = b.instanceId := by
    have := LawfulEqOrd.eq_of_compare hi
    cases ha : a.instanceId
    cases hb : b.instanceId
    simp_all
  rw [standing, standing, LawfulEqOrd.eq_of_compare hp, LawfulEqOrd.eq_of_compare hs, hcreated, hid]

/-! ## Leaders -/

/-- An emission of a list that ranks at or before all of them. -/
def Leads (t : TieBreak) (es : List Emission) (best : Emission) : Prop :=
  best ∈ es ∧ ∀ e ∈ es, (rank t best e).isLE

theorem Leads.standing_eq {t : TieBreak} {es : List Emission} {a b : Emission}
    (ha : Leads t es a) (hb : Leads t es b) : standing a = standing b :=
  standing_eq_of_rank_eq (OrientedCmp.isLE_antisymm (ha.2 b hb.1) (hb.2 a ha.1))

theorem Leads.perm {t : TieBreak} {es es' : List Emission} {best : Emission}
    (h : Leads t es best) (hp : es.Perm es') : Leads t es' best :=
  ⟨hp.mem_iff.1 h.1, fun e he => h.2 e (hp.mem_iff.2 he)⟩

theorem better_isLE (t : TieBreak) (a b : Emission) :
    (rank t (better t a b) a).isLE ∧ (rank t (better t a b) b).isLE := by
  rw [better]
  split
  · next h => exact ⟨by rw [h]; rfl, ReflCmp.isLE_rfl⟩
  · next h =>
    refine ⟨ReflCmp.isLE_rfl, ?_⟩
    have hswap : rank t a b = (rank t b a).swap := OrientedCmp.eq_swap
    rw [hswap]
    cases hr : rank t b a <;> first | exact absurd hr h | rfl

theorem leads_foldl_better (t : TieBreak) (es : List Emission) (e : Emission) :
    Leads t (e :: es) (es.foldl (better t) e) := by
  induction es generalizing e with
  | nil =>
    refine ⟨List.mem_cons_self, fun x hx => ?_⟩
    rw [List.mem_singleton.1 hx]
    exact ReflCmp.isLE_rfl
  | cons x es ih =>
    obtain ⟨hmem, hle⟩ := ih (better t e x)
    obtain ⟨he, hx⟩ := better_isLE t e x
    have htop := hle _ List.mem_cons_self
    rw [List.foldl_cons]
    refine ⟨?_, ?_⟩
    · rcases List.mem_cons.1 hmem with h | h
      · rw [h, better]
        split <;> simp
      · exact List.mem_cons_of_mem _ (List.mem_cons_of_mem _ h)
    · rintro y (_ | ⟨_, _ | ⟨_, hy⟩⟩)
      · exact TransCmp.isLE_trans htop he
      · exact TransCmp.isLE_trans htop hx
      · exact hle y (List.mem_cons_of_mem _ hy)

/-- The search for the best emission finds a leader. -/
theorem leads_of_best? {t : TieBreak} {es : List Emission} {best : Emission}
    (h : best? t es = some best) : Leads t es best := by
  cases es with
  | nil => cases h
  | cons e es =>
    cases h
    exact leads_foldl_better t es e

theorem best?_eq_none_iff {t : TieBreak} {es : List Emission} : best? t es = none ↔ es = [] := by
  cases es <;> simp [best?]

theorem exists_best? {t : TieBreak} {es : List Emission} (h : es ≠ []) :
    ∃ best, best? t es = some best := by
  cases hb : best? t es with
  | none => exact absurd (best?_eq_none_iff.1 hb) h
  | some best => exact ⟨best, rfl⟩

end Emission

namespace Conflict

variable {t : TieBreak} {es es' : List Emission}

/-! ## Groups -/

theorem mem_members {key : String} {e : Emission} :
    e ∈ members es key ↔ e ∈ es ∧ e.key = some key := by
  simp [members]

theorem members_perm (h : es.Perm es') (key : String) :
    (members es key).Perm (members es' key) := h.filter _

/-- The emissions of a group that belong to other instances. -/
def rivals (es : List Emission) (key : String) (w : InstanceId) : List Emission :=
  (members es key).filter (·.instanceId ≠ w)

/-- The search for the best emission finds one with the standing of any leader. -/
theorem exists_best?_of_leads {best : Emission} (h : Emission.Leads t es best) :
    ∃ best', Emission.best? t es = some best' ∧
      Emission.standing best' = Emission.standing best := by
  obtain ⟨best', hb'⟩ := Emission.exists_best? (t := t) (List.ne_nil_of_mem h.1)
  exact ⟨best', hb', (Emission.leads_of_best? hb').standing_eq h⟩

/-- However the emissions are arranged, the best one has the same standing. -/
theorem exists_best?_perm (h : es.Perm es') {best : Emission}
    (hb : Emission.best? t es = some best) :
    ∃ best', Emission.best? t es' = some best' ∧
      Emission.standing best' = Emission.standing best :=
  exists_best?_of_leads ((Emission.leads_of_best? hb).perm h)

theorem winner?_eq_some_of_perm (h : es.Perm es') {key : String} {w : InstanceId}
    (hw : winner? t es key = some w) : winner? t es' key = some w := by
  obtain ⟨best, hb, rfl⟩ := Option.map_eq_some_iff.1 hw
  obtain ⟨best', hb', hs⟩ := exists_best?_perm (members_perm h key) hb
  rw [winner?, hb', Option.map_some]
  simp only [Emission.standing, Prod.mk.injEq] at hs
  rw [hs.2.2.2]

theorem winner?_perm (h : es.Perm es') (key : String) : winner? t es key = winner? t es' key :=
  Option.ext fun _ => ⟨winner?_eq_some_of_perm h, winner?_eq_some_of_perm h.symm⟩

/-- Whom an emission loses to does not depend on the arrangement. -/
theorem lostTo?_perm (h : es.Perm es') : lostTo? t es = lostTo? t es' := by
  funext e
  cases hk : e.key with
  | none => simp [lostTo?, hk]
  | some key => simp [lostTo?, hk, winner?_perm h key]

/-- A group has a tie when its leader and the best rival of that agree in priority and
specificity. -/
theorem tie?_eq_some_iff {key : String} {tie : Tie} :
    tie? t es key = some tie ↔ ∃ best next, Emission.best? t (members es key) = some best ∧
      Emission.best? t (rivals es key best.instanceId) = some next ∧
      next.priority = best.priority ∧ next.specificity = best.specificity ∧
      tie = ⟨key, best.instanceId, next.instanceId, next.createdAt = best.createdAt⟩ := by
  have htie : tie? t es key = (Emission.best? t (members es key)).bind fun best =>
      (Emission.best? t (rivals es key best.instanceId)).bind fun next =>
        if next.priority = best.priority ∧ next.specificity = best.specificity then
          some ⟨key, best.instanceId, next.instanceId, next.createdAt = best.createdAt⟩
        else none := rfl
  rw [htie, Option.bind_eq_some_iff]
  constructor
  · rintro ⟨best, hb, h⟩
    obtain ⟨next, hn, h⟩ := Option.bind_eq_some_iff.1 h
    split at h
    · next hsame =>
      cases h
      exact ⟨best, next, hb, hn, hsame.1, hsame.2, rfl⟩
    · cases h
  · rintro ⟨best, next, hb, hn, hp, hs, rfl⟩
    refine ⟨best, hb, Option.bind_eq_some_iff.2 ⟨next, hn, ?_⟩⟩
    rw [if_pos ⟨hp, hs⟩]

theorem tie?_eq_some_of_perm (h : es.Perm es') {key : String} {tie : Tie}
    (htie : tie? t es key = some tie) : tie? t es' key = some tie := by
  obtain ⟨best, next, hb, hn, hp, hs, rfl⟩ := tie?_eq_some_iff.1 htie
  obtain ⟨best', hb', hbest⟩ := exists_best?_perm (members_perm h key) hb
  have hid : best'.instanceId = best.instanceId := congrArg (·.2.2.2) hbest
  have hrivals : (rivals es key best.instanceId).Perm (rivals es' key best'.instanceId) := by
    rw [hid]
    exact (members_perm h key).filter _
  obtain ⟨next', hn', hnext⟩ := exists_best?_perm hrivals hn
  simp only [Emission.standing, Prod.mk.injEq] at hbest hnext
  refine tie?_eq_some_iff.2 ⟨best', next', hb', hn', ?_, ?_, ?_⟩
  · rw [hnext.1, hbest.1, hp]
  · rw [hnext.2.1, hbest.2.1, hs]
  · rw [hnext.2.2.1, hnext.2.2.2, hbest.2.2.1, hbest.2.2.2]

theorem tie?_perm (h : es.Perm es') (key : String) : tie? t es key = tie? t es' key :=
  Option.ext fun _ => ⟨tie?_eq_some_of_perm h, tie?_eq_some_of_perm h.symm⟩

/-! ## Keys in use -/

theorem mem_keys {key : String} : key ∈ keys es ↔ ∃ e, e ∈ members es key := by
  rw [keys, Dict.mem_keys_ofList]
  simp only [mem_members]
  simp

theorem keys_perm (h : es.Perm es') : keys es = keys es' := by
  refine Dict.keys_eq_of_mem_iff (Dict.sorted_ofList _) (Dict.sorted_ofList _) fun key => ?_
  rw [← keys, ← keys, mem_keys, mem_keys]
  exact exists_congr fun e => (members_perm h key).mem_iff

/-! ## The split -/

theorem lostTo?_eq_none {e : Emission} (h : e.key = none) : lostTo? t es e = none := by
  simp [lostTo?, h]

theorem lostTo?_of_winner? {key : String} {w : InstanceId} (hw : winner? t es key = some w)
    {e : Emission} (he : e.key = some key) :
    lostTo? t es e = if w = e.instanceId then none else some w := by
  simp [lostTo?, he, hw]

section Fates

-- what happens to each emission, wherever it stands in the list
variable (fate : Emission → Option InstanceId)

theorem map_emission_filterMap (l : List Emission) :
    (l.filterMap fun e => (fate e).map (Overridden.mk e)).map Overridden.emission =
      l.filter fun e => (fate e).isSome := by
  induction l with
  | nil => rfl
  | cons e l ih => cases h : fate e <;> simp [h, ih]

variable {fate} {key : String} {w : InstanceId}
  (hfate : ∀ e : Emission, e.key = some key → fate e = if w = e.instanceId then none else some w)

include hfate

theorem members_filter_fate (l : List Emission) :
    members (l.filter fun e => (fate e).isNone) key =
      (members l key).filter (·.instanceId = w) := by
  rw [members, members, List.filter_filter, List.filter_filter]
  refine List.filter_congr fun e _ => ?_
  by_cases hk : e.key = some key
  · rw [hfate e hk]
    by_cases hw : w = e.instanceId
    · simp [hw]
    · simp [hw, Ne.symm hw]
  · simp [hk]

theorem filter_overridden_fate (l : List Emission) :
    (l.filterMap fun e => (fate e).map (Overridden.mk e)).filter
        (fun o => o.emission.key = some key) =
      (rivals l key w).map fun e => ⟨e, w⟩ := by
  simp only [rivals, members, List.filter_filter]
  induction l with
  | nil => rfl
  | cons e l ih =>
    by_cases hk : e.key = some key
    · by_cases hw : w = e.instanceId
      · subst hw
        simpa [hfate e hk, hk] using ih
      · simpa [hfate e hk, hk, hw, Ne.symm hw] using ih
    · cases hf : fate e <;> simpa [hf, hk] using ih

end Fates

/-- `r` is a fair resolution of `es`: a partition of it in which every group goes to the instance of
an emission that leads it. -/
structure Settles (t : TieBreak) (es : List Emission) (r : Resolution) : Prop where
  /-- Winners stay in order. -/
  winners_sublist : r.winners.Sublist es
  /-- Losers stay in order. -/
  overridden_sublist : (r.overridden.map Overridden.emission).Sublist es
  /-- Nothing is lost, and nothing is there twice. -/
  perm : (r.winners ++ r.overridden.map Overridden.emission).Perm es
  /-- What does not compete wins. -/
  exempt : r.winners.filter (·.key = none) = es.filter (·.key = none)
  /-- In every group one instance wins, that of a leader: all its emissions of the group win, and
  all others are overridden and name it. -/
  group : ∀ key, members es key ≠ [] → ∃ w : InstanceId,
    (∃ best, Emission.Leads t (members es key) best) ∧
    (∀ best, Emission.Leads t (members es key) best → best.instanceId = w) ∧
    members r.winners key = (members es key).filter (·.instanceId = w) ∧
    r.overridden.filter (·.emission.key = some key) = (rivals es key w).map (⟨·, w⟩)
  /-- A group has a tie exactly when the best rival of a leader is its equal. -/
  tie_mem : ∀ tie, tie ∈ r.ties ↔ ∃ best next, Emission.Leads t (members es tie.key) best ∧
    Emission.Leads t (rivals es tie.key best.instanceId) next ∧
    next.priority = best.priority ∧ next.specificity = best.specificity ∧
    tie = ⟨tie.key, best.instanceId, next.instanceId, next.createdAt = best.createdAt⟩
  /-- No group has two ties. -/
  ties_nodup : (r.ties.map Tie.key).Nodup

/-- A leader of a group belongs to the instance that wins it. -/
theorem winner?_of_leads {key : String} {best : Emission}
    (h : Emission.Leads t (members es key) best) : winner? t es key = some best.instanceId := by
  obtain ⟨best', hb, hs⟩ := exists_best?_of_leads h
  simp only [Emission.standing, Prod.mk.injEq] at hs
  rw [winner?, hb, Option.map_some, hs.2.2.2]

/-- The best emissions that `tie?` compares may be replaced by any leaders. -/
theorem mem_ties {tie : Tie} : tie ∈ (resolve t es).ties ↔ ∃ best next,
    Emission.Leads t (members es tie.key) best ∧
    Emission.Leads t (rivals es tie.key best.instanceId) next ∧
    next.priority = best.priority ∧ next.specificity = best.specificity ∧
    tie = ⟨tie.key, best.instanceId, next.instanceId, next.createdAt = best.createdAt⟩ := by
  rw [resolve, List.mem_filterMap]
  constructor
  · rintro ⟨key, -, htie⟩
    obtain ⟨best, next, hb, hn, hp, hs, rfl⟩ := tie?_eq_some_iff.1 htie
    exact ⟨best, next, Emission.leads_of_best? hb, Emission.leads_of_best? hn, hp, hs, rfl⟩
  · rintro ⟨best, next, hb, hn, hp, hs, htie⟩
    refine ⟨tie.key, mem_keys.2 ⟨best, hb.1⟩, ?_⟩
    obtain ⟨best', hb', hbest⟩ := exists_best?_of_leads hb
    have hid : best'.instanceId = best.instanceId := congrArg (·.2.2.2) hbest
    rw [← hid] at hn
    obtain ⟨next', hn', hnext⟩ := exists_best?_of_leads hn
    simp only [Emission.standing, Prod.mk.injEq] at hbest hnext
    refine tie?_eq_some_iff.2 ⟨best', next', hb', hn', ?_, ?_, ?_⟩
    · rw [hnext.1, hbest.1, hp]
    · rw [hnext.2.1, hbest.2.1, hs]
    · rw [hnext.2.2.1, hnext.2.2.2, hbest.2.2.1, hbest.2.2.2, ← htie]

theorem ties_keys_sublist (t : TieBreak) (es : List Emission) :
    ((resolve t es).ties.map Tie.key).Sublist (keys es) := by
  have hkey (key : String) (tie : Tie) (h : tie? t es key = some tie) : tie.key = key := by
    obtain ⟨best, next, -, -, -, -, rfl⟩ := tie?_eq_some_iff.1 h
    rfl
  rw [resolve]
  generalize keys es = ks
  induction ks with
  | nil => exact List.Sublist.refl _
  | cons key ks ih =>
    rw [List.filterMap_cons]
    split
    · exact ih.cons key
    · next tie htie =>
      rw [List.map_cons, hkey key tie htie]
      exact ih.cons_cons key

theorem settles_resolve (t : TieBreak) (es : List Emission) : Settles t es (resolve t es) := by
  have hlost : (resolve t es).overridden.map Overridden.emission =
      es.filter fun e => (lostTo? t es e).isSome := map_emission_filterMap _ es
  constructor
  case winners_sublist => exact List.filter_sublist
  case overridden_sublist => rw [hlost]; exact List.filter_sublist
  case perm =>
    rw [hlost, resolve]
    have h := List.filter_append_perm (fun e => (lostTo? t es e).isNone) es
    simpa only [Option.not_isNone] using h
  case exempt =>
    rw [resolve, List.filter_filter]
    refine List.filter_congr fun e _ => ?_
    by_cases hk : e.key = none
    · simp [hk, lostTo?_eq_none hk]
    · simp [hk]
  case group =>
    intro key hne
    obtain ⟨best, hb⟩ := Emission.exists_best? (t := t) hne
    have hlead := Emission.leads_of_best? hb
    have hwinner := winner?_of_leads hlead
    have hfate (e : Emission) (he : e.key = some key) := lostTo?_of_winner? hwinner he
    refine ⟨best.instanceId, ⟨best, hlead⟩, fun best' hlead' => ?_, members_filter_fate hfate es,
      filter_overridden_fate hfate es⟩
    exact Option.some.inj ((winner?_of_leads hlead').symm.trans (winner?_of_leads hlead))
  case tie_mem => exact fun _ => mem_ties
  case ties_nodup =>
    exact (Dict.sorted_ofList _).nodup_keys.sublist (ties_keys_sublist t es)

/-- **Conflicts are settled fairly, and independently of the order of collection.**  A resolution
partitions the emissions and gives every group to one instance; arranging the emissions otherwise
arranges winners and losers otherwise and leaves the ties as they are. -/
theorem resolve_settles (t : TieBreak) (es : List Emission) :
    Settles t es (resolve t es) ∧
      ∀ es', es.Perm es' →
        (resolve t es).winners.Perm (resolve t es').winners ∧
        (resolve t es).overridden.Perm (resolve t es').overridden ∧
        (resolve t es).ties = (resolve t es').ties := by
  refine ⟨settles_resolve t es, fun es' h => ⟨?_, ?_, ?_⟩⟩
  · rw [resolve, resolve, lostTo?_perm h]
    exact h.filter _
  · rw [resolve, resolve, lostTo?_perm h]
    exact h.filterMap _
  · have htie : tie? t es = tie? t es' := funext (tie?_perm h)
    rw [resolve, resolve, keys_perm h, htie]

/-- An event that an instance wants to send, in the group of the event's name. -/
def bid (id : String) (instanceId : String) (specificity createdAt : Nat) : Emission :=
  ⟨.send ⟨⟨id⟩, "say", [], .internal⟩ .external, some "say", ⟨instanceId⟩, ⟨"talk"⟩, ⟨0⟩, 50,
    specificity, createdAt⟩

/-- Two emissions of one instance, of which the second one alone would have lost, against one of
another instance that ties with the first one. -/
theorem resolve_settles_rotated :
    [bid "e" "i" 2 0, bid "f" "i" 1 0, bid "g" "j" 2 1].Perm
        [bid "f" "i" 1 0, bid "g" "j" 2 1, bid "e" "i" 2 0] ∧
      (resolve .earliestFirst
        [bid "e" "i" 2 0, bid "f" "i" 1 0, bid "g" "j" 2 1]).winners.map Emission.id = ["e", "f"] ∧
      (resolve .earliestFirst [bid "f" "i" 1 0, bid "g" "j" 2 1, bid "e" "i" 2 0]).ties =
        [⟨"say", ⟨"i"⟩, ⟨"j"⟩, false⟩] := by
  have hperm : [bid "e" "i" 2 0, bid "f" "i" 1 0, bid "g" "j" 2 1].Perm
      [bid "f" "i" 1 0, bid "g" "j" 2 1, bid "e" "i" 2 0] :=
    (List.perm_append_singleton _ [bid "f" "i" 1 0, bid "g" "j" 2 1]).symm
  refine ⟨hperm, by decide +kernel, ?_⟩
  rw [← ((resolve_settles .earliestFirst _).2 _ hperm).2.2]
  rfl

end Conflict

end EventFlow

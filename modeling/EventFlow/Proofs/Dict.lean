import EventFlow.Id

/-!
# Maps whose keys are in order

The laws of `Dict.get?` hold of every list of entries.  What needs more is everything that walks a
map from one end to the other: that two maps with the same keys walk them in the same order is a
fact about *increasing* lists of keys, and about keys that come in a linear order.

`Dict.Sorted` is the invariant, `sorted_put` and `sorted_ofList` keep it, and `keys_eq_of_mem_iff`
and `ofList_eq_of_perm` are what it is good for.
-/

set_option autoImplicit false

namespace EventFlow

/-- The order of some keys is linear. -/
class LinearKeys (κ : Type) [LT κ] : Prop where
  irrefl : ∀ a : κ, ¬a < a
  trans : ∀ {a b c : κ}, a < b → b < c → a < c
  total : ∀ {a b : κ}, a ≠ b → ¬a < b → b < a

instance : LinearKeys String where
  irrefl := String.lt_irrefl
  trans := String.lt_trans
  total := by
    intro a b hne hlt
    rcases String.le_total a b with h | h
    · exact absurd (String.le_antisymm h (String.not_lt.1 hlt)) hne
    · exact String.not_le.1 fun hle => hne (String.le_antisymm hle h)

/-- Keys that are compared by their texts are in a linear order, if their texts tell them apart. -/
theorem LinearKeys.of_text {κ : Type} [LT κ] (text : κ → String)
    (hinj : ∀ {a b : κ}, text a = text b → a = b) (hlt : ∀ {a b : κ}, a < b ↔ text a < text b) :
    LinearKeys κ where
  irrefl _ h := String.lt_irrefl _ (hlt.1 h)
  trans h h' := hlt.2 (String.lt_trans (hlt.1 h) (hlt.1 h'))
  total hne h := hlt.2 (LinearKeys.total (fun heq => hne (hinj heq)) fun h' => h (hlt.2 h'))

instance : LinearKeys Nat := ⟨Nat.lt_irrefl, Nat.lt_trans, fun hne h => by omega⟩

instance : LinearKeys InvocationId := .of_text InvocationId.text (fun {a b} h => by
  obtain ⟨text⟩ := a
  rw [show text = b.text from h]) Iff.rfl

namespace Dict

variable {κ ν : Type}

/-- The keys increase from entry to entry. -/
def Sorted [LT κ] (d : Dict κ ν) : Prop := (keys d).Pairwise (· < ·)

theorem Sorted.nodup_keys [LT κ] [LinearKeys κ] {d : Dict κ ν} (h : d.Sorted) :
    (keys d).Nodup := by
  refine h.imp fun {a b} hab heq => ?_
  rw [heq] at hab
  exact LinearKeys.irrefl b hab

/-- **Sorted maps with the same keys walk them in the same order.** -/
theorem keys_eq_of_mem_iff [LT κ] [LinearKeys κ] {μ : Type} {d : Dict κ ν} {d' : Dict κ μ}
    (h : d.Sorted) (h' : d'.Sorted) (hmem : ∀ k, k ∈ keys d ↔ k ∈ keys d') : keys d = keys d' := by
  have hperm := (List.perm_ext_iff_of_nodup h.nodup_keys h'.nodup_keys).2 hmem
  refine List.Perm.eq_of_pairwise (fun a b _ _ hab hba => ?_) h h' hperm
  exact absurd (LinearKeys.trans hab hba) (LinearKeys.irrefl a)

section Lookup

variable [DecidableEq κ]

theorem get?_eq_none_iff {d : Dict κ ν} {k : κ} : get? d k = none ↔ k ∉ keys d := by
  induction d with
  | nil => exact ⟨fun _ => List.not_mem_nil, fun _ => rfl⟩
  | cons e d ih =>
    rw [get?_cons, keys, List.map_cons, List.mem_cons, not_or, ← keys, ← ih]
    split
    · next h => exact ⟨fun hd => absurd hd (Option.some_ne_none _), fun hne => absurd h.symm hne.1⟩
    · next h => exact ⟨fun hd => ⟨Ne.symm h, hd⟩, And.right⟩

/-- An entry is found if no other one has its key. -/
theorem mem_keys_of_has {d : Dict κ ν} {k : κ} (h : has d k = true) : k ∈ keys d := by
  refine Classical.not_not.1 fun hnot => ?_
  rw [has, get?_eq_none_iff.2 hnot] at h
  cases h

theorem count_keys_remove (d : Dict κ ν) (k n : κ) :
    (keys (remove d k)).count n = if n = k then 0 else (keys d).count n := by
  have hkeys : keys (remove d k) = (keys d).filter fun n => n ≠ k := by
    rw [keys, keys, List.filter_map]
    rfl
  rw [hkeys]
  split
  · next h =>
    refine List.count_eq_zero.2 fun hmem => ?_
    simp [h] at hmem
  · next h => exact List.count_filter (decide_eq_true h)

theorem get?_of_mem {d : Dict κ ν} (h : (keys d).Nodup) {k : κ} {v : ν} (hm : (k, v) ∈ d) :
    get? d k = some v := by
  induction d with
  | nil => cases hm
  | cons e d ih =>
    rw [keys, List.map_cons, List.nodup_cons] at h
    rw [get?_cons]
    rcases List.mem_cons.1 hm with rfl | hm
    · rw [if_pos rfl]
    · have hne : e.1 ≠ k := fun heq => h.1 (by
        rw [heq]
        exact List.mem_map_of_mem (f := Prod.fst) hm)
      rw [if_neg hne]
      exact ih h.2 hm

theorem get?_reverse {d : Dict κ ν} (h : (keys d).Nodup) (k : κ) :
    get? (d.reverse : Dict κ ν) k = get? d k := by
  cases hk : get? d k with
  | some v =>
    exact get?_of_mem (((List.reverse_perm d).map Prod.fst).nodup_iff.2 h)
      (List.mem_reverse.2 (mem_of_get? hk))
  | none =>
    rw [get?_eq_none_iff] at hk ⊢
    rwa [keys, List.map_reverse, List.mem_reverse]

theorem get?_filter {d : Dict κ ν} (h : (keys d).Nodup) (p : κ × ν → Bool) (k : κ) :
    get? (d.filter p : Dict κ ν) k = (get? d k).filter fun v => p (k, v) := by
  have hsub : (keys (d.filter p)).Nodup := h.sublist (List.filter_sublist.map Prod.fst)
  cases hk : get? d k with
  | none =>
    rw [Option.filter_none, get?_eq_none_iff]
    intro hmem
    exact get?_eq_none_iff.1 hk ((List.filter_sublist.map Prod.fst).subset hmem)
  | some v =>
    cases hp : p (k, v) with
    | true =>
      rw [Option.filter, if_pos hp]
      exact get?_of_mem hsub (List.mem_filter.2 ⟨mem_of_get? hk, hp⟩)
    | false =>
      rw [Option.filter, if_neg (by simp [hp]), get?_eq_none_iff]
      intro hmem
      obtain ⟨⟨k', v'⟩, he, rfl⟩ := List.mem_map.1 hmem
      obtain ⟨hd, hp'⟩ := List.mem_filter.1 he
      rw [get?_of_mem h hd, Option.some.injEq] at hk
      rw [← hk, hp'] at hp
      cases hp

end Lookup

variable [DecidableEq κ] [LT κ] [DecidableLT κ]

theorem mem_put {d : Dict κ ν} {k : κ} {v : ν} {x : κ × ν} (hx : x ∈ put d k v) :
    x = (k, v) ∨ x ∈ d := by
  induction d with
  | nil => exact .inl (List.mem_singleton.1 hx)
  | cons entry d ih =>
    obtain ⟨k', v'⟩ := entry
    rw [put] at hx
    split at hx
    · exact (List.mem_cons.1 hx).imp_right (List.mem_cons_of_mem _)
    · split at hx
      · exact List.mem_cons.1 hx
      · rcases List.mem_cons.1 hx with rfl | hx
        · exact .inr (.head _)
        · exact (ih hx).imp_right (List.mem_cons_of_mem _)

theorem mem_putAll {entries : List (κ × ν)} {d : Dict κ ν} {x : κ × ν}
    (hx : x ∈ putAll d entries) : x ∈ entries ∨ x ∈ d := by
  induction entries generalizing d with
  | nil => exact .inr hx
  | cons e entries ih =>
    rcases ih hx with hx | hx
    · exact .inl (List.mem_cons_of_mem _ hx)
    · refine (mem_put hx).imp_left fun heq => ?_
      rw [show x = e from heq]
      exact .head _

theorem mem_keys_put {d : Dict κ ν} {k k' : κ} {v : ν} :
    k' ∈ keys (put d k v) ↔ k' = k ∨ k' ∈ keys d := by
  induction d with
  | nil => simp [put, keys]
  | cons e d ih =>
    obtain ⟨k₁, v₁⟩ := e
    rw [put]
    split
    · next h => subst h; simp [keys]
    · split
      · simp [keys]
      · have hcons (d' : Dict κ ν) :
            k' ∈ keys ((k₁, v₁) :: d') ↔ k' = k₁ ∨ k' ∈ keys d' := by simp [keys]
        rw [hcons, ih, hcons]
        exact or_left_comm

theorem mem_keys_putAll {entries : List (κ × ν)} {d : Dict κ ν} {k : κ} :
    k ∈ keys (putAll d entries) ↔ k ∈ keys d ∨ k ∈ entries.map Prod.fst := by
  induction entries generalizing d with
  | nil => simp [putAll]
  | cons e entries ih =>
    rw [putAll, List.foldl_cons, ← putAll, ih, mem_keys_put, List.map_cons, List.mem_cons]
    rw [or_assoc, or_left_comm]

theorem mem_keys_ofList {entries : List (κ × ν)} {k : κ} :
    k ∈ keys (ofList entries) ↔ k ∈ entries.map Prod.fst := by
  rw [ofList, mem_keys_putAll]
  simp [empty, keys]

variable [LinearKeys κ]

theorem sorted_put {d : Dict κ ν} (h : d.Sorted) (k : κ) (v : ν) : (put d k v).Sorted := by
  induction d with
  | nil => simp [put, Sorted, keys]
  | cons e d ih =>
    obtain ⟨k₁, v₁⟩ := e
    rw [Sorted, keys, List.map_cons, List.pairwise_cons] at h
    obtain ⟨hall, hd⟩ := h
    rw [put]
    split
    · next hk =>
      subst hk
      exact List.pairwise_cons.2 ⟨hall, hd⟩
    · next hk =>
      split
      · next hlt =>
        refine List.pairwise_cons.2 ⟨?_, List.pairwise_cons.2 ⟨hall, hd⟩⟩
        rintro x (_ | ⟨_, hx⟩)
        · exact hlt
        · exact LinearKeys.trans hlt (hall x hx)
      · next hlt =>
        refine List.pairwise_cons.2 ⟨fun x hx => ?_, ih hd⟩
        rcases mem_keys_put.1 hx with rfl | hx
        · exact LinearKeys.total (Ne.symm hk) hlt
        · exact hall x hx

theorem sorted_putAll {entries : List (κ × ν)} {d : Dict κ ν} (h : d.Sorted) :
    (putAll d entries).Sorted := by
  induction entries generalizing d with
  | nil => exact h
  | cons e entries ih => exact ih (sorted_put h e.1 e.2)

theorem sorted_ofList (entries : List (κ × ν)) : (ofList entries).Sorted :=
  sorted_putAll List.Pairwise.nil

omit [LinearKeys κ] [DecidableLT κ] in
theorem sorted_remove {d : Dict κ ν} (h : d.Sorted) (k : κ) : (remove d k).Sorted :=
  h.sublist (List.filter_sublist.map Prod.fst)

/-! ## Putting entries in order -/

omit [LinearKeys κ] in
theorem put_perm {d : Dict κ ν} {k : κ} (h : k ∉ keys d) (v : ν) :
    (put d k v).Perm ((k, v) :: d) := by
  induction d with
  | nil => exact .refl _
  | cons e d ih =>
    obtain ⟨k₁, v₁⟩ := e
    rw [keys, List.map_cons, List.mem_cons, not_or, ← keys] at h
    rw [put, if_neg (Ne.symm h.1)]
    split
    · exact .refl _
    · exact ((ih h.2).cons _).trans (.swap ..)

omit [LinearKeys κ] in
theorem count_keys_put_of_ne {d : Dict κ ν} {k n : κ} (h : n ≠ k) (v : ν) :
    (keys (put d k v)).count n = (keys d).count n := by
  induction d with
  | nil => simp [put, keys, h.symm]
  | cons e d ih =>
    obtain ⟨k₁, v₁⟩ := e
    rw [put]
    split
    · next hk =>
      subst hk
      rfl
    · split
      · exact List.count_cons_of_ne h.symm
      · simp only [keys, List.map_cons, List.count_cons] at ih ⊢
        rw [ih]

omit [LinearKeys κ] in
theorem putAll_perm {entries : List (κ × ν)} {d : Dict κ ν}
    (h : (keys d ++ entries.map Prod.fst).Nodup) : (putAll d entries).Perm (entries ++ d) := by
  induction entries generalizing d with
  | nil => exact .refl _
  | cons e entries ih =>
    have hperm : (keys d ++ (e :: entries).map Prod.fst).Perm
        (e.1 :: (keys d ++ entries.map Prod.fst)) := List.perm_middle
    obtain ⟨hnew, hrest⟩ := List.nodup_cons.1 (hperm.nodup_iff.1 h)
    rw [List.mem_append, not_or] at hnew
    have hput := put_perm hnew.1 e.2
    have hkeys : (keys (put d e.1 e.2) ++ entries.map Prod.fst).Perm
        (e.1 :: (keys d ++ entries.map Prod.fst)) := (hput.map Prod.fst).append_right _
    refine (ih (hkeys.nodup_iff.2 (List.nodup_cons.2 ⟨?_, hrest⟩))).trans ?_
    · rw [List.mem_append, not_or]
      exact hnew
    · exact (hput.append_left entries).trans List.perm_middle

omit [LinearKeys κ] in
/-- A map has the entries of a list whose keys are distinct. -/
theorem ofList_perm {entries : List (κ × ν)} (h : (entries.map Prod.fst).Nodup) :
    (ofList entries).Perm entries := by
  have hperm := @putAll_perm κ ν _ _ _ entries empty h
  rwa [empty, List.append_nil] at hperm

/-- **A sorted map is what its entries make, in whatever order they are put in.** -/
theorem ofList_eq_of_perm {entries : List (κ × ν)} {d : Dict κ ν} (h : d.Sorted)
    (hp : entries.Perm d) : ofList entries = d := by
  have hnodup : (entries.map Prod.fst).Nodup := (hp.map Prod.fst).nodup_iff.2 h.nodup_keys
  have hentries : (ofList entries).Pairwise fun a b => a.1 < b.1 :=
    List.pairwise_map.1 (sorted_ofList entries)
  refine List.Perm.eq_of_pairwise (fun a b _ _ hab hba => ?_) hentries (List.pairwise_map.1 h)
    ((ofList_perm hnodup).trans hp)
  exact absurd (LinearKeys.trans hab hba) (LinearKeys.irrefl a.1)

/-- **Two sorted maps are equal if every key has the same value in both.** -/
theorem ext_get? {d d' : Dict κ ν} (h : d.Sorted) (h' : d'.Sorted)
    (hget : ∀ k, get? d k = get? d' k) : d = d' := by
  have hmem {d d' : Dict κ ν} (h : d.Sorted) (hget : ∀ k, get? d k = get? d' k) (e : κ × ν)
      (he : e ∈ d) : e ∈ d' :=
    mem_of_get? ((hget e.1).symm.trans (get?_of_mem h.nodup_keys he))
  have hnodup {d : Dict κ ν} (h : d.Sorted) : d.Nodup :=
    List.Pairwise.of_map Prod.fst (fun _ _ hne heq => hne (congrArg Prod.fst heq)) h.nodup_keys
  have hperm : d.Perm d' := (List.perm_ext_iff_of_nodup (hnodup h) (hnodup h')).2 fun e =>
    ⟨hmem h hget e, hmem h' (fun k => (hget k).symm) e⟩
  exact (ofList_eq_of_perm h (.refl d)).symm.trans (ofList_eq_of_perm h' hperm)

end Dict

end EventFlow

import EventFlow.Path
import EventFlow.Proofs.Dict

/-!
# Paths and what is found at them

What was written at a path is found there, whatever it has replaced, and writing adds at most one
key, the first segment of the path.  A key without a dot is a path to its own value.

What stands elsewhere stays, with one exception.  Reading goes through the items of arrays, but
writing goes through objects only: it puts an object in the place of every array on its way, and
what stood in that array is gone.

## What is here

* `get?_set` and `mem_keys_set` on what is written.
* `Apart` paths lead to different places, and `ArrayBetween` says that an array stands where they
  still go the same way.  `descend_assign_of_apart` follows both down a value.
* **`reads_after_writing`** says what every path reads after one was written.
-/

set_option autoImplicit false

namespace EventFlow

/-! ## Cutting -/

theorem after?_eq_some {start cs rest : List Char} :
    after? start cs = some rest ↔ cs = start ++ rest := by
  induction start generalizing cs with
  | nil => simp [after?, eq_comm]
  | cons s start ih =>
    cases cs with
    | nil => simp [after?]
    | cons c cs =>
      rw [after?, List.cons_append, List.cons.injEq]
      split
      · next h => rw [ih, h, eq_self, true_and]
      · next h => exact ⟨nofun, fun h' => absurd h'.1.symm h⟩

theorem cutAt_append {sep : Char} {piece : List Char} (h : sep ∉ piece) (rest : List Char) :
    cutAt sep (piece ++ sep :: rest) = piece :: cutAt sep rest := by
  induction piece with
  | nil => rw [List.nil_append, cutAt, if_pos rfl]
  | cons c piece ih =>
    rw [List.mem_cons, not_or] at h
    rw [List.cons_append, cutAt, if_neg (Ne.symm h.1), ih h.2]

theorem cutAt_of_notMem {sep : Char} {piece : List Char} (h : sep ∉ piece) :
    cutAt sep piece = [piece] := by
  induction piece with
  | nil => rfl
  | cons c piece ih =>
    rw [List.mem_cons, not_or] at h
    rw [cutAt, if_neg (Ne.symm h.1), ih h.2]

/-- There is always a first piece, and the separator is not in any. -/
theorem cutAt_spec (sep : Char) (cs : List Char) :
    cutAt sep cs ≠ [] ∧ ∀ piece ∈ cutAt sep cs, sep ∉ piece := by
  induction cs with
  | nil => exact ⟨nofun, List.forall_mem_singleton.2 nofun⟩
  | cons c cs ih =>
    rw [cutAt]
    split
    · exact ⟨nofun, List.forall_mem_cons.2 ⟨nofun, ih.2⟩⟩
    · next hne =>
      split
      · next hnil => exact absurd hnil ih.1
      · next piece pieces hcut =>
        rw [hcut, List.forall_mem_cons] at ih
        refine ⟨nofun, List.forall_mem_cons.2 ⟨?_, ih.2.2⟩⟩
        rw [List.mem_cons, not_or]
        exact ⟨Ne.symm hne, ih.2.1⟩

namespace Path

theorem segments_ne_nil (path : String) : segments path ≠ [] :=
  fun h => (cutAt_spec '.' path.toList).1 (List.map_eq_nil_iff.1 h)

/-- The first segment of a path has no dot. -/
theorem notMem_root (path : String) : '.' ∉ (root path).toList := by
  obtain ⟨piece, pieces, hcut⟩ := List.exists_cons_of_ne_nil (cutAt_spec '.' path.toList).1
  rw [root, segments, hcut, List.map_cons, List.headD_cons, String.toList_ofList]
  refine (cutAt_spec '.' path.toList).2 piece ?_
  rw [hcut]
  exact List.mem_cons_self

theorem segments_of_notMem {key : String} (h : '.' ∉ key.toList) : segments key = [key] := by
  rw [segments, cutAt_of_notMem h, List.map_singleton, String.ofList_toList]

/-! ## Reading and writing -/

/-- A key without a dot is a path to its own value. -/
theorem get?_of_notMem {values : Dict String Json} {key : String} (h : '.' ∉ key.toList) :
    get? values key = Dict.get? values key := by
  rw [get?, segments_of_notMem h, getAt?]
  cases Dict.get? values key <;> rfl

theorem descend_assign (value : Json) (path : List String) (new : Json) :
    descend (assign value path new) path = some new := by
  induction path generalizing value with
  | nil =>
    rw [assign]
    cases new <;> rfl
  | cons s path ih =>
    simp only [assign, descend, Dict.get?_put_self]
    exact ih _

/-- **What was written at a path is found there.** -/
theorem get?_set (values : Dict String Json) (path : String) (new : Json) :
    get? (set values path new) path = some new := by
  obtain ⟨s, rest, hpath⟩ := List.exists_cons_of_ne_nil (segments_ne_nil path)
  rw [get?, set, hpath, setAt, getAt?, Dict.get?_put_self, Option.bind_some]
  exact descend_assign _ rest new

/-- Writing adds no key but the first segment of the path. -/
theorem mem_keys_set {values : Dict String Json} {path key : String} {new : Json} :
    key ∈ Dict.keys (set values path new) ↔ key = root path ∨ key ∈ Dict.keys values := by
  obtain ⟨s, rest, hpath⟩ := List.exists_cons_of_ne_nil (segments_ne_nil path)
  rw [set, root, hpath, setAt, List.headD_cons]
  exact Dict.mem_keys_put

/-! ## Reading beside what was written -/

/-- Two lists of segments lead to different places, neither of them on the way to the other. -/
def Apart (p q : List String) : Prop := ¬p <+: q ∧ ¬q <+: p

instance (p q : List String) : Decidable (Apart p q) := inferInstanceAs (Decidable (_ ∧ _))

/-- The members of an object; nothing else has any. -/
def members : Json → Dict String Json
  | .obj fields => fields
  | _ => []

/-- Somewhere below a value, where both paths still go the same way, stands an array. -/
def Bars (value : Json) (p q : List String) : Prop :=
  ∃ c items, c <+: p ∧ c <+: q ∧ descend value c = some (.arr items)

/-- Somewhere in a map of values, where both paths still go the same way, stands an array. -/
def ArrayBetween (values : Dict String Json) (p q : List String) : Prop :=
  ∃ c items, c <+: p ∧ c <+: q ∧ getAt? values c = some (.arr items)

section Beside

variable {value new : Json} {p q rest : List String} {s t : String}

theorem apart_cons : Apart (s :: p) (t :: q) ↔ s ≠ t ∨ Apart p q := by
  rw [Apart, Apart, List.cons_prefix_cons, List.cons_prefix_cons]
  by_cases h : s = t
  · simp [h]
  · simp [h, Ne.symm h]

theorem Apart.exists_cons (h : Apart p q) : ∃ s p' t q', p = s :: p' ∧ q = t :: q' := by
  cases p with
  | nil => exact absurd List.nil_prefix h.1
  | cons s p' =>
    cases q with
    | nil => exact absurd List.nil_prefix h.2
    | cons t q' => exact ⟨s, p', t, q', rfl, rfl⟩

theorem assign_cons (value : Json) (s : String) (rest : List String) (new : Json) :
    assign value (s :: rest) new =
      .obj (Dict.put (members value) s
        (assign ((Dict.get? (members value) s).getD (.obj [])) rest new)) := by
  cases value <;> rfl

/-- Below an object, a path goes on in the member that its first segment names. -/
theorem descend_obj (fields : Dict String Json) (t : String) (q : List String) :
    descend (.obj fields) (t :: q) = (Dict.get? fields t).bind (descend · q) := by
  rw [descend]
  cases Dict.get? fields t <;> rfl

theorem descend_append (value : Json) (p rest : List String) :
    descend value (p ++ rest) = (descend value p).bind (descend · rest) := by
  induction p generalizing value with
  | nil => cases value <;> rfl
  | cons s p ih =>
    cases value with
    | obj fields =>
      rw [List.cons_append, descend_obj, descend_obj, Option.bind_assoc]
      exact Option.bind_congr fun child _ => ih child
    | arr items =>
      rw [List.cons_append, descend, descend]
      cases (Numeral.natural? indexBound s).bind (items[·]?) with
      | none => rfl
      | some child => exact ih child
    | null | bool | num | str => rfl

/-- Beside a location that is written below a value without members, nothing is found. -/
theorem descend_assign_of_members (hm : members value = []) (h : Apart p q) :
    descend (assign value p new) q = none := by
  induction p generalizing value q with
  | nil => exact absurd List.nil_prefix h.1
  | cons s p ih =>
    obtain ⟨_, _, t, q, -, rfl⟩ := h.exists_cons
    rw [assign_cons, hm, descend_obj, Dict.get?_put]
    split
    · next hts => exact ih rfl ((apart_cons.1 h).resolve_left fun hne => hne hts.symm)
    · rfl

/-- An array stands in the way of two paths below an object if both go on in one member, and an
array stands in their way there. -/
theorem bars_obj_cons {fields : Dict String Json} : Bars (.obj fields) (s :: p) (t :: q) ↔
    s = t ∧ ∃ child, Dict.get? fields s = some child ∧ Bars child p q := by
  constructor
  · rintro ⟨c, items, hp, hq, hc⟩
    cases c with
    | nil => cases hc
    | cons u c =>
      rw [List.cons_prefix_cons] at hp hq
      obtain ⟨rfl, hp⟩ := hp
      obtain ⟨rfl, hq⟩ := hq
      rw [descend_obj, Option.bind_eq_some_iff] at hc
      obtain ⟨child, hchild, hc⟩ := hc
      exact ⟨rfl, child, hchild, c, items, hp, hq, hc⟩
  · rintro ⟨rfl, child, hchild, c, items, hp, hq, hc⟩
    refine ⟨s :: c, items, List.cons_prefix_cons.2 ⟨rfl, hp⟩,
      List.cons_prefix_cons.2 ⟨rfl, hq⟩, ?_⟩
    rw [descend_obj, hchild]
    exact hc

/-- What stands beside a location that is written below a value stays as it is, unless an array
stands in the way of both. -/
theorem descend_assign_of_apart (h : Apart p q) :
    (Bars value p q → descend (assign value p new) q = none) ∧
      (¬Bars value p q → descend (assign value p new) q = descend value q) := by
  induction p generalizing value q with
  | nil => exact absurd List.nil_prefix h.1
  | cons s p ih =>
    obtain ⟨_, _, t, q, -, rfl⟩ := h.exists_cons
    have hnone {value : Json} (hm : members value = []) :
        descend (assign value (s :: p) new) (t :: q) = none := descend_assign_of_members hm h
    cases value with
    | obj fields =>
      rw [assign_cons, descend_obj, descend_obj, members, Dict.get?_put, bars_obj_cons]
      split
      · next hts =>
        subst hts
        have hapart := (apart_cons.1 h).resolve_left fun hne => hne rfl
        rw [Option.bind_some]
        cases hchild : Dict.get? fields t with
        | none =>
          have hempty := @descend_assign_of_members (.obj []) new p q rfl hapart
          exact ⟨fun _ => hempty, fun _ => hempty⟩
        | some child =>
          obtain ⟨hbar, hfree⟩ := @ih child q hapart
          refine ⟨fun hb => hbar ?_, fun hb => hfree fun hb' => hb ?_⟩
          · obtain ⟨-, child', hsome, hb⟩ := hb
            rwa [Option.some.inj hsome]
          · exact ⟨rfl, child, rfl, hb'⟩
      · next hts => exact ⟨fun hb => absurd hb.1.symm hts, fun _ => rfl⟩
    | arr items =>
      have hbars : Bars (.arr items) (s :: p) (t :: q) :=
        ⟨[], items, List.nil_prefix, List.nil_prefix, rfl⟩
      exact ⟨fun _ => hnone rfl, fun hb => absurd hbars hb⟩
    | null | bool | num | str => exact ⟨fun _ => hnone rfl, fun _ => hnone rfl⟩

/-! ## Maps of values -/

theorem getAt?_cons (values : Dict String Json) (s : String) (rest : List String) :
    getAt? values (s :: rest) = descend (.obj values) (s :: rest) := by
  rw [getAt?, descend_obj]

theorem obj_setAt_cons (values : Dict String Json) (s : String) (rest : List String)
    (new : Json) :
    .obj (setAt values (s :: rest) new) = assign (.obj values) (s :: rest) new := by
  rw [setAt, assign_cons, members]

theorem bars_obj {values : Dict String Json} :
    Bars (.obj values) p q ↔ ArrayBetween values p q := by
  refine exists_congr fun c => exists_congr fun items => ?_
  cases c with
  | nil => simp [getAt?, descend]
  | cons s c => rw [getAt?_cons]

end Beside

/-- **What paths read after one of them was written.**  The path itself reads what was written, and
a path that goes on behind it reads on in there.  A path that leads elsewhere reads what it read
before, unless an array stood where the two still go the same way: then it reads nothing. -/
theorem reads_after_writing (values : Dict String Json) (p : String) (new : Json) :
    get? (set values p new) p = some new ∧
      (∀ q rest, segments q = segments p ++ rest → get? (set values p new) q = descend new rest) ∧
      ∀ q, Apart (segments p) (segments q) →
        (ArrayBetween values (segments p) (segments q) → get? (set values p new) q = none) ∧
          (¬ArrayBetween values (segments p) (segments q) →
            get? (set values p new) q = get? values q) := by
  refine ⟨get?_set values p new, fun q rest hq => ?_, fun q h => ?_⟩
  · obtain ⟨s, below, hp⟩ := List.exists_cons_of_ne_nil (segments_ne_nil p)
    rw [get?, set, hq, hp, List.cons_append, getAt?_cons, obj_setAt_cons, ← List.cons_append,
      descend_append, descend_assign, Option.bind_some]
  · obtain ⟨s, below, t, beside, hp, hq⟩ := h.exists_cons
    have hbeside := @descend_assign_of_apart (.obj values) new _ _ h
    rw [bars_obj] at hbeside
    rwa [get?, get?, set, hq, hp, getAt?_cons, getAt?_cons, obj_setAt_cons, ← hp, ← hq]

/-- Values with an array among them. -/
def shelf : Dict String Json :=
  [("a", .obj [("b", .ofNat 1), ("c", .arr [.ofNat 2, .ofNat 3])])]

/-- An object is put in the place of the first item of an array.  It is read behind the path, and
what stands beside the array is read as before, but the other item of the array is gone. -/
theorem reads_after_writing_shelf :
    segments "a.c.0.x" = segments "a.c.0" ++ ["x"] ∧
      Apart (segments "a.c.0") (segments "a.b") ∧
      ¬ArrayBetween shelf (segments "a.c.0") (segments "a.b") ∧
      Apart (segments "a.c.0") (segments "a.c.1") ∧
      ArrayBetween shelf (segments "a.c.0") (segments "a.c.1") ∧
      get? (set shelf "a.c.0" (.obj [("x", .ofNat 4)])) "a.c.0" = some (.obj [("x", .ofNat 4)]) ∧
      get? (set shelf "a.c.0" (.obj [("x", .ofNat 4)])) "a.c.0.x" = some (.ofNat 4) ∧
      get? (set shelf "a.c.0" (.obj [("x", .ofNat 4)])) "a.b" = some (.ofNat 1) ∧
      get? (set shelf "a.c.0" (.obj [("x", .ofNat 4)])) "a.c.1" = none := by
  have hbehind : segments "a.c.0.x" = segments "a.c.0" ++ ["x"] := by decide
  have hb : Apart (segments "a.c.0") (segments "a.b") := by decide
  have hc : Apart (segments "a.c.0") (segments "a.c.1") := by decide
  have hfree : ¬ArrayBetween shelf (segments "a.c.0") (segments "a.b") := by
    rintro ⟨c, items, hp, hq, hc⟩
    change c <+: ["a", "c", "0"] at hp
    change c <+: ["a", "b"] at hq
    obtain _ | ⟨s, _ | ⟨t, c⟩⟩ := c
    · cases hc
    · rw [(List.cons_prefix_cons.1 hp).1] at hc
      cases hc
    · have hpt := (List.cons_prefix_cons.1 (List.cons_prefix_cons.1 hp).2).1
      have hqt := (List.cons_prefix_cons.1 (List.cons_prefix_cons.1 hq).2).1
      exact absurd (hpt.symm.trans hqt) (by decide)
  have harray : ArrayBetween shelf (segments "a.c.0") (segments "a.c.1") :=
    ⟨["a", "c"], [.ofNat 2, .ofNat 3], by decide, by decide, rfl⟩
  obtain ⟨hat, hbelow, hbeside⟩ := reads_after_writing shelf "a.c.0" (.obj [("x", .ofNat 4)])
  exact ⟨hbehind, hb, hfree, hc, harray, hat, hbelow "a.c.0.x" ["x"] hbehind,
    (hbeside "a.b" hb).2 hfree, (hbeside "a.c.1" hc).1 harray⟩

/-- **Writing one item of an array loses the others**, though no path to them is on the way to
it. -/
theorem writing_item_loses_others :
    let values : Dict String Json := [("a", .arr [.ofNat 1, .ofNat 2])]
    Apart (segments "a.0") (segments "a.1") ∧ get? values "a.1" = some (.ofNat 2) ∧
      get? (set values "a.0" (.ofNat 5)) "a.1" = none :=
  ⟨by decide, rfl, rfl⟩

end Path

end EventFlow

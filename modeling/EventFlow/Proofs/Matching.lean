import EventFlow.Proofs.Flow.Binders

/-!
# What it means that an event is the expected one

A match walks the fields of a pattern and captures variables on its way, so what a field is compared
with depends on the fields before it.  Its meaning does not: an event is the expected one under some
bindings if they can be extended to bindings that satisfy every constraint at once, and the match
leaves the least such extension.

Values are compared by `Json.same` throughout, under which the two zeros are one number, so "least"
and "whatever the order" are up to that equality.

## What is here

* `Bindings.Extended` and `Bindings.Below` compare bindings, as they are and up to `Json.same`.
* `Pattern.Holds` says what a pattern demands of an event under given bindings.
* `Bindings.Completed` relates bindings to the least ones above them that meet a demand and bind
  some further variables; it composes (`Completed.trans`).
* **`match?_decides`**: a match succeeds exactly if some extension satisfies the pattern, and leaves
  the least one.  So fields may be visited in any order, a second match changes nothing, and what
  matches under some bindings does so under smaller ones.
-/

set_option autoImplicit false

namespace EventFlow

namespace Bindings

/-- All that is bound is bound to the very same value. -/
def Extended (b t : Bindings) : Prop := ∀ x v, Dict.get? b x = some v → Dict.get? t x = some v

/-- All that is bound is bound to a value that compares equal. -/
def Below (b t : Bindings) : Prop :=
  ∀ x v, Dict.get? b x = some v → ∃ w, Dict.get? t x = some w ∧ v.same w = true

/-- The same variables are bound, to values that compare equal. -/
def Alike (b t : Bindings) : Prop := b.Below t ∧ t.Below b

/-- The bindings `b` with no more added to them than meeting a demand takes, all under the names
`vars`. -/
structure Completed (b : Bindings) (demand : Bindings → Prop) (vars : List String) (r : Bindings) :
    Prop where
  /-- What was bound stays as it was. -/
  keeps : b.Extended r
  /-- The demand is met. -/
  meets : demand r
  /-- Nothing else that meets it is smaller. -/
  least : ∀ t, b.Below t → demand t → r.Below t
  /-- What is bound now was bound before, or has one of the names. -/
  bound : ∀ x, (Dict.get? r x).isSome = true ↔ (Dict.get? b x).isSome = true ∨ x ∈ vars

variable {b b' r r' t : Bindings}

theorem Extended.below (h : b.Extended t) : b.Below t :=
  fun x v hv => ⟨v, h x v hv, v.same_refl⟩

theorem Below.trans (h : b.Below b') (h' : b'.Below t) : b.Below t := by
  intro x v hv
  obtain ⟨w, hw, hvw⟩ := h x v hv
  obtain ⟨u, hu, hwu⟩ := h' x w hw
  exact ⟨u, hu, Json.same_trans hvw hwu⟩

theorem Extended.trans (h : b.Extended b') (h' : b'.Extended t) : b.Extended t :=
  fun x v hv => h' x v (h x v hv)

/-- A new variable extends bindings. -/
theorem extended_put {x : String} (hx : Dict.get? b x = none) (v : Json) :
    b.Extended (Dict.put b x v) := by
  intro y w hw
  have hne : y ≠ x := by
    rintro rfl
    rw [hx] at hw
    cases hw
  rw [Dict.get?_put_of_ne hne, hw]

variable {demand demand' : Bindings → Prop} {vars vars' : List String}

/-- Bindings that meet a demand are completed already. -/
theorem completed_self (hmeets : demand b) (hvars : ∀ x ∈ vars, (Dict.get? b x).isSome = true) :
    b.Completed demand vars b where
  keeps _ _ hv := hv
  meets := hmeets
  least _ ht _ := ht
  bound x := ⟨.inl, fun h => h.elim id (hvars x)⟩

/-- One demand can be met after the other, if more bindings do no harm to the first one. -/
theorem Completed.trans (h : b.Completed demand vars r) (h' : r.Completed demand' vars' r')
    (hmono : ∀ {t t' : Bindings}, t.Below t' → demand t → demand t') :
    b.Completed (fun t => demand t ∧ demand' t) (vars ++ vars') r' where
  keeps := h.keeps.trans h'.keeps
  meets := ⟨hmono h'.keeps.below h.meets, h'.meets⟩
  least t ht hd := h'.least t (h.least t ht hd.1) hd.2
  bound x := by rw [h'.bound, h.bound, List.mem_append, or_assoc]

/-- There is one way to complete bindings, whatever words the demand is put in. -/
theorem Completed.alike (h : b.Completed demand vars r) (h' : b.Completed demand' vars' r')
    (hiff : ∀ t, demand t ↔ demand' t) : r.Alike r' :=
  ⟨h.least r' h'.keeps.below ((hiff r').2 h'.meets),
    h'.least r h.keeps.below ((hiff r).1 h.meets)⟩

end Bindings

section Matching

variable {b b' r t t' : Bindings} {e : Event} {v : Json} {c : Constraint}
  {fields : Dict String Constraint} {p q : Pattern}

/-! ## One constraint -/

/-- A value satisfies a constraint when variables have the values of some bindings. -/
def Constraint.Holds (v : Json) (t : Bindings) : Constraint → Prop
  | .any => True
  | .literal expected => expected.same v = true
  | .var x => ∃ w, Dict.get? t x = some w ∧ w.same v = true

theorem Constraint.Holds.mono (hc : c.Holds v t) (ht : t.Below t') : c.Holds v t' := by
  cases c with
  | any => trivial
  | literal expected => exact hc
  | var x =>
    obtain ⟨w, hw, hwv⟩ := hc
    obtain ⟨u, hu, hwu⟩ := ht x w hw
    exact ⟨u, hu, Json.same_trans (Json.same_symm hwu) hwv⟩

/-- A constraint that some larger bindings satisfy is satisfied. -/
theorem Constraint.exists_match? (ht : b.Below t) (hc : c.Holds v t) :
    ∃ r, c.match? v b = some r := by
  cases c with
  | any => exact ⟨b, rfl⟩
  | literal expected => exact ⟨b, if_pos hc⟩
  | var x =>
    rw [match?]
    split
    · next w hw =>
      -- The variable is bound, and the larger bindings have the field's value for it.
      obtain ⟨u, hu, hwu⟩ := ht x w hw
      obtain ⟨u', hu', huv⟩ := hc
      cases hu.symm.trans hu'
      exact ⟨b, if_pos (Json.same_trans hwu huv)⟩
    · exact ⟨_, rfl⟩

/-- Bindings that satisfy a constraint are not changed by it. -/
theorem Constraint.match?_of_holds (hc : c.Holds v b) : c.match? v b = some b := by
  cases c with
  | any => rfl
  | literal expected => exact if_pos hc
  | var x =>
    obtain ⟨w, hw, hwv⟩ := hc
    simp only [match?, hw, hwv, if_true]

theorem Constraint.completed_match? (h : c.match? v b = some r) :
    b.Completed (c.Holds v) c.binder?.toList r := by
  cases c with
  | any =>
    cases h
    exact Bindings.completed_self trivial nofun
  | literal expected =>
    obtain ⟨hsame, ⟨⟩⟩ := Option.ite_none_right_eq_some.1 h
    exact Bindings.completed_self hsame nofun
  | var x =>
    rw [match?] at h
    split at h
    · next w hw =>
      obtain ⟨hsame, ⟨⟩⟩ := Option.ite_none_right_eq_some.1 h
      refine Bindings.completed_self ⟨w, hw, hsame⟩ fun y hy => ?_
      rw [show y = x from List.mem_singleton.1 hy, hw]
      rfl
    · next hx =>
      cases h
      refine ⟨Bindings.extended_put hx v, ⟨v, Dict.get?_put_self b x v, v.same_refl⟩, ?_, ?_⟩
      · -- Whatever else satisfies the constraint has the same value under the new name.
        rintro t ht ⟨w, hw, hwv⟩ y u hu
        rw [Dict.get?_put] at hu
        split at hu
        · next heq =>
          cases hu
          exact ⟨w, heq ▸ hw, Json.same_symm hwv⟩
        · exact ht y u hu
      · intro y
        rw [Dict.get?_put, show y ∈ (Constraint.var x).binder?.toList ↔ y = x from
          List.mem_singleton]
        split
        · next heq => exact ⟨fun _ => .inr heq, fun _ => rfl⟩
        · next hne => exact ⟨.inl, fun h => h.resolve_right hne⟩

/-! ## All of them -/

namespace Pattern

/-- Every field is there, and its value satisfies the constraint on it. -/
def Demand (e : Event) (fields : Dict String Constraint) (t : Bindings) : Prop :=
  ∀ f ∈ fields, ∃ v, e.field? f.1 = some v ∧ f.2.Holds v t

/-- An event satisfies a pattern when variables have the values of some bindings. -/
structure Holds (p : Pattern) (e : Event) (t : Bindings) : Prop where
  name : p.name = e.name
  fields : Demand e p.fields t

theorem demand_cons {path : String} (hv : e.field? path = some v) :
    Demand e ((path, c) :: fields) t ↔ c.Holds v t ∧ Demand e fields t := by
  rw [Demand, List.forall_mem_cons, ← Demand]
  refine and_congr_left fun _ => ⟨?_, fun hc => ⟨v, hv, hc⟩⟩
  rintro ⟨w, hw, hc⟩
  cases hw.symm.trans hv
  exact hc

/-- Fields can be satisfied one after the other if larger bindings satisfy all of them at once. -/
theorem exists_matchFields? (ht : b.Below t) (hd : Demand e fields t) :
    ∃ r, matchFields? e b fields = some r := by
  induction fields generalizing b with
  | nil => exact ⟨b, rfl⟩
  | cons f fields ih =>
    obtain ⟨path, c⟩ := f
    obtain ⟨v, hv, -⟩ := hd _ List.mem_cons_self
    obtain ⟨hc, hrest⟩ := (demand_cons hv).1 hd
    obtain ⟨d, hm⟩ := Constraint.exists_match? ht hc
    obtain ⟨r, hr⟩ := ih ((Constraint.completed_match? hm).least t ht hc) hrest
    refine ⟨r, ?_⟩
    simp only [matchFields?, hv, hm, Option.bind_eq_bind, Option.bind_some]
    exact hr

/-- **Visiting the fields completes the bindings.** -/
theorem completed_matchFields? (h : matchFields? e b fields = some r) :
    b.Completed (Demand e fields) ((Dict.values fields).filterMap Constraint.binder?) r := by
  induction fields generalizing b with
  | nil =>
    cases h
    exact Bindings.completed_self nofun nofun
  | cons f fields ih =>
    obtain ⟨path, c⟩ := f
    simp only [matchFields?, Option.bind_eq_bind, Option.bind_eq_some_iff] at h
    obtain ⟨v, hv, d, hm, h⟩ := h
    have hall := (Constraint.completed_match? hm).trans (ih h) fun ht hc => hc.mono ht
    have hvars : (Dict.values ((path, c) :: fields)).filterMap Constraint.binder? =
        c.binder?.toList ++ (Dict.values fields).filterMap Constraint.binder? := by
      rw [Dict.values, List.map_cons, List.filterMap_cons]
      cases c.binder? <;> rfl
    rw [hvars, show Demand e ((path, c) :: fields) = fun t => c.Holds v t ∧ Demand e fields t from
      funext fun t => propext (demand_cons hv)]
    exact hall

theorem completed_match? (h : p.match? e b = some r) : b.Completed (p.Holds e) p.binders r := by
  rw [match?] at h
  split at h
  · next hname =>
    have hall := completed_matchFields? h
    exact ⟨hall.keeps, ⟨hname, hall.meets⟩, fun t ht hp => hall.least t ht hp.fields, hall.bound⟩
  · cases h

/-- A pattern matches if larger bindings satisfy it. -/
theorem exists_match? (ht : b.Below t) (hp : p.Holds e t) : ∃ r, p.match? e b = some r := by
  rw [match?, if_pos hp.name]
  exact exists_matchFields? ht hp.fields

theorem matchFields?_of_demand (hd : Demand e fields b) : matchFields? e b fields = some b := by
  induction fields with
  | nil => rfl
  | cons f fields ih =>
    obtain ⟨path, c⟩ := f
    obtain ⟨v, hv, -⟩ := hd _ List.mem_cons_self
    obtain ⟨hc, hrest⟩ := (demand_cons hv).1 hd
    simp only [matchFields?, hv, Constraint.match?_of_holds hc, Option.bind_eq_bind,
      Option.bind_some]
    exact ih hrest

/-- Bindings that satisfy a pattern are not changed by a match. -/
theorem match?_of_holds (hp : p.Holds e b) : p.match? e b = some b := by
  rw [match?, if_pos hp.name]
  exact matchFields?_of_demand hp.fields

/-- What a match of a pattern with an event under some bindings comes to. -/
structure Decided (p : Pattern) (e : Event) (b : Bindings) : Prop where
  /-- It succeeds exactly if some extension satisfies the pattern. -/
  satisfiable : (p.match? e b).isSome = true ↔ ∃ t, b.Extended t ∧ p.Holds e t
  /-- It leaves the least such extension, with the pattern's variables added. -/
  least : ∀ r ∈ p.match? e b, b.Completed (p.Holds e) p.binders r
  /-- The order of the fields does not matter. -/
  unordered : ∀ q : Pattern, q.name = p.name → q.fields.Perm p.fields →
    Option.Rel Bindings.Alike (p.match? e b) (q.match? e b)
  /-- A second match changes nothing. -/
  settled : ∀ r ∈ p.match? e b, p.match? e r = some r
  /-- Smaller bindings match too. -/
  downward : ∀ b' : Bindings, b'.Below b → (p.match? e b).isSome = true →
    (p.match? e b').isSome = true

theorem holds_congr (hname : q.name = p.name) (hperm : q.fields.Perm p.fields) (t : Bindings) :
    p.Holds e t ↔ q.Holds e t :=
  ⟨fun h => ⟨hname.trans h.name, fun f hf => h.fields f (hperm.mem_iff.1 hf)⟩,
    fun h => ⟨hname.symm.trans h.name, fun f hf => h.fields f (hperm.mem_iff.2 hf)⟩⟩

/-- **A match decides whether some extension of the bindings satisfies the pattern, and leaves the
least one.** -/
theorem match?_decides (p : Pattern) (e : Event) (b : Bindings) : p.Decided e b where
  satisfiable := by
    rw [Option.isSome_iff_exists]
    constructor
    · rintro ⟨r, hr⟩
      exact ⟨r, (completed_match? hr).keeps, (completed_match? hr).meets⟩
    · rintro ⟨t, ht, hp⟩
      exact exists_match? ht.below hp
  least _ hr := completed_match? hr
  unordered q hname hperm := by
    have hiff := holds_congr (e := e) hname hperm
    cases hp : p.match? e b with
    | some r =>
      have hr := completed_match? hp
      obtain ⟨r', hq⟩ := exists_match? hr.keeps.below ((hiff r).1 hr.meets)
      rw [hq]
      exact .some (hr.alike (completed_match? hq) hiff)
    | none =>
      cases hq : q.match? e b with
      | some r' =>
        have hr := completed_match? hq
        obtain ⟨r, hr⟩ := exists_match? hr.keeps.below ((hiff r').2 hr.meets)
        cases hp.symm.trans hr
      | none => exact .none
  settled _ hr := match?_of_holds (completed_match? hr).meets
  downward b' hb' h := by
    obtain ⟨r, hr⟩ := Option.isSome_iff_exists.1 h
    have hall := completed_match? hr
    exact Option.isSome_iff_exists.2 (exists_match? (hb'.trans hall.keeps.below) hall.meets)

/-! ## Two zeros -/

/-- Zero, with and without a sign. -/
def signed (negative : Bool) : Json :=
  .num (.double (if negative then ⟨0x8000000000000000, by decide⟩ else .zero))

/-- Two fields that are to be equal, in one order. -/
def pair : Pattern := ⟨"pair", [("a", .var "x"), ("b", .var "x")]⟩

/-- And in the other one. -/
def flipped : Pattern := ⟨"pair", [("b", .var "x"), ("a", .var "x")]⟩

/-- An event with both zeros. -/
def zeros : Event where
  id := ⟨"1"⟩
  name := "pair"
  payload := [("a", signed false), ("b", signed true)]
  source := .external

/-- Which of the zeros is captured depends on the order, but that one is captured does not. -/
theorem match?_decides_zeros :
    pair.match? zeros [] = some [("x", signed false)] ∧
      flipped.match? zeros [] = some [("x", signed true)] ∧
      Option.Rel Bindings.Alike (pair.match? zeros []) (flipped.match? zeros []) ∧
      pair.match? zeros [("x", signed true)] = some [("x", signed true)] :=
  ⟨rfl, rfl, (match?_decides pair zeros []).unordered flipped rfl (.swap ..),
    (match?_decides pair zeros [("x", signed true)]).settled _ rfl⟩

end Pattern

end Matching

end EventFlow

import EventFlow.Flow.Record
import EventFlow.Proofs.Flow.Parts
import EventFlow.Proofs.Instance.Record
import EventFlow.Query.Eval

/-!
# Flows read back

What a flow is written as reads as the flow, at whatever depth its elements are nested, under two
conditions.  Priorities and durations have to fit into the words they are written in (`Flow.Fits`).
And variables are written as their texts, so a variable of a head must not have a name that reads as
one of the conversation (`Flow.Legible`).  A flow that was read meets both, so writing it and
reading it again changes nothing.

## What is here

* `Element.references` are the variables an element refers to.
* `Template.ofJson?_toJson`, `SendSpec.ofJson?_toJson` and `CallSpec.ofFields?_members` read parts
  of elements back, and `Element.ofJson?_toJson` elements with all that is nested in them.
* `Element.readable_of_ofJson?`: what was read can be written and read again.
* **`flows_are_read_back`** says both of flows.
-/

set_option autoImplicit false

namespace EventFlow

section

variable {Compiled Found : Type} [Query.Library Compiled Found]

/-! ## What was read -/

namespace Json

variable {α : Type} {read : Json → Option α} {fields : Dict String Json} {key : String} {j : Json}

/-- The values of a map that was read were read. -/
theorem exists_of_dictOf? {d : Dict String α} (h : dictOf? read j = some d) :
    ∀ a ∈ Dict.values d, ∃ i, read i = some a := by
  rw [dictOf?, Option.bind_eq_bind, Option.bind_eq_some_iff] at h
  obtain ⟨fields, -, h⟩ := h
  induction fields generalizing d with
  | nil =>
    cases h
    exact nofun
  | cons f fields ih =>
    rw [List.mapM_cons, Option.bind_eq_bind, Option.bind_eq_some_iff] at h
    obtain ⟨e, he, h⟩ := h
    rw [Option.bind_eq_bind, Option.bind_eq_some_iff] at h
    obtain ⟨rest, hrest, h⟩ := h
    obtain ⟨a, ha, rfl⟩ := Option.map_eq_some_iff.1 he
    cases h
    exact List.forall_mem_cons.2 ⟨⟨f.2, ha⟩, ih hrest⟩

theorem exists_of_optional {o : Option α} (h : optional fields key read = some o) :
    ∀ a ∈ o, ∃ i, read i = some a := by
  rintro a rfl
  rw [optional] at h
  split at h
  · cases h
  · next i _ =>
    cases i with
    | null => cases h
    | _ =>
      obtain ⟨b, hb, hsome⟩ := Option.map_eq_some_iff.1 h
      exact ⟨_, hb.trans hsome⟩

theorem exists_of_required {a : α} (h : required fields key read = some a) :
    ∃ i, (key, i) ∈ fields ∧ read i = some a := by
  obtain ⟨i, hi, h⟩ := Option.bind_eq_some_iff.1 h
  exact ⟨i, Dict.mem_of_get? hi, h⟩

theorem exists_of_orElse {a default : α} (h : orElse fields key default read = some a) :
    a = default ∨ ∃ i, (key, i) ∈ fields ∧ read i = some a := by
  rw [orElse] at h
  split at h
  · exact .inl (Option.some.inj h).symm
  · next i hi => exact .inr ⟨i, Dict.mem_of_get? hi, h⟩

theorem lt_of_nat64? {n : Nat} (h : nat64? j = some n) : n < UInt64.size := by
  rw [nat64?, nat?.eq_def] at h
  split at h
  · split at h
    · next hrange =>
      cases h
      omega
    · cases h
  · cases h

theorem range_of_int32? {n : Int} (h : int32? j = some n) :
    -Numeral.int32Bound ≤ n ∧ n < Numeral.int32Bound := by
  rw [int32?, int?.eq_def] at h
  split at h
  · split at h
    · next hrange =>
      cases h
      exact hrange
    · cases h
  · cases h

end Json

/-! ## Variables -/

namespace Variable

/-- What was read is told by its text. -/
theorem legible_of_ofJson? {j : Json} {v : Variable} (h : ofJson? j = some v) : v.Legible := by
  obtain ⟨s, -, rfl⟩ := Option.map_eq_some_iff.1 h
  exact legible_ofText s

theorem legible_of_optional {fields : Dict String Json} {key : String} {o : Option Variable}
    (h : Json.optional fields key ofJson? = some o) : ∀ v ∈ o.toList, v.Legible := by
  intro v hv
  obtain ⟨i, hi⟩ := Json.exists_of_optional h v (Option.mem_toList.1 hv)
  exact legible_of_ofJson? hi

/-- A variable that may be absent is read back. -/
theorem nullable_option {o : Option Variable} (h : ∀ v ∈ o, v.Legible) :
    Json.nullable ofJson? (Json.option toJson o) = some o :=
  Json.nullable_option fun v hv => ⟨rfl, ofJson?_toJson (h v hv)⟩

end Variable

/-- The variable a template refers to. -/
def Template.variable? : Template → Option Variable
  | var v => some v
  | literal _ | expr _ => none

/-- The variables that a map of templates refers to. -/
def variablesOf (templates : Dict String Template) : List Variable :=
  (Dict.values templates).filterMap Template.variable?

/-- The variables a call refers to. -/
def CallSpec.references (c : CallSpec) : List Variable :=
  variablesOf c.args ++ c.result.toList ++ c.invocation.toList

/-- The variables an element refers to. -/
def Element.references : Element → List Variable
  | .send event => variablesOf event.payload
  | .call spec => spec.references
  | .assign target value => target :: value.variable?.toList
  | .startTimer _ timer => timer.toList
  | .startFlow _ child => child.toList
  | _ => []

/-! ## Parts of elements -/

section Parts

variable {d : Json.Depth} {j : Json}

theorem Template.ofJson?_toJson {t : Template} (h : ∀ v ∈ t.variable?, v.Legible) :
    ofJson? d t.toJson = some t := by
  cases t with
  | literal value =>
    simp [ofJson?, toJson, Json.required, Dict.get?_cons, Json.tag?]
  | var v =>
    have hv := Variable.ofJson?_toJson (h v rfl)
    simp [ofJson?, toJson, Json.required, Dict.get?_cons, Json.tag?, hv]
  | expr expression =>
    simp [ofJson?, toJson, Json.required, Dict.get?_cons, Json.tag?, Json.str?]

theorem Template.legible_of_ofJson? {t : Template} (h : ofJson? d j = some t) :
    ∀ v ∈ t.variable?, v.Legible := by
  rw [ofJson?, Option.bind_eq_bind, Option.bind_eq_some_iff] at h
  obtain ⟨fields, -, h⟩ := h
  rw [Option.bind_eq_bind, Option.bind_eq_some_iff] at h
  obtain ⟨kind, -, h⟩ := h
  split at h
  · obtain ⟨value, -, rfl⟩ := Option.map_eq_some_iff.1 h
    exact nofun
  · obtain ⟨v, hv, rfl⟩ := Option.map_eq_some_iff.1 h
    obtain ⟨i, -, hi⟩ := Json.exists_of_required hv
    rintro w ⟨⟩
    exact Variable.legible_of_ofJson? hi
  · obtain ⟨expression, -, rfl⟩ := Option.map_eq_some_iff.1 h
    exact nofun
  · cases h

/-- The variables that a map of templates refers to that was read are told by their texts. -/
theorem legible_of_dictOf? {fields : Dict String Json} {key : String}
    {templates : Dict String Template}
    (h : Json.orElse fields key [] (Json.dictOf? (Template.ofJson? d)) = some templates) :
    ∀ v ∈ variablesOf templates, v.Legible := by
  intro v hv
  obtain ⟨t, ht, hv⟩ := List.mem_filterMap.1 hv
  rcases Json.exists_of_orElse h with rfl | ⟨i, -, hi⟩
  · cases ht
  · obtain ⟨k, hk⟩ := Json.exists_of_dictOf? hi t ht
    exact Template.legible_of_ofJson? hk v hv

/-- A map of templates is read back. -/
theorem Template.dictOf?_ofDict {templates : Dict String Template}
    (h : ∀ v ∈ variablesOf templates, v.Legible) :
    Json.dictOf? (ofJson? d) (Json.ofDict toJson templates) = some templates := by
  have hall : ∀ e ∈ templates, ofJson? d (toJson e.2) = some (id e.2) := fun e he =>
    ofJson?_toJson fun v hv =>
      h v (List.mem_filterMap.2 ⟨e.2, List.mem_map_of_mem he, hv⟩)
  exact (Json.dictOf?_map id toJson id hall).trans (congrArg some (List.map_id templates))

theorem Competition.ofJson?_toJson (c : Competition) : ofJson? d c.toJson = some c := by
  cases c <;>
    simp [ofJson?, toJson, Json.required, Json.orElse, Dict.get?_cons, Json.tag?, Json.str?]

theorem Delivery.ofJson?_toJson (x : Delivery) : ofJson? d x.toJson = some x := by cases x <;> rfl

theorem CallMode.ofJson?_toJson (m : CallMode) : ofJson? m.toJson = some m := by cases m <;> rfl

theorem SendSpec.ofJson?_toJson {s : SendSpec} (h : ∀ v ∈ variablesOf s.payload, v.Legible) :
    ofJson? d s.toJson = some s := by
  have hpayload := Template.dictOf?_ofDict (d := d) h
  simp [ofJson?, toJson, Json.required, Json.orElse, Dict.get?_cons, Json.str?, hpayload,
    Delivery.ofJson?_toJson, Competition.ofJson?_toJson]

theorem CallSpec.ofFields?_members {c : CallSpec} (h : ∀ v ∈ c.references, v.Legible) :
    ofFields? (Dict.ofList (("type", .str "execute_action") :: c.members)) = some c := by
  rw [references, List.forall_mem_append, List.forall_mem_append] at h
  have hargs := Template.dictOf?_ofDict (d := .inner) h.1.1
  have hresult := Variable.nullable_option fun v hv => h.1.2 v (Option.mem_toList.2 hv)
  have hinvocation := Variable.nullable_option fun v hv => h.2 v (Option.mem_toList.2 hv)
  simp [ofFields?, members, Json.required, Json.orElse, Json.optional, Dict.get?_cons, Json.str?,
    hargs, hresult, hinvocation, CallMode.ofJson?_toJson, Competition.ofJson?_toJson]

theorem SendSpec.legible_of_ofJson? {s : SendSpec} (h : ofJson? d j = some s) :
    ∀ v ∈ variablesOf s.payload, v.Legible := by
  simp only [ofJson?, Option.bind_eq_bind, Option.bind_eq_some_iff] at h
  obtain ⟨fields, -, name, -, payload, hpayload, delivery, -, competition, -, ⟨⟩⟩ := h
  exact legible_of_dictOf? hpayload

theorem CallSpec.legible_of_ofFields? {fields : Dict String Json} {c : CallSpec}
    (h : ofFields? fields = some c) : ∀ v ∈ c.references, v.Legible := by
  simp only [ofFields?, Option.bind_eq_bind, Option.bind_eq_some_iff] at h
  obtain ⟨action, -, args, hargs, result, hresult, mode, -, invocation, hinvocation, competition, -,
    ⟨⟩⟩ := h
  rw [references, List.forall_mem_append, List.forall_mem_append]
  exact ⟨⟨legible_of_dictOf? hargs, Variable.legible_of_optional hresult⟩,
    Variable.legible_of_optional hinvocation⟩

end Parts

/-! ## Elements -/

/-- The number of an element fits into its word. -/
def Element.Fits : Element → Prop
  | .startTimer duration _ => duration < UInt64.size
  | _ => True

/-- An element, whatever is nested in it, can be written and read again. -/
structure Element.Readable (e : Element) : Prop where
  fits : e.Fits
  legible : ∀ v ∈ e.references, v.Legible

section Elements

variable {d : Json.Depth} {e x : Element} {es b : List Element}

variable {j : Json} {m : Json.Members j}

/-- The sequences of a branch are members that may be missing. -/
theorem Element.ofJson?_branch (h : j.tagged? d "type" rows = some ("branch", m)) :
    ofJson? d j = do
      let condition ← Json.required m.fields "condition" Json.str?
      let yes ← Json.orElse m.fields "then" [] (bodyOfJson? .inner)
      let no ← Json.orElse m.fields "else" [] (bodyOfJson? .inner)
      return .branch condition yes no := by
  rw [ofJson?, h, Json.orElse, Json.orElse, m.get?_fields, m.get?_fields]
  dsimp only [Option.bind_eq_bind, Option.bind_some]
  cases m.get? "then" <;> cases m.get? "else" <;> rfl

/-- The branches of a fork are a member. -/
theorem Element.ofJson?_fork (h : j.tagged? d "type" rows = some ("fork", m)) :
    ofJson? d j = (Json.required m.fields "branches" (branchesOfJson? .inner)).map .fork := by
  rw [ofJson?, h, Json.required, m.get?_fields]
  dsimp only [Option.bind_eq_bind, Option.bind_some]
  cases m.get? "branches" <;> rfl

/-- The arms of a race are a member. -/
theorem Element.ofJson?_race (h : j.tagged? d "type" rows = some ("when", m)) :
    ofJson? d j = (Json.required m.fields "arms" (armsOfJson? .inner)).map .race := by
  rw [ofJson?, h, Json.required, m.get?_fields]
  dsimp only [Option.bind_eq_bind, Option.bind_some]
  cases m.get? "arms" <;> rfl

/-- The sequence of an arm is a member that may be missing. -/
theorem armOfJson?_eq (d : Json.Depth) (j : Json) :
    armOfJson? d j = do
      let m ← j.members? ⟨["pattern"], ["body"]⟩
      let pattern ← Json.required m.fields "pattern" (Pattern.ofJson? d)
      let body ← Json.orElse m.fields "body" [] (bodyOfJson? d)
      return (pattern, body) := by
  rw [armOfJson?]
  congr
  funext m
  rw [Json.orElse, m.get?_fields]
  cases m.get? "body" <;> rfl

mutual

/-- **An element is read back, with all that is nested in it.** -/
theorem Element.ofJson?_toJson (d : Json.Depth) : ∀ e : Element,
    (∀ x, Occurs x [e] → x.Readable) → Element.ofJson? d e.toJson = some e
  | .branch condition yes no, h => by
    have hyes := bodyOfItems?_bodyToJson .inner yes fun x hx => h x (hx.part List.mem_cons_self)
    have hno := bodyOfItems?_bodyToJson .inner no fun x hx =>
      h x (hx.part (List.mem_cons_of_mem _ (List.mem_singleton_self _)))
    rw [Element.toJson, Json.object,
      Element.ofJson?_branch (Json.tagged?_object (by decide) (by simp))]
    simp [Json.required, Json.orElse, Dict.get?_cons, Json.str?, bodyOfJson?, hyes, hno]
  | .fork branches, h => by
    have hbranches := branchesOfItems?_branchesToJson .inner branches fun x b hb hx =>
      h x (hx.part hb)
    rw [Element.toJson, Json.object,
      Element.ofJson?_fork (Json.tagged?_object (by decide) (by simp))]
    simp [Json.required, Dict.get?_cons, branchesOfJson?, hbranches]
  | .race arms, h => by
    have harms := armsOfItems?_armsToJson .inner arms fun x b hb hx => h x (hx.part hb)
    rw [Element.toJson, Json.object,
      Element.ofJson?_race (Json.tagged?_object (by decide) (by simp))]
    simp [Json.required, Dict.get?_cons, armsOfJson?, harms]
  | .expect pattern, _ => by
    rw [Element.toJson, Json.object, Element.ofJson?, Json.tagged?_object (by decide) (by simp)]
    simp [Json.required, Dict.get?_cons, Pattern.ofJson?_toJson]
  | .send event, h => by
    have hevent := SendSpec.ofJson?_toJson (d := .inner) (h _ (.here List.mem_cons_self)).legible
    rw [Element.toJson, Json.object, Element.ofJson?, Json.tagged?_object (by decide) (by simp)]
    simp [Json.required, Dict.get?_cons, hevent]
  | .call spec, h => by
    have hspec := CallSpec.ofFields?_members (h _ (.here List.mem_cons_self)).legible
    rw [Element.toJson, Json.object, Element.ofJson?,
      Json.tagged?_object (by decide) (by simp [CallSpec.members])]
    simp [hspec]
  | .join, _ => by
    rw [Element.toJson, Json.object, Element.ofJson?, Json.tagged?_object (by decide) (by simp)]
    simp [Json.required]
  | .assign target value, h => by
    obtain ⟨htarget, hvalue⟩ := List.forall_mem_cons.1 (h _ (.here List.mem_cons_self)).legible
    have htarget := Variable.ofJson?_toJson htarget
    have hvalue := Template.ofJson?_toJson (d := .inner) fun v hv =>
      hvalue v (Option.mem_toList.2 hv)
    rw [Element.toJson, Json.object, Element.ofJson?, Json.tagged?_object (by decide) (by simp)]
    simp [Json.required, Dict.get?_cons, htarget, hvalue]
  | .startTimer duration timer, h => by
    obtain ⟨hfits, hlegible⟩ := h _ (.here List.mem_cons_self)
    have hduration := Json.nat64?_ofNat hfits
    have htimer := Variable.nullable_option fun v hv => hlegible v (Option.mem_toList.2 hv)
    rw [Element.toJson, Json.object, Element.ofJson?, Json.tagged?_object (by decide) (by simp)]
    simp -implicitDefEqProofs [Json.required, Json.optional, Dict.get?_cons,
      hduration, htimer]
  | .startFlow flow child, h => by
    have hchild := Variable.nullable_option fun v hv =>
      (h _ (.here List.mem_cons_self)).legible v (Option.mem_toList.2 hv)
    rw [Element.toJson, Json.object, Element.ofJson?, Json.tagged?_object (by decide) (by simp)]
    simp [Json.required, Json.optional, Dict.get?_cons, Json.str?,
      hchild]
  | .abort reason, _ => by
    rw [Element.toJson, Json.object, Element.ofJson?, Json.tagged?_object (by decide) (by simp)]
    simp [Json.required, Dict.get?_cons, Json.str?]

theorem bodyOfItems?_bodyToJson (d : Json.Depth) : ∀ es : List Element,
    (∀ x, Occurs x es → x.Readable) → bodyOfItems? d (bodyToJson es) = some es
  | [], _ => by rw [bodyToJson, bodyOfItems?]
  | e :: es, h => by
    have he := Element.ofJson?_toJson d e fun x hx =>
      h x (hx.subset (List.cons_subset_cons e (List.nil_subset es)))
    have hes := bodyOfItems?_bodyToJson d es fun x hx =>
      h x (hx.subset (List.subset_cons_self e es))
    rw [bodyToJson, bodyOfItems?, he, hes]
    rfl

theorem branchesOfItems?_branchesToJson (d : Json.Depth) : ∀ branches : List (List Element),
    (∀ x, ∀ b ∈ branches, Occurs x b → x.Readable) →
      branchesOfItems? d (branchesToJson branches) = some branches
  | [], _ => by rw [branchesToJson, branchesOfItems?]
  | b :: bs, h => by
    rw [branchesToJson, branchesOfItems?, bodyOfJson?,
      bodyOfItems?_bodyToJson d b fun x hx => h x b List.mem_cons_self hx,
      branchesOfItems?_branchesToJson d bs fun x c hc hx => h x c (List.mem_cons_of_mem b hc) hx]
    rfl

theorem armsOfItems?_armsToJson (d : Json.Depth) : ∀ arms : List (Pattern × List Element),
    (∀ x, ∀ b ∈ arms.map Prod.snd, Occurs x b → x.Readable) →
      armsOfItems? d (armsToJson arms) = some arms
  | [], _ => by rw [armsToJson, armsOfItems?]
  | (pattern, b) :: arms, h => by
    have hbody := bodyOfItems?_bodyToJson d b fun x hx => h x b List.mem_cons_self hx
    have harms := armsOfItems?_armsToJson d arms fun x c hc hx =>
      h x c (List.mem_cons_of_mem b hc) hx
    have harm : armOfJson? d (.object
        [("pattern", pattern.toJson), ("body", .arr (bodyToJson b))]) = some (pattern, b) := by
      rw [armOfJson?_eq, Json.object, Json.members?_obj]
      simp [Json.required, Json.orElse, Dict.get?_cons, Pattern.ofJson?_toJson, bodyOfJson?, hbody]
    rw [armsToJson, armsOfItems?, harm, harms]
    rfl

end

theorem Element.readable_of_parts (hparts : e.parts = []) (he : e.Readable) :
    ∀ x, Occurs x [e] → x.Readable := by
  intro x hx
  rcases occurs_singleton.1 hx with rfl | ⟨b, hb, -⟩
  · exact he
  · rw [hparts] at hb
    cases hb

/-- A sequence that may be missing can be written and read again if it can when it is there. -/
theorem readable_of_orElse {fields : Dict String Json} {key : String}
    (h : Json.orElse fields key [] (bodyOfJson? d) = some es)
    (hread : ∀ i, (key, i) ∈ fields → bodyOfJson? d i = some es →
      ∀ x, Occurs x es → x.Readable) : ∀ x, Occurs x es → x.Readable := by
  rcases Json.exists_of_orElse h with rfl | ⟨i, hmem, hi⟩
  · exact fun x hx => absurd hx not_occurs_nil
  · exact hread i hmem hi

/-- An element with sequences can be written and read again if these can. -/
theorem Element.readable_of_nested (hfits : e.Fits) (hplain : e.references = [])
    (hparts : ∀ b ∈ e.parts, ∀ x, Occurs x b → x.Readable) : ∀ x, Occurs x [e] → x.Readable := by
  intro x hx
  rcases occurs_singleton.1 hx with rfl | ⟨b, hb, hx⟩
  · exact ⟨hfits, hplain ▸ nofun⟩
  · exact hparts b hb x hx

mutual

/-- **An element that was read can be written and read again.** -/
theorem Element.readable_of_ofJson? (d : Json.Depth) (j : Json) {e : Element}
    (h : Element.ofJson? d j = some e) : ∀ x, Occurs x [e] → x.Readable := by
  have hread := h
  rw [Element.ofJson?, Option.bind_eq_bind, Option.bind_eq_some_iff] at h
  obtain ⟨⟨type, m⟩, htype, h⟩ := h
  dsimp only at h
  split at h
  case h_1 =>
    obtain ⟨pattern, -, rfl⟩ := Option.map_eq_some_iff.1 h
    exact Element.readable_of_parts rfl ⟨trivial, nofun⟩
  case h_2 =>
    obtain ⟨event, hevent, rfl⟩ := Option.map_eq_some_iff.1 h
    obtain ⟨i, -, hi⟩ := Json.exists_of_required hevent
    exact Element.readable_of_parts rfl ⟨trivial, SendSpec.legible_of_ofJson? hi⟩
  case h_3 =>
    obtain ⟨spec, hspec, rfl⟩ := Option.map_eq_some_iff.1 h
    exact Element.readable_of_parts rfl ⟨trivial, CallSpec.legible_of_ofFields? hspec⟩
  case h_4 =>
    rw [Element.ofJson?_branch htype] at hread
    simp only [Option.bind_eq_bind, Option.bind_eq_some_iff] at hread
    obtain ⟨condition, -, yes, hyes, no, hno, ⟨⟩⟩ := hread
    refine Element.readable_of_nested trivial rfl (List.forall_mem_cons.2 ⟨?_,
      List.forall_mem_singleton.2 ?_⟩)
    · exact readable_of_orElse hyes fun i hmem hi =>
        have := m.smaller _ hmem
        readable_of_bodyOfJson? .inner i hi
    · exact readable_of_orElse hno fun i hmem hi =>
        have := m.smaller _ hmem
        readable_of_bodyOfJson? .inner i hi
  case h_5 =>
    rw [Element.ofJson?_fork htype] at hread
    obtain ⟨branches, hbranches, rfl⟩ := Option.map_eq_some_iff.1 hread
    obtain ⟨i, hmem, hi⟩ := Json.exists_of_required hbranches
    have := m.smaller _ hmem
    exact Element.readable_of_nested trivial rfl (readable_of_branchesOfJson? .inner i hi)
  case h_6 =>
    cases h
    exact Element.readable_of_parts rfl ⟨trivial, nofun⟩
  case h_7 =>
    rw [Element.ofJson?_race htype] at hread
    obtain ⟨arms, harms, rfl⟩ := Option.map_eq_some_iff.1 hread
    obtain ⟨i, hmem, hi⟩ := Json.exists_of_required harms
    have := m.smaller _ hmem
    exact Element.readable_of_nested trivial rfl (readable_of_armsOfJson? .inner i hi)
  case h_8 =>
    simp only [Option.bind_eq_bind, Option.bind_eq_some_iff] at h
    obtain ⟨target, htarget, value, hvalue, ⟨⟩⟩ := h
    obtain ⟨i, -, hi⟩ := Json.exists_of_required htarget
    obtain ⟨k, -, hk⟩ := Json.exists_of_required hvalue
    exact Element.readable_of_parts rfl ⟨trivial, List.forall_mem_cons.2
      ⟨Variable.legible_of_ofJson? hi, fun v hv =>
        Template.legible_of_ofJson? hk v (Option.mem_toList.1 hv)⟩⟩
  case h_9 =>
    simp only [Option.bind_eq_bind, Option.bind_eq_some_iff] at h
    obtain ⟨duration, hduration, timer, htimer, ⟨⟩⟩ := h
    obtain ⟨i, -, hi⟩ := Json.exists_of_required hduration
    exact Element.readable_of_parts rfl
      ⟨Json.lt_of_nat64? hi, Variable.legible_of_optional htimer⟩
  case h_10 =>
    simp only [Option.bind_eq_bind, Option.bind_eq_some_iff] at h
    obtain ⟨flow, -, child, hchild, ⟨⟩⟩ := h
    exact Element.readable_of_parts rfl ⟨trivial, Variable.legible_of_optional hchild⟩
  case h_11 =>
    obtain ⟨reason, -, rfl⟩ := Option.map_eq_some_iff.1 h
    exact Element.readable_of_parts rfl ⟨trivial, nofun⟩
  case h_12 => cases h
termination_by sizeOf j

theorem readable_of_bodyOfJson? (d : Json.Depth) : ∀ (j : Json) {es : List Element},
    bodyOfJson? d j = some es → ∀ x, Occurs x es → x.Readable
  | .arr items, es, h => by
    rw [bodyOfJson?] at h
    exact readable_of_bodyOfItems? d items h
  | .null, es, h | .bool _, es, h | .num _, es, h | .str _, es, h | .obj _, es, h => by
    rw [bodyOfJson?] at h
    · cases h
    · nofun
termination_by j => sizeOf j

theorem readable_of_bodyOfItems? (d : Json.Depth) : ∀ (js : List Json) {es : List Element},
    bodyOfItems? d js = some es → ∀ x, Occurs x es → x.Readable
  | [], es, h => by
    rw [bodyOfItems?] at h
    cases h
    exact fun x hx => absurd hx not_occurs_nil
  | j :: js, es, h => by
    simp only [bodyOfItems?, Option.bind_eq_bind, Option.bind_eq_some_iff] at h
    obtain ⟨e, he, rest, hrest, ⟨⟩⟩ := h
    intro x hx
    rcases occurs_cons.1 hx with hx | hx
    · exact Element.readable_of_ofJson? d j he x (occurs_singleton.2 hx)
    · exact readable_of_bodyOfItems? d js hrest x hx
termination_by js => sizeOf js

theorem readable_of_branchesOfJson? (d : Json.Depth) : ∀ (j : Json)
    {branches : List (List Element)}, branchesOfJson? d j = some branches →
      ∀ b ∈ branches, ∀ x, Occurs x b → x.Readable
  | .arr items, bs, h => by
    rw [branchesOfJson?] at h
    exact readable_of_branchesOfItems? d items h
  | .null, bs, h | .bool _, bs, h | .num _, bs, h | .str _, bs, h | .obj _, bs, h => by
    rw [branchesOfJson?] at h
    · cases h
    · nofun
termination_by j => sizeOf j

theorem readable_of_branchesOfItems? (d : Json.Depth) : ∀ (js : List Json)
    {branches : List (List Element)}, branchesOfItems? d js = some branches →
      ∀ b ∈ branches, ∀ x, Occurs x b → x.Readable
  | [], bs, h => by
    rw [branchesOfItems?] at h
    cases h
    exact nofun
  | j :: js, bs, h => by
    simp only [branchesOfItems?, Option.bind_eq_bind, Option.bind_eq_some_iff] at h
    obtain ⟨b, hb, rest, hrest, ⟨⟩⟩ := h
    exact List.forall_mem_cons.2
      ⟨readable_of_bodyOfJson? d j hb, readable_of_branchesOfItems? d js hrest⟩
termination_by js => sizeOf js

theorem readable_of_armsOfJson? (d : Json.Depth) : ∀ (j : Json)
    {arms : List (Pattern × List Element)}, armsOfJson? d j = some arms →
      ∀ b ∈ arms.map Prod.snd, ∀ x, Occurs x b → x.Readable
  | .arr items, arms, h => by
    rw [armsOfJson?] at h
    exact readable_of_armsOfItems? d items h
  | .null, arms, h | .bool _, arms, h | .num _, arms, h | .str _, arms, h | .obj _, arms, h => by
    rw [armsOfJson?] at h
    · cases h
    · nofun
termination_by j => sizeOf j

theorem readable_of_armsOfItems? (d : Json.Depth) : ∀ (js : List Json)
    {arms : List (Pattern × List Element)}, armsOfItems? d js = some arms →
      ∀ b ∈ arms.map Prod.snd, ∀ x, Occurs x b → x.Readable
  | [], arms, h => by
    rw [armsOfItems?] at h
    cases h
    exact nofun
  | j :: js, arms, h => by
    simp only [armsOfItems?, Option.bind_eq_bind, Option.bind_eq_some_iff] at h
    obtain ⟨arm, harm, rest, hrest, ⟨⟩⟩ := h
    exact List.forall_mem_cons.2
      ⟨readable_of_armOfJson? d j harm, readable_of_armsOfItems? d js hrest⟩
termination_by js => sizeOf js

theorem readable_of_armOfJson? (d : Json.Depth) (j : Json) {arm : Pattern × List Element}
    (h : armOfJson? d j = some arm) : ∀ x, Occurs x arm.2 → x.Readable := by
  simp only [armOfJson?_eq, Option.bind_eq_bind, Option.bind_eq_some_iff] at h
  obtain ⟨m, -, pattern, -, body, hbody, ⟨⟩⟩ := h
  exact readable_of_orElse hbody fun i hmem hi =>
    have := m.smaller _ hmem
    readable_of_bodyOfJson? d i hi
termination_by sizeOf j

end

end Elements

/-! ## Flows -/

/-- The numbers of a flow fit into their words. -/
structure Flow.Fits (f : Flow) : Prop where
  priority : ∀ n ∈ f.priority, -Numeral.int32Bound ≤ n ∧ n < Numeral.int32Bound
  elements : ∀ e, Occurs e f.body → e.Fits

/-- No variable of a head has a name that begins as the texts of the conversation's do. -/
def Flow.Legible (f : Flow) : Prop :=
  ∀ e, Occurs e f.body → ∀ v ∈ e.references, v.owner = .head →
    ¬ Variable.sharedMark.toList <+: v.name.toList

namespace Flow

variable {f : Flow} {j : Json}

/-- **A flow is read back.** -/
theorem ofJson?_toJson (hf : f.Fits) (hl : f.Legible) : ofJson? f.toJson = some f := by
  have hdescription : Json.nullable Json.str? (Json.option .str f.description) =
      some f.description :=
    Json.nullable_option fun _ _ => ⟨rfl, rfl⟩
  have hpriority : Json.nullable Json.int32? (Json.option .ofInt f.priority) = some f.priority :=
    Json.nullable_option fun n hn => ⟨rfl, Json.int32?_ofInt (hf.priority n hn)⟩
  have hactivation : Json.nullable (Pattern.ofJson? .outer)
      (Json.option Pattern.toJson f.activation) = some f.activation :=
    Json.nullable_option fun p _ => ⟨rfl, p.ofJson?_toJson⟩
  have hbody := bodyOfItems?_bodyToJson .outer f.body fun e he =>
    ⟨hf.elements e he, fun v hv => Variable.legible_iff.2 (hl e he v hv)⟩
  rw [ofJson?, toJson, Json.record?_object]
  simp -implicitDefEqProofs [Json.required, Json.optional, Json.orElse, Dict.get?_cons, Json.str?,
    hdescription, hpriority, hactivation, bodyOfJson?, hbody]

/-- A flow that was read can be written and read again. -/
theorem fits_and_legible_of_ofJson? (h : ofJson? j = some f) : f.Fits ∧ f.Legible := by
  simp only [ofJson?, Option.bind_eq_bind, Option.bind_eq_some_iff] at h
  obtain ⟨fields, -, id, -, description, -, priority, hpriority, activation, -, body, hbody, ⟨⟩⟩ :=
    h
  have hall : ∀ x, Occurs x body → x.Readable :=
    readable_of_orElse hbody fun i _ hi => readable_of_bodyOfJson? .outer i hi
  refine ⟨⟨fun n hn => ?_, fun e he => (hall e he).fits⟩, fun e he v hv =>
    Variable.legible_iff.1 ((hall e he).legible v hv)⟩
  obtain ⟨i, hi⟩ := Json.exists_of_optional hpriority n hn
  exact Json.range_of_int32? hi

/-- Flows may be written as arrays, and so may what is in them. -/
example :
    ofJson? (.arr [.str "f", .null, .null, .null, .arr [.arr [.str "abort", .str "r"]]]) =
      some ⟨⟨"f"⟩, none, none, none, [.abort "r"]⟩ := by
  simp [ofJson?, Json.record?, Json.members?, Json.Row.ofItems?, Json.required, Json.optional,
    Json.orElse, Json.nullable, Json.str?, Dict.get?_cons, bodyOfJson?, bodyOfItems?,
    Element.ofJson?, Json.tagged?, Json.alternative?, Element.rows]

end Flow

/-- **Flows are read back.**  A flow whose numbers fit into their words and in which no variable of
a head has a name that begins with the mark of the conversation's is read from what it is written
as.  Every flow that was read is of this kind; so writing and reading it again changes nothing, and
it is checked and lowered as before. -/
theorem flows_are_read_back :
    (∀ f : Flow, f.Fits → f.Legible → Flow.ofJson? f.toJson = some f) ∧
    ∀ (j : Json) (f : Flow), Flow.ofJson? j = some f →
      f.Fits ∧ f.Legible ∧ Flow.ofJson? f.toJson = some f ∧
        (Flow.ofJson? f.toJson).map Flow.toJson = some f.toJson ∧
        (Flow.ofJson? f.toJson).map Flow.check = some f.check ∧
        (Flow.ofJson? f.toJson).map (fun g => Program.ofBody g.body) =
          some (.ofBody f.body) := by
  refine ⟨fun f => Flow.ofJson?_toJson, fun j f h => ?_⟩
  obtain ⟨hf, hl⟩ := Flow.fits_and_legible_of_ofJson? h
  have hread := Flow.ofJson?_toJson hf hl
  rw [hread]
  exact ⟨hf, hl, rfl, rfl, rfl, rfl⟩

end

/-- A flow that waits for one event and then goes on with two sequences, one of which sets a
variable to `null` while the other starts a timer. -/
def layered : Flow where
  id := ⟨"f"⟩
  description := none
  priority := some 5
  activation := some ⟨"go", [("a", .any), ("b", .literal .null), ("c", .var "x")]⟩
  body :=
    [.race [(⟨"on", []⟩,
      [.fork [[.assign ⟨.head, "x"⟩ (.literal .null)], [.startTimer 5 (some ⟨.conversation, "t"⟩)]],
       .join])]]

/-- It is read back, and so it is of the kind of flows that are. -/
theorem flows_are_read_back_layered :
    layered.Fits ∧ layered.Legible ∧ Flow.ofJson? layered.toJson = some layered ∧
      (Flow.ofJson? layered.toJson).map Flow.check = some layered.check := by
  have hreadable : ∀ e, Occurs e layered.body → e.Readable := by
    intro e he
    simp only [layered, occurs_cons, not_occurs_nil, Element.parts, List.map_cons, List.map_nil,
      List.mem_cons, List.not_mem_nil, or_false, exists_eq_left, exists_eq_or_imp, false_and,
      exists_false] at he
    rcases he with rfl | (rfl | rfl | rfl) | rfl
    · exact ⟨trivial, List.forall_mem_nil _⟩
    · exact ⟨trivial, List.forall_mem_nil _⟩
    · exact ⟨trivial, List.forall_mem_singleton.2 rfl⟩
    · exact ⟨by rw [Element.Fits]; decide, List.forall_mem_singleton.2 rfl⟩
    · exact ⟨trivial, List.forall_mem_nil _⟩
  have hfits : layered.Fits := by
    refine ⟨?_, fun e he => (hreadable e he).fits⟩
    rintro n ⟨⟩
    decide
  have hlegible : layered.Legible := fun e he v hv =>
    Variable.legible_iff.1 ((hreadable e he).legible v hv)
  have hread := flows_are_read_back.1 layered hfits hlegible
  obtain ⟨-, -, -, -, hcheck, -⟩ := flows_are_read_back.2 layered.toJson layered hread
  exact ⟨hfits, hlegible, hread, hcheck⟩

end EventFlow

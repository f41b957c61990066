import EventFlow.Proofs.Flow.Parts

/-!
# Well-formed flows

The check of a flow walks its sequences and counts the forks that are open.  What it accepts can be
said without walking: each element is well-formed by itself, and in each sequence the forks and the
joins are like brackets.  A nested sequence has to close all brackets; in the flow's own sequence
some may stay open, but none may be closed that was not opened.

## What is here

* `Pattern.WellFormed`, `Variable.Writable`, `Template.WellFormed`, `SendSpec.WellFormed` and
  `CallSpec.WellFormed` are what the parts of elements have to be, and `Element.WellFormed` is what
  an element has to be, whatever is nested in it.
* `Block body nested es` says that a sequence is a body itself or nested in it.
* `Covered` and `Closed` count the forks and the joins of a sequence.  **`brackets_iff`**: they say
  what the grammar `Brackets` says.
* **`Flow.check_ok_iff`**: the check accepts the well-formed flows.
-/

set_option autoImplicit false

namespace EventFlow

variable {Compiled Found : Type} [Query.Library Compiled Found]

/-! ## Parts of elements -/

/-- An expression is a query. -/
def IsQuery (expression : String) : Prop :=
  ∃ query, Query.Library.compile expression = .ok query

/-- A pattern has a name, no segment of a path is empty, and it binds variables that have a name
without a dot. -/
structure Pattern.WellFormed (p : Pattern) : Prop where
  named : isBlank p.name = false
  paths : ∀ field ∈ p.fields, ∀ segment ∈ Path.segments field.1, segment ≠ ""
  binds : ∀ field ∈ p.fields, ∀ name, field.2 = .var name → name ≠ "" ∧ '.' ∉ name.toList

/-- A variable may be written to: no segment of its path is empty, and it hides no reserved name. -/
structure Variable.Writable (v : Variable) : Prop where
  path : ∀ segment ∈ Path.segments v.name, segment ≠ ""
  free : v.owner = .head → v.root ∉ reserved

/-- A template refers to a variable with a name, or holds a query. -/
def Template.WellFormed : Template → Prop
  | literal _ => True
  | var v => v.name ≠ ""
  | expr expression => IsQuery expression

/-- A group of its own has a key. -/
def Competition.WellFormed (c : Competition) : Prop := c ≠ .custom ""

/-- An event to send has a name, and its parts are well-formed. -/
structure SendSpec.WellFormed (s : SendSpec) : Prop where
  named : isBlank s.name = false
  competition : s.competition.WellFormed
  templates : ∀ t ∈ Dict.values s.payload, t.WellFormed

/-- A call names an action, and its parts are well-formed. -/
structure CallSpec.WellFormed (c : CallSpec) : Prop where
  named : isBlank c.action = false
  competition : c.competition.WellFormed
  templates : ∀ t ∈ Dict.values c.args, t.WellFormed
  result : ∀ v ∈ c.result, v.Writable
  invocation : ∀ v ∈ c.invocation, v.Writable

/-- The patterns that stand before the sequences nested in an element. -/
def Element.guards : Element → List Pattern
  | race arms => arms.map Prod.fst
  | _ => []

/-- An element is well-formed, but for its guards and for what is nested in it. -/
def Element.Sound : Element → Prop
  | expect pattern => pattern.WellFormed
  | send event => event.WellFormed
  | call spec => spec.WellFormed
  | branch condition _ _ => IsQuery condition
  | fork branches => branches ≠ []
  | join => True
  | race arms => arms ≠ []
  | assign target value => target.Writable ∧ value.WellFormed
  | startTimer _ timer => ∀ v ∈ timer, v.Writable
  | startFlow flow child => isBlank flow.text = false ∧ ∀ v ∈ child, v.Writable
  | abort _ => True

/-- An element is well-formed, whatever is nested in it. -/
structure Element.WellFormed (e : Element) : Prop where
  sound : e.Sound
  guards : ∀ p ∈ e.guards, p.WellFormed

theorem Path.isWellFormed_iff {path : String} :
    isWellFormed path = true ↔ ∀ segment ∈ segments path, segment ≠ "" := by
  simp [isWellFormed]

theorem checkExpression_ok_iff {expression : String} :
    checkExpression expression = .ok () ↔ IsQuery expression := by
  rw [checkExpression, compileExpression, IsQuery]
  cases Query.Library.compile expression with
  | ok query => exact ⟨fun _ => ⟨query, rfl⟩, fun _ => rfl⟩
  | error fault => exact ⟨nofun, nofun⟩

theorem Pattern.checkField_ok_iff {pattern : String} {field : String × Constraint} :
    checkField pattern field = .ok () ↔ (∀ segment ∈ Path.segments field.1, segment ≠ "") ∧
      ∀ name, field.2 = .var name → name ≠ "" ∧ '.' ∉ name.toList := by
  obtain ⟨path, c⟩ := field
  rw [checkField, bind_ok_iff, refuseIf_ok_iff, Bool.not_eq_false', Path.isWellFormed_iff]
  refine and_congr_right fun _ => ?_
  cases c with
  | any | literal value => exact ⟨nofun, fun _ => rfl⟩
  | var name =>
    rw [refuseIf_ok_iff, Bool.or_eq_false_iff]
    simp

theorem Pattern.check_ok_iff {p : Pattern} : p.check = .ok () ↔ p.WellFormed := by
  rw [check, bind_ok_iff, refuseIf_ok_iff, forM_ok_iff]
  simp only [checkField_ok_iff]
  exact ⟨fun h => ⟨h.1, fun f hf => (h.2 f hf).1, fun f hf => (h.2 f hf).2⟩,
    fun h => ⟨h.named, fun f hf => ⟨h.paths f hf, h.binds f hf⟩⟩⟩

theorem Variable.check_ok_iff {v : Variable} : v.check = .ok () ↔ v.Writable := by
  rw [check, bind_ok_iff, refuseIf_ok_iff, refuseIf_ok_iff, Bool.not_eq_false',
    Path.isWellFormed_iff]
  have hfree : (decide (v.owner = .head) && reserved.contains v.root) = false ↔
      (v.owner = .head → v.root ∉ reserved) := by
    simp
  rw [hfree]
  exact ⟨fun h => ⟨h.1, h.2⟩, fun h => ⟨h.path, h.free⟩⟩

theorem checkTarget_ok_iff {target : Option Variable} :
    checkTarget target = .ok () ↔ ∀ v ∈ target, v.Writable := by
  cases target with
  | none => exact ⟨fun _ => nofun, fun _ => rfl⟩
  | some v =>
    rw [checkTarget, Variable.check_ok_iff]
    exact ⟨fun h _ hv => Option.some.inj hv ▸ h, fun h => h v rfl⟩

theorem Template.check_ok_iff {t : Template} : t.check = .ok () ↔ t.WellFormed := by
  cases t with
  | literal value => exact ⟨fun _ => trivial, fun _ => rfl⟩
  | var v =>
    rw [check, refuseIf_ok_iff, WellFormed]
    simp
  | expr expression => exact checkExpression_ok_iff

theorem checkTemplates_ok_iff {templates : Dict String Template} :
    checkTemplates templates = .ok () ↔ ∀ t ∈ Dict.values templates, t.WellFormed := by
  rw [checkTemplates, forM_ok_iff]
  exact forall₂_congr fun _ _ => Template.check_ok_iff

theorem Competition.check_ok_iff {owner : String} {c : Competition} :
    c.check owner = .ok () ↔ c.WellFormed := by
  cases c with
  | byName | exempt => exact ⟨fun _ => nofun, fun _ => rfl⟩
  | custom key =>
    rw [check, refuseIf_ok_iff, WellFormed]
    simp

theorem SendSpec.check_ok_iff {s : SendSpec} : s.check = .ok () ↔ s.WellFormed := by
  rw [check, bind_ok_iff, bind_ok_iff, refuseIf_ok_iff, Competition.check_ok_iff,
    checkTemplates_ok_iff]
  exact ⟨fun h => ⟨h.1, h.2.1, h.2.2⟩, fun h => ⟨h.named, h.competition, h.templates⟩⟩

theorem CallSpec.check_ok_iff {c : CallSpec} : c.check = .ok () ↔ c.WellFormed := by
  rw [check, bind_ok_iff, bind_ok_iff, bind_ok_iff, bind_ok_iff, refuseIf_ok_iff,
    Competition.check_ok_iff, checkTemplates_ok_iff, checkTarget_ok_iff, checkTarget_ok_iff]
  exact ⟨fun h => ⟨h.1, h.2.1, h.2.2.1, h.2.2.2.1, h.2.2.2.2⟩,
    fun h => ⟨h.named, h.competition, h.templates, h.result, h.invocation⟩⟩

/-- What is wrong with an element, but for its guards and for what is nested in it. -/
def Element.checkAlone : Element → Check
  | expect pattern => pattern.check
  | send event => event.check
  | call spec => spec.check
  | branch condition _ _ => checkExpression condition
  | fork branches => Check.refuseIf branches.isEmpty .emptyFork
  | race arms => Check.refuseIf arms.isEmpty .emptyRace
  | assign target value => do
    target.check
    value.check
  | startTimer _ timer => checkTarget timer
  | startFlow flow child => do
    Check.refuseIf (isBlank flow.text) .blankChildFlow
    checkTarget child
  | join | abort _ => .ok ()

/-- What is wrong with the guards of an element and with what is nested in it. -/
def Element.checkNested : Element → Check
  | branch _ yes no => do
    checkBody true 0 yes
    checkBody true 0 no
  | fork branches => checkBranches branches
  | race arms => checkArms arms
  | _ => .ok ()

theorem Element.check_eq (e : Element) : e.check = e.checkAlone >>= fun _ => e.checkNested := by
  have hlast : ∀ c : Check, c = c >>= fun _ => .ok () := fun c => by cases c <;> rfl
  cases e with
  | branch | fork | race => rw [check]; rfl
  | join | abort => rw [check]; rfl
  | _ => rw [check]; exact hlast _

theorem Element.checkAlone_ok_iff {e : Element} : e.checkAlone = .ok () ↔ e.Sound := by
  cases e with
  | expect pattern => exact Pattern.check_ok_iff
  | send event => exact SendSpec.check_ok_iff
  | call spec => exact CallSpec.check_ok_iff
  | branch condition yes no => exact checkExpression_ok_iff
  | fork branches | race arms =>
    rw [checkAlone, refuseIf_ok_iff, List.isEmpty_eq_false_iff]
    exact .rfl
  | assign target value =>
    rw [checkAlone, bind_ok_iff, Variable.check_ok_iff, Template.check_ok_iff]
    exact .rfl
  | startTimer duration timer => exact checkTarget_ok_iff
  | startFlow flow child =>
    rw [checkAlone, bind_ok_iff, refuseIf_ok_iff, checkTarget_ok_iff]
    exact .rfl
  | join | abort reason => exact ⟨fun _ => trivial, fun _ => rfl⟩

theorem Element.checkNested_ok_iff {e : Element} : e.checkNested = .ok () ↔
    (∀ p ∈ e.guards, p.WellFormed) ∧ ∀ b ∈ e.parts, checkBody true 0 b = .ok () := by
  cases e with
  | branch condition yes no =>
    rw [checkNested, bind_ok_iff, parts, List.forall_mem_cons, List.forall_mem_singleton]
    exact ⟨fun h => ⟨List.forall_mem_nil _, h⟩, fun h => h.2⟩
  | fork branches =>
    rw [checkNested, checkBranches_ok_iff]
    exact ⟨fun h => ⟨List.forall_mem_nil _, h⟩, fun h => h.2⟩
  | race arms =>
    rw [checkNested, checkArms_ok_iff, guards, parts, List.forall_mem_map, List.forall_mem_map]
    simp only [Pattern.check_ok_iff]
    exact forall₂_and
  | _ => exact ⟨fun _ => ⟨List.forall_mem_nil _, List.forall_mem_nil _⟩, fun _ => rfl⟩

/-- An element passes its check if it is well-formed and what is nested in it passes. -/
theorem Element.check_ok_iff {e : Element} :
    e.check = .ok () ↔ e.WellFormed ∧ ∀ b ∈ e.parts, checkBody true 0 b = .ok () := by
  rw [check_eq, bind_ok_iff, checkAlone_ok_iff, checkNested_ok_iff, ← and_assoc]
  exact and_congr_left fun _ => ⟨fun h => ⟨h.1, h.2⟩, fun h => ⟨h.sound, h.guards⟩⟩

/-! ## Forks and joins as brackets -/

/-- Whether an element opens a bracket. -/
def Element.isFork : Element → Bool
  | fork _ => true
  | _ => false

/-- Whether an element closes a bracket. -/
def Element.isJoin : Element → Bool
  | join => true
  | _ => false

/-- How many forks there are in a sequence itself. -/
def forks (es : List Element) : Nat := es.countP Element.isFork

/-- How many joins there are in a sequence itself. -/
def joins (es : List Element) : Nat := es.countP Element.isJoin

/-- Up to no place in a sequence there are more joins than forks. -/
def Covered (es : List Element) : Prop :=
  ∀ before after, es = before ++ after → joins before ≤ forks before

/-- In the whole sequence there are as many joins as forks. -/
def Closed (es : List Element) : Prop := joins es = forks es

/-- Forks and joins pair up within a sequence.  Unless it is nested, forks may be left alone. -/
inductive Brackets : Bool → List Element → Prop
  | nil {nested : Bool} : Brackets nested []
  /-- Neither a fork nor a join. -/
  | plain {nested : Bool} {e : Element} {es : List Element} (hfork : e.isFork = false)
      (hjoin : e.isJoin = false) (rest : Brackets nested es) : Brackets nested (e :: es)
  /-- A fork and the join that closes it. -/
  | pair {nested : Bool} {branches : List (List Element)} {inner es : List Element}
      (within : Brackets true inner) (rest : Brackets nested es) :
      Brackets nested (.fork branches :: (inner ++ .join :: es))
  /-- A fork that no join closes. -/
  | alone {branches : List (List Element)} {es : List Element} (rest : Brackets false es) :
      Brackets false (.fork branches :: es)

/-- What may follow `opened` open forks, said as the check counts. -/
def Counted (nested : Bool) : Nat → List Element → Prop
  | opened, [] => nested = true → opened = 0
  | opened, e :: es => ∃ n, e.opens opened = some n ∧ Counted nested n es

/-- What may follow `opened` open forks, said by grammar: each is closed by a join behind
something that pairs up, or left alone. -/
inductive Behind : Bool → Nat → List Element → Prop
  | done {nested : Bool} {es : List Element} (rest : Brackets nested es) : Behind nested 0 es
  | join {nested : Bool} {opened : Nat} {inner es : List Element} (within : Brackets true inner)
      (rest : Behind nested opened es) : Behind nested (opened + 1) (inner ++ .join :: es)
  | alone {opened : Nat} {es : List Element} (rest : Behind false opened es) :
      Behind false (opened + 1) es

section Brackets

variable {nested : Bool} {opened n : Nat} {e : Element} {es inner : List Element}
  {branches : List (List Element)}

theorem Element.opens_of_plain (hfork : e.isFork = false) (hjoin : e.isJoin = false)
    (opened : Nat) : e.opens opened = some opened := by
  cases e with
  | fork => cases hfork
  | join => cases hjoin
  | _ => rfl

/-- What an element does to the number of open forks is told by what it is. -/
theorem Element.opens_eq_some_iff : e.opens opened = some n ↔
    n + (if e.isJoin then 1 else 0) = opened + if e.isFork then 1 else 0 := by
  cases e with
  | join =>
    cases opened with
    | zero => simp [opens, isJoin, isFork]
    | succ opened => simp [opens, isJoin, isFork, eq_comm]
  | _ => simp [opens, isJoin, isFork, eq_comm]

theorem forks_cons (e : Element) (es : List Element) :
    forks (e :: es) = forks es + if e.isFork then 1 else 0 := List.countP_cons

theorem joins_cons (e : Element) (es : List Element) :
    joins (e :: es) = joins es + if e.isJoin then 1 else 0 := List.countP_cons

theorem forall_prefix_cons {P : List Element → Prop} :
    (∀ before after, e :: es = before ++ after → P before) ↔
      P [] ∧ ∀ before after, es = before ++ after → P (e :: before) := by
  constructor
  · exact fun h => ⟨h [] (e :: es) rfl, fun before after hsplit =>
      h (e :: before) after (congrArg (e :: ·) hsplit)⟩
  · rintro ⟨hnil, hcons⟩ before after hsplit
    obtain ⟨rfl, -⟩ | ⟨before, rfl, htail⟩ := List.cons_eq_append_iff.1 hsplit
    · exact hnil
    · exact hcons before after htail

/-- Counting as the check does is counting. -/
theorem counted_iff : Counted nested opened es ↔
    (∀ before after, es = before ++ after → joins before ≤ opened + forks before) ∧
      (nested = true → joins es = opened + forks es) := by
  induction es generalizing opened with
  | nil =>
    rw [Counted]
    refine ⟨fun h => ⟨fun before after hsplit => ?_, fun hn => (h hn).symm⟩, fun h hn => ?_⟩
    · rw [(List.append_eq_nil_iff.1 hsplit.symm).1]
      exact Nat.zero_le _
    · exact (h.2 hn).symm
  | cons e es ih =>
    rw [Counted, forall_prefix_cons]
    simp only [ih, Element.opens_eq_some_iff, joins_cons, forks_cons]
    constructor
    · rintro ⟨n, hn, hall, htotal⟩
      refine ⟨⟨Nat.zero_le _, fun before after hsplit => ?_⟩, fun hnested => ?_⟩
      · have hle := hall before after hsplit
        omega
      · have heq := htotal hnested
        omega
    · rintro ⟨⟨-, hall⟩, htotal⟩
      have hfirst : (if e.isJoin then 1 else 0) ≤ opened + if e.isFork then 1 else 0 := by
        simpa [joins, forks] using hall [] es rfl
      refine ⟨_, Nat.sub_add_cancel hfirst, fun before after hsplit => ?_, fun hnested => ?_⟩
      · have hle := hall before after hsplit
        omega
      · have heq := htotal hnested
        omega

/-- The check counts nothing but forks and joins. -/
theorem counted_zero_iff :
    Counted nested 0 es ↔ Covered es ∧ (nested = true → Closed es) := by
  simp only [counted_iff, Nat.zero_add]
  exact .rfl

/-- What pairs up leaves as many forks open as there were. -/
theorem Brackets.counted_append (h : Brackets true inner) (hes : Counted nested opened es) :
    Counted nested opened (inner ++ es) := by
  generalize htrue : true = closed at h
  induction h generalizing opened es with
  | nil => exact hes
  | plain hfork hjoin _ ih =>
    exact ⟨opened, Element.opens_of_plain hfork hjoin opened, ih hes htrue⟩
  | pair _ _ ihwithin ihrest =>
    rw [List.cons_append, List.append_assoc, List.cons_append]
    exact ⟨opened + 1, rfl, ihwithin ⟨opened, rfl, ihrest hes htrue⟩ rfl⟩
  | alone => cases htrue

/-- What follows forks that are open outside pairs up by itself, if they may be left alone. -/
theorem Brackets.counted (h : Brackets nested es) (hn : nested = true → opened = 0) :
    Counted nested opened es := by
  induction h generalizing opened with
  | nil => exact hn
  | plain hfork hjoin _ ih => exact ⟨opened, Element.opens_of_plain hfork hjoin opened, ih hn⟩
  | pair within _ _ ih => exact ⟨opened + 1, rfl, within.counted_append ⟨opened, rfl, ih hn⟩⟩
  | alone _ ih => exact ⟨opened + 1, rfl, ih nofun⟩

theorem Behind.plain (hfork : e.isFork = false) (hjoin : e.isJoin = false)
    (h : Behind nested opened es) : Behind nested opened (e :: es) := by
  induction h with
  | done rest => exact .done (.plain hfork hjoin rest)
  | join within rest _ => exact .join (.plain hfork hjoin within) rest
  | alone _ ih => exact .alone ih

theorem Behind.pair (branches : List (List Element)) (within : Brackets true inner)
    (h : Behind nested opened es) :
    Behind nested opened (.fork branches :: (inner ++ .join :: es)) := by
  induction h with
  | done rest => exact .done (.pair within rest)
  | join within' rest _ =>
    rw [← List.cons_append, ← List.cons_append, ← List.append_assoc]
    exact .join (.pair within within') rest
  | alone _ ih => exact .alone ih

/-- A fork is one of those that are open behind it. -/
theorem Behind.fork (branches : List (List Element)) (h : Behind nested (opened + 1) es) :
    Behind nested opened (.fork branches :: es) := by
  generalize hn : opened + 1 = n at h
  induction h generalizing opened with
  | done => cases hn
  | join within rest _ =>
    cases hn
    exact rest.pair branches within
  | @alone m es rest ih =>
    obtain rfl : opened = m := Nat.succ.inj hn
    cases opened with
    | zero =>
      obtain ⟨rest⟩ := rest
      exact .done (.alone rest)
    | succ opened => exact .alone (ih rfl)

/-- What the check counts has a grammar. -/
theorem behind_of_counted (h : Counted nested opened es) : Behind nested opened es := by
  induction es generalizing opened with
  | nil =>
    cases nested with
    | true =>
      rw [h rfl]
      exact .done .nil
    | false =>
      induction opened with
      | zero => exact .done .nil
      | succ opened ih => exact .alone (ih nofun)
  | cons e es ih =>
    obtain ⟨n, hn, hes⟩ := h
    have hrest := ih hes
    cases e with
    | join =>
      obtain _ | opened := opened
      · cases hn
      · cases hn
        exact .join .nil hrest
    | fork branches =>
      cases hn
      exact hrest.fork branches
    | _ =>
      cases hn
      exact hrest.plain rfl rfl

/-- **Forks and joins pair up where they are counted right.** -/
theorem brackets_iff : Brackets nested es ↔ Covered es ∧ (nested = true → Closed es) := by
  rw [← counted_zero_iff]
  refine ⟨fun h => h.counted fun _ => rfl, fun h => ?_⟩
  obtain ⟨hdone⟩ := behind_of_counted h
  exact hdone

end Brackets

/-! ## Bodies -/

/-- A sequence is a body itself, or nested in it. -/
inductive Block (body : List Element) : Bool → List Element → Prop
  | whole : Block body false body
  | nested {outer : Bool} {es b : List Element} {e : Element} (block : Block body outer es)
      (mem : e ∈ es) (part : b ∈ e.parts) : Block body true b

/-- A flow has a name, what starts it is well-formed, so is each element at whatever depth, and in
each sequence no join is without a fork; in a nested sequence no fork is without a join. -/
structure Flow.WellFormed (f : Flow) : Prop where
  named : isBlank f.id.text = false
  activation : ∀ p ∈ f.activation, p.WellFormed
  elements : ∀ e, Occurs e f.body → e.WellFormed
  covered : ∀ nested es, Block f.body nested es → Covered es
  closed : ∀ es, Block f.body true es → Closed es

section Bodies

variable {body es b : List Element} {e x : Element} {nested outer : Bool} {opened : Nat}

theorem Block.within (hx : x ∈ es) (hb : b ∈ x.parts) {c : List Element} (h : Block b nested c) :
    Block es true c := by
  induction h with
  | whole => exact .nested .whole hx hb
  | nested _ hmem hpart ih => exact .nested ih hmem hpart

/-- A sequence passes if its elements do and its forks and joins are counted right. -/
theorem checkBody_ok_iff : checkBody nested opened es = .ok () ↔
    (∀ e ∈ es, e.check = .ok ()) ∧ Counted nested opened es := by
  induction es generalizing opened with
  | nil =>
    rw [checkBody, refuseIf_ok_iff, Counted]
    simp
  | cons e es ih =>
    constructor
    · intro h
      obtain ⟨he, n, hn, hes⟩ := checkBody_cons h
      obtain ⟨hall, hcounted⟩ := ih.1 hes
      exact ⟨List.forall_mem_cons.2 ⟨he, hall⟩, n, hn, hcounted⟩
    · rintro ⟨hall, n, hn, hcounted⟩
      obtain ⟨he, hall⟩ := List.forall_mem_cons.1 hall
      have hes := ih.2 ⟨hall, hcounted⟩
      cases e with
      | join =>
        obtain _ | opened := opened
        · cases hn
        · cases hn
          rwa [checkBody]
      | _ =>
        cases hn
        rw [checkBody, bind_ok_iff]
        · exact ⟨he, hes⟩
        all_goals simp

/-- Whatever is nested in a body that passes passes too. -/
theorem checkBody_of_block (h : checkBody false 0 body = .ok ()) (hb : Block body nested es) :
    checkBody nested 0 es = .ok () := by
  induction hb with
  | whole => exact h
  | nested _ hmem hpart ih => exact (Element.check_ok_iff.1 (check_of_mem_body ih _ hmem)).2 _ hpart

theorem Element.sizeOf_part_lt (hb : b ∈ e.parts) : sizeOf b < sizeOf e := by
  cases e with
  | branch condition yes no =>
    rw [Element.branch.sizeOf_spec]
    rcases List.mem_cons.1 hb with rfl | hb
    · omega
    · rw [List.mem_singleton.1 hb]
      omega
  | fork branches =>
    have hlt := List.sizeOf_lt_of_mem (show b ∈ branches from hb)
    rw [Element.fork.sizeOf_spec]
    omega
  | race arms =>
    obtain ⟨⟨p, c⟩, harm, rfl⟩ := List.mem_map.1 hb
    have hlt := List.sizeOf_lt_of_mem harm
    rw [Prod.mk.sizeOf_spec] at hlt
    rw [Element.race.sizeOf_spec]
    change sizeOf c < _
    omega
  | _ => cases hb

/-- A body passes whose elements are well-formed and whose sequences are counted right. -/
theorem checkBody_of_wellFormed (nested : Bool) (opened : Nat) (es : List Element)
    (hall : ∀ e, Occurs e es → e.WellFormed) (hblocks : ∀ b, Block es true b → Counted true 0 b)
    (hes : Counted nested opened es) : checkBody nested opened es = .ok () := by
  refine checkBody_ok_iff.2 ⟨fun e he => Element.check_ok_iff.2 ⟨hall e (.here he), ?_⟩, hes⟩
  intro b hb
  have hsmaller := Nat.lt_trans (Element.sizeOf_part_lt hb) (List.sizeOf_lt_of_mem he)
  exact checkBody_of_wellFormed true 0 b (fun x hx => hall x (.within he hb hx))
    (fun c hc => hblocks c (hc.within he hb)) (hblocks b (.nested .whole he hb))
termination_by sizeOf es

theorem mapError_ok_iff {c : Check} {f : Error → Error} : c.mapError f = .ok () ↔ c = .ok () := by
  cases c with
  | ok u => exact .rfl
  | error e => exact ⟨nofun, nofun⟩

/-- What is wrong with what starts a flow. -/
def Flow.checkActivation (f : Flow) : Check :=
  match f.activation with
  | some p => p.check
  | none => .ok ()

/-- The name of a flow is looked at first, then what starts it, and then its body. -/
theorem Flow.check_eq (f : Flow) : f.check =
    Check.refuseIf (isBlank f.id.text) .blankFlowId >>= fun _ => f.checkActivation >>= fun _ =>
      (checkBody false 0 f.body).mapError (Error.inFlow f.id) := by
  rw [check, checkActivation]
  cases f.activation <;> rfl

theorem Flow.checkActivation_ok_iff {f : Flow} :
    f.checkActivation = .ok () ↔ ∀ p ∈ f.activation, p.WellFormed := by
  rw [checkActivation]
  cases f.activation with
  | none => exact ⟨fun _ p hp => absurd hp.symm (Option.some_ne_none p), fun _ => rfl⟩
  | some p =>
    rw [Pattern.check_ok_iff]
    exact ⟨fun h _ hp => Option.some.inj hp ▸ h, fun h => h p rfl⟩

/-- The check of a flow passes if its parts pass. -/
theorem Flow.check_ok_iff_parts {f : Flow} : f.check = .ok () ↔ isBlank f.id.text = false ∧
    (∀ p ∈ f.activation, p.WellFormed) ∧ checkBody false 0 f.body = .ok () := by
  rw [check_eq, bind_ok_iff, bind_ok_iff, refuseIf_ok_iff, checkActivation_ok_iff, mapError_ok_iff]

/-- **The check accepts the well-formed flows.** -/
theorem Flow.check_ok_iff {f : Flow} : f.check = .ok () ↔ f.WellFormed := by
  rw [check_ok_iff_parts]
  constructor
  · rintro ⟨hnamed, hactivation, hbody⟩
    have hcounted {nested : Bool} {es : List Element} (hb : Block f.body nested es) :=
      counted_zero_iff.1 (checkBody_ok_iff.1 (checkBody_of_block hbody hb)).2
    have hchecked : ∀ e, Occurs e f.body → e.check = .ok () :=
      fun e ho => check_of_occurs ho (check_of_mem_body hbody)
    exact ⟨hnamed, hactivation, fun e ho => (Element.check_ok_iff.1 (hchecked e ho)).1,
      fun nested es hb => (hcounted hb).1, fun es hb => (hcounted hb).2 rfl⟩
  · intro h
    have hcounted : ∀ nested es, Block f.body nested es → Counted nested 0 es :=
      fun nested es hb => counted_zero_iff.2
        ⟨h.covered nested es hb, fun htrue => h.closed es (htrue ▸ hb)⟩
    exact ⟨h.named, h.activation,
      checkBody_of_wellFormed false 0 f.body h.elements (hcounted true) (hcounted false _ .whole)⟩

end Bodies

end EventFlow

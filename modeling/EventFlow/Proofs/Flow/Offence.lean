import EventFlow.Proofs.Flow.WellFormed
import EventFlow.Query.Eval

/-!
# What is reported of a flow

A flow that is not well-formed may have many flaws; its check reports one of them.  The check looks
at one place after the other, in an order that is told by the flow alone: an element comes before
what is nested in it, what is nested in an element comes before the next element, the pattern of an
arm comes right before its sequence, and a nested sequence is looked at once more at its end.  What
is reported is the flaw of the first place that has one.

## What is here

* `Site` are the places that the check looks at, with what has to be known there: a join needs to
  know what stands before it in its sequence.
* `Flow.sites` lists the sites of a flow in the order of the check.
* **`checkBody_eq`**: the check of a body is the check of its sites, one after the other.
* **`check_accepts_and_reports`**: which flows the check accepts, and what it reports of the others.
-/

set_option autoImplicit false

namespace EventFlow

section

variable {Compiled Found : Type} [Query.Library Compiled Found]

/-- A place that the check of a flow looks at. -/
inductive Site
  /-- An element, with those before it in its sequence. -/
  | element (before : List Element) (e : Element)
  /-- The pattern of an arm of a race. -/
  | guard (pattern : Pattern)
  /-- The end of a nested sequence. -/
  | close (es : List Element)

namespace Site

/-- What is wrong at a site. -/
def check : Site → Check
  | element before e => do
    Check.refuseIf (e.isJoin && decide (forks before ≤ joins before)) .strayJoin
    e.checkAlone
  | guard pattern => pattern.check
  | close es => Check.refuseIf (decide (joins es ≠ forks es)) .unjoinedFork

/-- Nothing is wrong at a site. -/
def Sound : Site → Prop
  | element before e => (e.isJoin = true → joins before < forks before) ∧ e.Sound
  | guard pattern => pattern.WellFormed
  | close es => Closed es

theorem check_ok_iff {s : Site} : s.check = .ok () ↔ s.Sound := by
  cases s with
  | element before e =>
    rw [check, bind_ok_iff, refuseIf_ok_iff, Element.checkAlone_ok_iff]
    simp [Sound]
  | guard pattern => exact Pattern.check_ok_iff
  | close es =>
    rw [check, refuseIf_ok_iff]
    simp [Sound, Closed]

end Site

mutual

/-- The sites within an element, besides itself. -/
def Element.sites : Element → List Site
  | .branch _ yes no => bodySites true [] yes ++ bodySites true [] no
  | .fork branches => branchSites branches
  | .race arms => armSites arms
  | _ => []

/-- The sites of what is left of a sequence behind some elements. -/
def bodySites (nested : Bool) (before : List Element) : List Element → List Site
  | [] => if nested then [.close before] else []
  | e :: es => .element before e :: (e.sites ++ bodySites nested (before ++ [e]) es)

/-- The sites of the branches of a fork. -/
def branchSites : List (List Element) → List Site
  | [] => []
  | b :: bs => bodySites true [] b ++ branchSites bs

/-- The sites of the arms of a race. -/
def armSites : List (Pattern × List Element) → List Site
  | [] => []
  | (pattern, b) :: arms => .guard pattern :: (bodySites true [] b ++ armSites arms)

end

/-- The sites of a flow's body. -/
def Flow.sites (f : Flow) : List Site := bodySites false [] f.body

/-- What the check reports of a flow. -/
inductive Flow.Reports (f : Flow) : Error → Prop
  | unnamed (blank : isBlank f.id.text = true) : Reports f (.invalid .blankFlowId)
  | activation {p : Pattern} {err : Error} (named : isBlank f.id.text = false)
      (starts : p ∈ f.activation) (wrong : p.check = .error err) : Reports f err
  /-- The first site that is not sound. -/
  | body {before after : List Site} {s : Site} {err : Error} (named : isBlank f.id.text = false)
      (activation : ∀ p ∈ f.activation, p.WellFormed) (split : f.sites = before ++ s :: after)
      (first : ∀ r ∈ before, r.Sound) (wrong : s.check = .error err) :
      Reports f (err.inFlow f.id)

section Sites

variable {nested : Bool} {before es : List Element} {e : Element} {opened n : Nat}

/-- An element that closes no fork is looked at, and then the rest with the forks that are open
then. -/
theorem checkBody_of_opens (hn : e.opens opened = some n) :
    checkBody nested opened (e :: es) = e.check >>= fun _ => checkBody nested n es := by
  cases e with
  | join =>
    obtain _ | opened := opened
    · cases hn
    · cases hn
      rw [checkBody, Element.check]
      rfl
  | _ =>
    cases hn
    rw [checkBody]
    all_goals simp

/-- An element that is not a join without a fork is looked at by itself. -/
theorem Site.check_element_of_opens (h : opened + joins before = forks before)
    (hn : e.opens opened = some n) : (element before e).check = e.checkAlone := by
  rw [Element.opens_eq_some_iff] at hn
  have hcovered : (e.isJoin && decide (forks before ≤ joins before)) = false := by
    cases e with
    | join =>
      simp only [Element.isJoin, Element.isFork, if_true, Bool.false_eq_true, if_false] at hn
      simp
      omega
    | _ => rfl
  rw [check, hcovered]
  rfl

/-- A join without a fork is refused. -/
theorem checkBody_of_stray (nested : Bool) (es : List Element)
    (h : opened + joins before = forks before) (hn : e.opens opened = none) :
    checkBody nested opened (e :: es) = .error (.invalid .strayJoin) ∧
      (Site.element before e).check = .error (.invalid .strayJoin) := by
  cases e with
  | join =>
    obtain _ | opened := opened
    · have hcovered : decide (forks before ≤ joins before) = true :=
        decide_eq_true (by omega)
      rw [checkBody, Site.check, hcovered]
      exact ⟨rfl, rfl⟩
    · cases hn
  | _ => cases hn

mutual

theorem Element.checkNested_eq : ∀ e : Element, e.checkNested = forM e.sites Site.check
  | .branch _ yes no => by
    rw [Element.checkNested, Element.sites, List.forM_append, checkBody_eq true [] 0 rfl yes,
      checkBody_eq true [] 0 rfl no]
  | .fork branches => by rw [Element.checkNested, Element.sites, checkBranches_eq]
  | .race arms => by rw [Element.checkNested, Element.sites, checkArms_eq]
  | .expect _ | .send _ | .call _ | .join | .assign _ _ | .startTimer _ _ | .startFlow _ _
  | .abort _ => rfl

/-- **The check of a body is the check of its sites, one after the other.** -/
theorem checkBody_eq (nested : Bool) (before : List Element) (opened : Nat)
    (h : opened + joins before = forks before) : ∀ es : List Element,
      checkBody nested opened es = forM (bodySites nested before es) Site.check
  | [] => by
    rw [checkBody, bodySites]
    cases nested with
    | false => rfl
    | true =>
      have hopen : (opened != 0) = decide (joins before ≠ forks before) := by
        rw [Bool.eq_iff_iff, bne_iff_ne, decide_eq_true_iff]
        omega
      rw [hopen, if_pos rfl, List.forM_cons, List.forM_nil, bind_pure]
      rfl
  | e :: es => by
    rw [bodySites, List.forM_cons, List.forM_append]
    cases hn : e.opens opened with
    | none =>
      obtain ⟨hbody, hsite⟩ := checkBody_of_stray nested es h hn
      rw [hbody, hsite]
      rfl
    | some n =>
      have hafter : n + joins (before ++ [e]) = forks (before ++ [e]) := by
        rw [Element.opens_eq_some_iff] at hn
        rw [joins, forks, List.countP_append, List.countP_append, List.countP_singleton,
          List.countP_singleton]
        rw [joins, forks] at h
        omega
      rw [checkBody_of_opens hn, Site.check_element_of_opens h hn, e.check_eq, bind_assoc,
        e.checkNested_eq, checkBody_eq nested (before ++ [e]) n hafter es]

theorem checkBranches_eq : ∀ branches : List (List Element),
    checkBranches branches = forM (branchSites branches) Site.check
  | [] => by rw [checkBranches, branchSites]; rfl
  | b :: bs => by
    rw [checkBranches, branchSites, List.forM_append, checkBody_eq true [] 0 rfl b,
      checkBranches_eq bs]

theorem checkArms_eq : ∀ arms : List (Pattern × List Element),
    checkArms arms = forM (armSites arms) Site.check
  | [] => by rw [checkArms, armSites]; rfl
  | (pattern, b) :: arms => by
    rw [checkArms, armSites, List.forM_cons, List.forM_append, checkBody_eq true [] 0 rfl b,
      checkArms_eq arms]
    rfl

end

theorem bind_error_iff {c c' : Check} {err : Error} :
    (c >>= fun _ => c') = .error err ↔ c = .error err ∨ c = .ok () ∧ c' = .error err := by
  cases c with
  | error e => exact ⟨.inl, fun h => h.resolve_right fun h' => by cases h'.1⟩
  | ok u => exact ⟨fun h => .inr ⟨rfl, h⟩, fun h => (h.resolve_left (by rintro ⟨⟩)).2⟩

theorem refuseIf_error_iff {refused : Bool} {flaw : Flaw} {err : Error} :
    Check.refuseIf refused flaw = .error err ↔ refused = true ∧ .invalid flaw = err := by
  cases refused <;> simp [Check.refuseIf]

theorem mapError_error_iff {c : Check} {f : Error → Error} {err : Error} :
    c.mapError f = .error err ↔ ∃ e, c = .error e ∧ f e = err := by
  cases c <;> simp [Except.mapError]

/-- A check of several things reports the first that is wrong. -/
theorem forM_error_iff {α : Type} {check : α → Check} {items : List α} {err : Error} :
    forM items check = .error err ↔ ∃ before a after, items = before ++ a :: after ∧
      (∀ b ∈ before, check b = .ok ()) ∧ check a = .error err := by
  induction items with
  | nil =>
    refine ⟨(by rintro ⟨⟩), ?_⟩
    rintro ⟨before, a, after, hsplit, -⟩
    exact absurd hsplit (List.append_ne_nil_of_right_ne_nil before (List.cons_ne_nil a after)).symm
  | cons x items ih =>
    rw [List.forM_cons, bind_error_iff, ih]
    constructor
    · rintro (hx | ⟨hx, before, a, after, rfl, hright, hwrong⟩)
      · exact ⟨[], x, items, rfl, List.forall_mem_nil _, hx⟩
      · exact ⟨x :: before, a, after, rfl, List.forall_mem_cons.2 ⟨hx, hright⟩, hwrong⟩
    · rintro ⟨before, a, after, hsplit, hright, hwrong⟩
      obtain ⟨rfl, h⟩ | ⟨before, rfl, rfl⟩ := List.cons_eq_append_iff.1 hsplit
      · obtain ⟨rfl, rfl⟩ := List.cons.inj h
        exact .inl hwrong
      · obtain ⟨hx, hright⟩ := List.forall_mem_cons.1 hright
        exact .inr ⟨hx, before, a, after, rfl, hright, hwrong⟩

/-- The check of a body reports the first site that is not sound. -/
theorem checkBody_error_iff {f : Flow} {err : Error} : checkBody false 0 f.body = .error err ↔
    ∃ before s after, f.sites = before ++ s :: after ∧ (∀ r ∈ before, r.Sound) ∧
      s.check = .error err := by
  rw [checkBody_eq false [] 0 rfl, forM_error_iff]
  simp only [Site.check_ok_iff]
  exact .rfl

theorem Flow.checkActivation_error_iff {f : Flow} {err : Error} :
    f.checkActivation = .error err ↔ ∃ p ∈ f.activation, p.check = .error err := by
  rw [checkActivation]
  cases f.activation <;> simp

/-- **The check of a flow reports the first thing that is wrong.** -/
theorem Flow.check_error_iff {f : Flow} {err : Error} : f.check = .error err ↔ f.Reports err := by
  rw [check_eq, bind_error_iff, bind_error_iff, refuseIf_error_iff, refuseIf_ok_iff,
    checkActivation_error_iff, checkActivation_ok_iff, mapError_error_iff]
  constructor
  · rintro (⟨hblank, rfl⟩ | ⟨hnamed, ⟨p, hp, hwrong⟩ | ⟨hactivation, e, hbody, rfl⟩⟩)
    · exact .unnamed hblank
    · exact .activation hnamed hp hwrong
    · obtain ⟨before, s, after, hsplit, hfirst, hs⟩ := checkBody_error_iff.1 hbody
      exact .body hnamed hactivation hsplit hfirst hs
  · intro h
    cases h with
    | unnamed hblank => exact .inl ⟨hblank, rfl⟩
    | activation hnamed hp hwrong => exact .inr ⟨hnamed, .inl ⟨_, hp, hwrong⟩⟩
    | body hnamed hactivation hsplit hfirst hs =>
      have hbody := checkBody_error_iff.2 ⟨_, _, _, hsplit, hfirst, hs⟩
      exact .inr ⟨hnamed, .inr ⟨hactivation, _, hbody, rfl⟩⟩

end Sites

/-- **Which flows are accepted, and what is reported of the others.**  A flow is accepted if it is
well-formed: it has a name, what starts it and each of its elements are well-formed, and in each of
its sequences the forks and joins pair up, where only the forks of the flow's own sequence may be
left alone; this is the same as counting them.  Of any other flow what is reported is what is wrong
first: its name, what starts it, or the first site of its body that is not sound. -/
theorem check_accepts_and_reports (f : Flow) :
    (f.check = .ok () ↔ f.WellFormed) ∧
    (∀ nested es, Brackets nested es ↔ Covered es ∧ (nested = true → Closed es)) ∧
    ∀ err, f.check = .error err ↔ f.Reports err :=
  ⟨Flow.check_ok_iff, fun _ _ => brackets_iff, fun _ => Flow.check_error_iff⟩

end

/-- A race with a flaw in the sequence of its first arm, and one in the pattern of its second. -/
def unnamedArms : Flow where
  id := ⟨"f"⟩
  description := none
  priority := none
  activation := none
  body := [.race [(⟨"go", []⟩, [.send (.named "")]), (⟨"", []⟩, [])]]

/-- The flaws of an element are not all reported before those of what is nested in it: the guard of
an arm comes after the arms before it. -/
theorem guard_comes_after_arms :
    ¬∀ (f : Flow) (e : Element) (rest : List Element) (err : Error), isBlank f.id.text = false →
      f.activation = none → f.body = e :: rest →
        (e.checkAlone >>= fun _ => forM e.guards Pattern.check) = .error err →
          f.check = .error (err.inFlow f.id) := by
  intro hall
  have hclaimed := hall unnamedArms _ [] (.invalid .blankPatternName) (by decide) rfl rfl rfl
  have hreported : unnamedArms.check = .error (.invalid (.inFlow ⟨"f"⟩ .blankSend)) := rfl
  cases hreported.symm.trans hclaimed

end EventFlow

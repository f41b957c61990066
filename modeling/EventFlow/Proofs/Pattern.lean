import EventFlow.Pattern
import EventFlow.Engine.Spawn
import EventFlow.Proofs.Json.Text

/-!
# Patterns are told apart by their keys

The key of a pattern is its name, and behind it what its fields demand, in brackets and with commas
between them.  Nothing is escaped there but the values: a name may have a bracket, a path an equals
sign or a star, and a variable a comma, and then two patterns may share a key.  `Pattern.Plain`
excludes that.

## What is here

* `requirement` is what a field is written as, and `requirement_append_inj` tells it from what
  stands behind it.
* **`Pattern.Plain.eq_of_key`**: plain patterns with the same key are the same.
* `Pattern.Plain.key_ne_childKey`: and no flow to start as a child is counted under it.
-/

set_option autoImplicit false

namespace EventFlow

/-- The characters that begin a constraint. -/
def Constraint.isMark (c : Char) : Bool := c == '*' || c == '='

namespace Pattern

/-- A pattern whose parts cannot be taken for others where they stand in its key. -/
structure Plain (p : Pattern) : Prop where
  /-- The name has no bracket. -/
  name : '\x7b' ∉ p.name.toList
  /-- The name does not begin as the keys of children do. -/
  apart : ¬ "start_flow:".toList <+: p.name.toList
  /-- Paths have no star and no equals sign. -/
  paths : ∀ f ∈ p.fields, ∀ c ∈ f.1.toList, Constraint.isMark c = false
  /-- Variables have no comma. -/
  vars : ∀ f ∈ p.fields, ∀ v, f.2 = .var v → ',' ∉ v.toList

/-- What a field of a pattern is written as. -/
def requirement (f : String × Constraint) : List Char := f.1.toList ++ f.2.text.toList

/-- What stands behind a field: another one, or the end. -/
def Closes (rest : List Char) : Prop := rest = ['\x7d'] ∨ ∃ more, rest = ',' :: more

theorem Closes.stops {rest : List Char} (h : Closes rest) : Json.Stops rest := by
  rcases h with rfl | ⟨more, rfl⟩
  · exact Json.stops_cons rfl
  · exact Json.stops_cons rfl

/-- A variable without a comma is told from what stands behind it. -/
theorem var_append_inj {v v' : String} {rest rest' : List Char} (hv : ',' ∉ v.toList)
    (hv' : ',' ∉ v'.toList) (hrest : Closes rest) (hrest' : Closes rest')
    (h : v.toList ++ rest = v'.toList ++ rest') : v = v' ∧ rest = rest' := by
  have hlast {cs : List Char} (hcs : ',' ∉ cs) (cs' more : List Char) :
      cs ++ ['\x7d'] ≠ cs' ++ ',' :: more := fun heq => by
    have hcomma : ',' ∈ cs ++ ['\x7d'] := heq ▸ List.mem_append_right _ List.mem_cons_self
    rcases List.mem_append.1 hcomma with hcomma | hcomma
    · exact hcs hcomma
    · cases List.mem_singleton.1 hcomma
  rcases hrest with rfl | ⟨more, rfl⟩ <;> rcases hrest' with rfl | ⟨more', rfl⟩
  · exact ⟨String.toList_inj.1 (List.append_cancel_right h), rfl⟩
  · exact absurd h (hlast hv _ _)
  · exact absurd h.symm (hlast hv' _ _)
  · have htext : v.toList = v'.toList := by
      rw [← takeWhile_ne_append hv more, h, takeWhile_ne_append hv' more']
    rw [htext] at h
    exact ⟨String.toList_inj.1 htext, List.append_cancel_left h⟩

/-- A constraint is told from what stands behind it. -/
theorem constraint_append_inj {c c' : Constraint} {rest rest' : List Char}
    (hc : ∀ v, c = .var v → ',' ∉ v.toList) (hc' : ∀ v, c' = .var v → ',' ∉ v.toList)
    (hrest : Closes rest) (hrest' : Closes rest')
    (h : c.text.toList ++ rest = c'.text.toList ++ rest') : c = c' ∧ rest = rest' := by
  have hliteral (j : Json) : (Constraint.literal j).text.toList = '=' :: j.chars := by
    rw [Constraint.text, String.toList_append]
    rfl
  have hvar (v : String) : (Constraint.var v).text.toList = '=' :: '$' :: v.toList := by
    rw [Constraint.text, String.toList_append]
    rfl
  cases c with
  | any =>
    cases c' with
    | any => exact ⟨rfl, List.append_cancel_left h⟩
    | literal j' =>
      rw [hliteral] at h
      cases h
    | var v' =>
      rw [hvar] at h
      cases h
  | literal j =>
    rw [hliteral] at h
    cases c' with
    | any => cases h
    | literal j' =>
      rw [hliteral] at h
      have hvalues := (List.cons.inj h).2
      obtain ⟨rfl, hmore⟩ := Json.chars_append_inj (Json.kind_eq_of_chars hvalues) hrest.stops
        hrest'.stops hvalues
      exact ⟨rfl, hmore⟩
    | var v' =>
      rw [hvar] at h
      exact absurd (List.cons.inj h).2 (Json.chars_append_ne rfl)
  | var v =>
    rw [hvar] at h
    cases c' with
    | any => cases h
    | literal j' =>
      rw [hliteral] at h
      exact absurd (List.cons.inj h).2.symm (Json.chars_append_ne rfl)
    | var v' =>
      rw [hvar] at h
      obtain ⟨rfl, hmore⟩ := var_append_inj (hc v rfl) (hc' v' rfl) hrest hrest'
        (List.cons.inj (List.cons.inj h).2).2
      exact ⟨rfl, hmore⟩

/-- A constraint begins with a character that shows where the path before it ends. -/
theorem exists_mark (c : Constraint) :
    ∃ mark rest, c.text.toList = mark :: rest ∧ Constraint.isMark mark = true := by
  cases c with
  | any => exact ⟨_, _, rfl, rfl⟩
  | literal j => exact ⟨'=', _, String.toList_append, rfl⟩
  | var v => exact ⟨'=', _, String.toList_append, rfl⟩

/-- A plain field is told from what stands behind it. -/
theorem requirement_append_inj {f f' : String × Constraint} {rest rest' : List Char}
    (hf : ∀ c ∈ f.1.toList, Constraint.isMark c = false)
    (hf' : ∀ c ∈ f'.1.toList, Constraint.isMark c = false)
    (hv : ∀ v, f.2 = .var v → ',' ∉ v.toList) (hv' : ∀ v, f'.2 = .var v → ',' ∉ v.toList)
    (hrest : Closes rest) (hrest' : Closes rest')
    (h : requirement f ++ rest = requirement f' ++ rest') : f = f' ∧ rest = rest' := by
  have hpath {f : String × Constraint} (hf : ∀ c ∈ f.1.toList, Constraint.isMark c = false)
      (rest : List Char) :
      (requirement f ++ rest).takeWhile (fun c => !Constraint.isMark c) = f.1.toList := by
    obtain ⟨mark, more, htext, hmark⟩ := exists_mark f.2
    rw [requirement, htext, List.append_assoc, List.takeWhile_append_of_pos (by simpa using hf)]
    simp [hmark]
  have hpaths : f.1.toList = f'.1.toList := by rw [← hpath hf rest, h, hpath hf' rest']
  rw [requirement, requirement, hpaths, List.append_assoc, List.append_assoc] at h
  obtain ⟨hconstraints, hmore⟩ :=
    constraint_append_inj hv hv' hrest hrest' (List.append_cancel_left h)
  exact ⟨Prod.ext (String.toList_inj.1 hpaths) hconstraints, hmore⟩

/-- A field is longer than the bracket at the end. -/
theorem requirement_append_ne (f : String × Constraint) {rest tail : List Char}
    (hrest : Closes rest) (htail : Closes ('\x7d' :: tail)) :
    requirement f ++ rest ≠ '\x7d' :: tail := by
  obtain ⟨mark, more, htext, -⟩ := exists_mark f.2
  have hend : tail = [] := by
    rcases htail with heq | ⟨_, heq⟩
    · exact (List.cons.inj heq).2
    · cases heq
  have hlength : 0 < rest.length := by
    rcases hrest with rfl | ⟨_, rfl⟩ <;> simp
  intro h
  have := congrArg List.length h
  simp [requirement, htext, hend] at this
  omega

/-- What stands behind the name in a key. -/
def requirements (p : Pattern) : List Char :=
  if p.fields.isEmpty then []
  else '\x7b' :: ([','].intercalate (p.fields.map requirement) ++ ['\x7d'])

theorem toList_key (p : Pattern) : p.key.toList = p.name.toList ++ p.requirements := by
  rw [key, requirements]
  split
  · rw [List.append_nil]
  · have hparts : (p.fields.map fun f => f.1 ++ f.2.text).map String.toList =
        p.fields.map requirement := by
      rw [List.map_map]
      exact List.map_congr_left fun f _ => String.toList_append
    simp [String.toList_append, String.toList_intercalate, hparts]

namespace Plain

variable {p p' : Pattern}

/-- The name of a plain pattern is what stands before the bracket. -/
theorem takeWhile_key (hp : p.Plain) : p.key.toList.takeWhile (· ≠ '\x7b') = p.name.toList := by
  rw [toList_key, requirements]
  split
  · rw [List.append_nil, takeWhile_ne_of_notMem hp.name]
  · exact takeWhile_ne_append hp.name _

/-- **Plain patterns with the same key are the same.** -/
theorem eq_of_key (hp : p.Plain) (hp' : p'.Plain) (h : p.key = p'.key) : p = p' := by
  have hname : p.name.toList = p'.name.toList := by
    rw [← hp.takeWhile_key, h, hp'.takeWhile_key]
  have hrequirements : p.requirements = p'.requirements := by
    have hlist : p.key.toList = p'.key.toList := congrArg String.toList h
    rw [toList_key, toList_key, hname] at hlist
    exact List.append_cancel_left hlist
  have hfields : p.fields = p'.fields := by
    rw [requirements, requirements] at hrequirements
    split at hrequirements <;> split at hrequirements
    · next hnil hnil' => rw [List.isEmpty_iff.1 hnil, List.isEmpty_iff.1 hnil']
    · cases hrequirements
    · cases hrequirements
    · have hapart := @intercalate_append_inj _ requirement Closes ',' '\x7d' (by decide)
        (fun more => .inr ⟨more, rfl⟩) [] [] (.inl rfl) (.inl rfl)
        (fun f _ _ => requirement_append_ne f)
      exact (hapart (fun f hf f' hf' _ _ => requirement_append_inj (hp.paths f hf)
        (hp'.paths f' hf') (hp.vars f hf) (hp'.vars f' hf')) (List.cons.inj hrequirements).2).1
  cases p
  cases p'
  exact congrArg₂ Pattern.mk (String.toList_inj.1 hname) hfields

/-- No flow is started as a child under the key of a plain pattern. -/
theorem key_ne_childKey (hp : p.Plain) (flow : FlowId) : p.key ≠ Engine.childKey flow := by
  intro h
  have hname := hp.takeWhile_key
  rw [h, Engine.childKey, String.toList_append,
    List.takeWhile_append_of_pos (List.all_eq_true.1 (by decide))] at hname
  exact hp.apart ⟨_, hname⟩

end Plain

end Pattern

end EventFlow

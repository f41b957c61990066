import EventFlow.Proofs.Path
import EventFlow.Query.Eval
import EventFlow.Template
import Mathlib.Data.List.TakeWhile

/-!
# What heads see

Templates read the bindings of a head, and queries one object made of them, with three names over
whatever the head has bound itself.  So a name that is none of the three means the same to both.

`Scope.Shows` says that a head sees a variable in all ways there are, and **`Scope.shows`** that it
does so if the name is not reserved.
-/

set_option autoImplicit false

namespace EventFlow

/-! ## Queries for a member -/

namespace Query

/-- A query finds the member of a name in every object that has one. -/
def Selects {Compiled Found : Type} [Library Compiled Found] (query : Compiled) (k : String) :
    Prop :=
  ∀ (fields : Dict String Json) (v : Json), Dict.get? fields k = some v →
    ∃ found : Found, Library.search query (.obj fields) = some (.ok found) ∧
      Library.toJson found = v

mutual

/-- What JSON is as a value is that JSON again. -/
theorem Value.toJson_ofJson : ∀ j : Json, (Value.ofJson j).toJson = j
  | .null | .bool _ | .num _ | .str _ => rfl
  | .arr items => congrArg Json.arr (itemsToJson_ofItems items)
  | .obj fields => congrArg Json.obj (fieldsToJson_ofFields fields)

theorem Value.itemsToJson_ofItems : ∀ items : List Json,
    Value.itemsToJson (Value.ofItems items) = items
  | [] => rfl
  | j :: js => by rw [ofItems, itemsToJson, toJson_ofJson j, itemsToJson_ofItems js]

theorem Value.fieldsToJson_ofFields : ∀ fields : List (String × Json),
    Value.fieldsToJson (Value.ofFields fields) = fields
  | [] => rfl
  | (k, j) :: fields => by
    rw [ofFields, fieldsToJson, toJson_ofJson j, fieldsToJson_ofFields fields]

end

theorem Value.get?_ofFields (fields : Dict String Json) (k : String) :
    Dict.get? (Value.ofFields fields : Dict String Value) k =
      (Dict.get? fields k).map Value.ofJson := by
  induction fields with
  | nil => rfl
  | cons entry fields ih =>
    obtain ⟨k', j⟩ := entry
    rw [Value.ofFields, Dict.get?_cons, Dict.get?_cons]
    split
    · rfl
    · exact ih

/-- A field is selected by its name. -/
theorem selects_field (place : Nat) (k : String) : Selects (Expr.field place k) k := by
  intro fields v hk
  have hmember : member k (Value.ofJson (.obj fields)) = Value.ofJson v := by
    rw [Value.ofJson, member, Value.get?_ofFields, hk, Option.map_some, Option.getD_some]
  refine ⟨Value.ofJson v, ?_, Value.toJson_ofJson v⟩
  rw [← hmember]
  rfl

/-- A text of letters, digits and underscores that does not begin with a digit is a query for the
member of that name. -/
theorem parse_name {k : String} {c : Char} {cs : List Char} (hk : k.toList = c :: cs)
    (hc : (c.isAlpha || c == '_') = true) (hcs : ∀ x ∈ cs, Token.isNameChar x = true) :
    ∃ place, parse k = .ok (.field place k) := by
  have htake : cs.takeWhile Token.isNameChar = cs := List.takeWhile_eq_self_iff.2 hcs
  have hdrop : cs.dropWhile Token.isNameChar = [] := List.dropWhile_eq_nil_iff.2 hcs
  have hlexeme : Token.lexeme c cs = .ok (some (.name k), ⟨[], Nat.zero_le _⟩) := by
    unfold Token.lexeme
    rw [if_pos hc, htake, ← hk, String.ofList_toList]
    simp only [Token.Rest.dropWhile, hdrop]
  have hexpr (place : Nat) :
      Parser.expr 0 [⟨place, .name k⟩] = .ok (.field place k, ⟨[], Nat.zero_lt_one⟩) := by
    rw [Parser.expr, Parser.prim]
    simp only
    rw [Parser.continueExpr, Parser.power, if_neg (Nat.lt_irrefl 0)]
  have hscan : Token.scan k = .ok [⟨k.utf8ByteSize - Token.bytes (c :: cs), .name k⟩] := by
    rw [Token.scan, hk, Token.scanChars, hlexeme]
    simp only [Token.scanChars]
    rfl
  refine ⟨k.utf8ByteSize - Token.bytes (c :: cs), ?_⟩
  rw [parse, hscan]
  show (Parser.expr 0 _ >>= _) = _
  rw [hexpr]
  rfl

end Query

/-! ## Scopes -/

namespace Scope

section

variable {Compiled Found : Type} [Query.Library Compiled Found]

/-- In a scope the variable `k` has the value `v` for templates and queries alike. -/
structure Shows (s : Scope) (k : String) (v : Json) : Prop where
  /-- It is a member of the object that queries are evaluated at. -/
  object : ∃ fields, s.toJson = .obj fields ∧ Dict.get? fields k = some v
  template : s.resolve (.var (.ofText k)) = .ok v
  query {expression : String} {query : Compiled} : Query.Library.compile expression = .ok query →
    Query.Selects query k → s.resolve (.expr expression) = .ok v

variable {s : Scope} {k : String} {v : Json}

/-- A name without a dot refers to a variable of a head. -/
theorem ofText_of_notMem (h : '.' ∉ k.toList) : Variable.ofText k = ⟨.head, k⟩ := by
  rw [Variable.ofText]
  cases hmark : after? Variable.sharedMark.toList k.toList with
  | none => rfl
  | some rest =>
    refine absurd ?_ h
    rw [after?_eq_some.1 hmark]
    exact List.mem_append_left _ (by decide)

/-- A template that names a variable of a head finds it, whatever the name. -/
theorem resolve_var (hv : Dict.get? s.locals k = some v) (hk : '.' ∉ k.toList) :
    s.resolve (.var (.ofText k)) = .ok v := by
  have hlookup : s.lookup? ⟨.head, k⟩ = some v := (Path.get?_of_notMem hk).trans hv
  simp only [ofText_of_notMem hk, resolve, hlookup]

theorem evaluate_of_selects {fields : Dict String Json} (hs : s.toJson = .obj fields)
    (hv : Dict.get? fields k = some v) {expression : String} {query : Compiled}
    (hq : Query.Library.compile expression = .ok query) (hk : Query.Selects query k) :
    s.evaluate expression = .ok v := by
  obtain ⟨found, hfound, rfl⟩ := hk fields v hv
  rw [evaluate, compileExpression, hq, hs]
  show (Query.answer query (.obj fields)).mapError _ >>= _ = _
  rw [Query.answer, hfound]
  rfl

/-- **A variable whose name is not reserved is shown.** -/
theorem shows (hv : Dict.get? s.locals k = some v) (hk : '.' ∉ k.toList)
    (hr : k ∉ Variable.reserved) : s.Shows k v := by
  simp only [Variable.reserved, List.mem_cons, List.not_mem_nil, or_false, not_or] at hr
  have hmember : Dict.get? (Dict.putAll s.locals
      [("global", .obj s.globals), ("instance_id", .str s.instanceId.text),
        ("flow", .str s.flow.text)]) k = some v := by
    simp only [Dict.putAll, List.foldl_cons, List.foldl_nil]
    rw [Dict.get?_put_of_ne hr.2.2, Dict.get?_put_of_ne hr.2.1, Dict.get?_put_of_ne hr.1, hv]
  exact ⟨⟨_, rfl, hmember⟩, resolve_var hv hk, evaluate_of_selects rfl hmember⟩

end

/-- A variable that is shown can be read by a query that is nothing but its name. -/
theorem Shows.evaluate_name {s : Scope} {k : String} {v : Json} {c : Char} {cs : List Char}
    (h : s.Shows k v) (hk : k.toList = c :: cs) (hc : (c.isAlpha || c == '_') = true)
    (hcs : ∀ x ∈ cs, Query.Token.isNameChar x = true) : s.evaluate k = .ok v := by
  obtain ⟨place, hparse⟩ := Query.parse_name hk hc hcs
  exact h.query (congrArg (Except.mapError Query.Fault.message) hparse) (Query.selects_field place k)

end Scope

end EventFlow

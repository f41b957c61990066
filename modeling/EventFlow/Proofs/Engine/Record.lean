import EventFlow.Engine.State
import EventFlow.Proofs.Instance.Record

/-!
# States read back

A state is read back from what it is written as, if its instances are: calls, timers and the source
of identities are written in forms that tell all values apart, as long as numbers fit into the words
they are written in.

## What is here

* `State.Fits` and `State.Legible` ask of a state what `Instance.Fits` and `Instance.Legible` ask of
  its instances; observations must have been handed on.
* **`State.ofJson?_toJson`** says that such a state can be read back.
-/

set_option autoImplicit false

namespace EventFlow

/-! ## Calls -/

theorem FailureKind.ofName?_name (k : FailureKind) : ofName? k.name = some k := by cases k <;> rfl

theorem Failure.ofJson?_toJson (d : Json.Depth) (f : Failure) : ofJson? d f.toJson = some f := by
  have hkind : ((Json.str f.kind.name).tag? d).bind FailureKind.ofName? = some f.kind :=
    f.kind.ofName?_name
  simp [ofJson?, toJson, Json.required, Dict.get?_cons, Json.str?, hkind]

theorem Outcome.ofJson?_toJson (o : Outcome) : ofJson? o.toJson = some o := by
  cases o with
  | completed value =>
    rw [toJson, Json.object, ofJson?, Json.tagged?_object (by decide) (by simp)]
    simp [Json.required, Dict.get?_cons]
  | failed failure =>
    rw [toJson, Json.object, ofJson?, Json.tagged?_object (by decide) (by simp)]
    simp [Json.required, Dict.get?_cons, failure.ofJson?_toJson .inner]

theorem Outcome.isNull_toJson (o : Outcome) : o.toJson.isNull = false := by cases o <;> rfl

theorem CallStatus.ofName?_name (s : CallStatus) : ofName? s.name = some s := by cases s <;> rfl

theorem PendingCall.ofJson?_toJson {c : PendingCall} (h : c.head.number < UInt32.size) :
    ofJson? c.toJson = some c := by
  have hhead := Json.nat32?_ofNat h
  have hstatus : ((Json.str c.status.name).tag? .outer).bind CallStatus.ofName? = some c.status :=
    c.status.ofName?_name
  have hresult : Json.nullable Outcome.ofJson? (Json.option Outcome.toJson c.result) =
      some c.result :=
    Json.nullable_option fun o _ => ⟨o.isNull_toJson, o.ofJson?_toJson⟩
  have harguments : (Json.obj c.arguments).fields? = some c.arguments := rfl
  rw [ofJson?, toJson, Json.record?_object]
  simp -implicitDefEqProofs [Json.required, Json.optional, Dict.get?_cons, Json.str?, harguments,
    hhead, hstatus, hresult]

theorem Calls.ofJson?_toJson {calls : Calls} (h : ∀ c ∈ calls, c.2.head.number < UInt32.size) :
    ofJson? calls.toJson = some calls := by
  have hread : Json.dictOf? PendingCall.ofJson? calls.toJson =
      some (calls.map fun c => (c.1.text, c.2)) :=
    Json.dictOf?_map InvocationId.text PendingCall.toJson id fun c hc =>
      PendingCall.ofJson?_toJson (h c hc)
  rw [ofJson?, hread, Option.map_some, List.map_map]
  exact congrArg some (List.map_id calls)

/-! ## States -/

theorem IdSource.ofJson?_toJson (s : IdSource) : ofJson? s.toJson = some s := by
  have hseed := Json.nat64?_ofNat s.seed.toNat_lt
  have hissued := Json.nat64?_ofNat s.issued.toNat_lt
  simp -implicitDefEqProofs [ofJson?, toJson, Json.required, Dict.get?_cons, hseed, hissued]

namespace State

/-- The numbers of a state fit into their words. -/
def Fits (s : State) : Prop :=
  s.step < UInt64.size ∧ s.nextInstance < UInt64.size ∧
    (∀ c ∈ s.calls, c.2.head.number < UInt32.size) ∧ ∀ i ∈ s.instances, i.Fits

instance : DecidablePred Fits := fun s =>
  inferInstanceAs (Decidable (_ ∧ _ ∧ (∀ c ∈ s.calls, c.2.head.number < UInt32.size) ∧
    ∀ i ∈ s.instances, i.Fits))

/-- What instances observed has been handed on, and the rest of them can be read. -/
def Legible (s : State) : Prop := ∀ i ∈ s.instances, i.observations = [] ∧ i.Legible

/-- **A state can be read back.** -/
theorem ofJson?_toJson {s : State} (hf : s.Fits) (hl : s.Legible) : ofJson? s.toJson = some s := by
  obtain ⟨hstep, hnext, hcalls, hinstances⟩ := hf
  have hstep := Json.nat64?_ofNat hstep
  have hnext := Json.nat64?_ofNat hnext
  have hcalls := Calls.ofJson?_toJson hcalls
  have hinstances := Json.listOf?_list fun i hi =>
    Instance.ofJson?_toJson (hinstances i hi) (hl i hi).2 (hl i hi).1
  have hglobals : (Json.obj s.globals).fields? = some s.globals := rfl
  have htimers : Json.dictOf? Json.str? (.obj (s.timers.map fun t => (t.1.text, .str t.2.text))) =
      some (s.timers.map fun t => (t.1.text, t.2.text)) :=
    Json.dictOf?_map TimerId.text (fun i => .str i.text) InstanceId.text fun _ _ => rfl
  rw [ofJson?, toJson, Json.record?_object]
  simp -implicitDefEqProofs [Json.required, Dict.get?_cons, hinstances, hglobals, hcalls, htimers,
    s.ids.ofJson?_toJson, hstep, hnext]
  have hsame : s.timers.map
      ((fun t : String × String => ((⟨t.1⟩ : TimerId), (⟨t.2⟩ : InstanceId))) ∘
        fun t : TimerId × InstanceId => (t.1.text, t.2.text)) = s.timers := List.map_id s.timers
  rw [hsame]

end State

end EventFlow

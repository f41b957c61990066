import EventFlow.Instance.Record
import EventFlow.Proofs.Json.Fields
import EventFlow.Proofs.Path

/-!
# Instances read back

What an instance is written as reads as the instance, under conditions of two kinds.  Numbers have
to fit into the words they are written in: there are `2 ^ 32` heads, forks and positions, and
`2 ^ 64` steps and instances (`Instance.Fits`).  And three things are written in a form that does
not tell all values apart (`Instance.Legible`): a variable is written as its text, so a head must
not wait for a result in a variable of its own that reads as one of the conversation; bases of forks
are read in the order of their forks; and observations are not written at all.

## What is here

`Variable.legible_iff` says which variables are told by their texts, and then there is one lemma for
every part of an instance, up to **`Instance.ofJson?_toJson`**.
-/

set_option autoImplicit false

namespace EventFlow

/-! ## Room for numbers -/

/-- The numbers of a branch fit into their words. -/
def Branch.Fits (b : Branch) : Prop :=
  b.group < UInt32.size ∧ b.size < UInt32.size ∧ b.index < UInt32.size

/-- The numbers in the state of a head fit into their words. -/
def HeadState.Fits : HeadState → Prop
  | .expecting expectations => ∀ x ∈ expectations, x.resume < UInt32.size
  | .waiting _ _ resume => resume < UInt32.size
  | .atJoin group => group < UInt32.size
  | .ready | .finished | .aborted _ => True

/-- The numbers of a head fit into their words. -/
def Head.Fits (h : Head) : Prop :=
  h.id.number < UInt32.size ∧ h.position < UInt32.size ∧ h.specificity < UInt32.size ∧
    h.state.Fits ∧ ∀ b ∈ h.branches, b.Fits

/-- The numbers of an instance fit into their words. -/
def Instance.Fits (i : Instance) : Prop :=
  (-Numeral.int32Bound ≤ i.priority ∧ i.priority < Numeral.int32Bound) ∧
    i.createdAt < UInt64.size ∧ (∀ n ∈ i.terminatedAt, n < UInt64.size) ∧
    i.nextHead < UInt32.size ∧ i.nextGroup < UInt32.size ∧
    (∀ b ∈ i.bases, b.1 < UInt32.size) ∧ ∀ h ∈ i.heads, h.Fits

instance : DecidablePred Branch.Fits := fun _ => inferInstanceAs (Decidable (_ ∧ _ ∧ _))

instance : DecidablePred HeadState.Fits := fun s =>
  match s with
  | .expecting expectations => inferInstanceAs (Decidable (∀ x ∈ expectations, _))
  | .waiting _ _ resume => inferInstanceAs (Decidable (resume < UInt32.size))
  | .atJoin group => inferInstanceAs (Decidable (group < UInt32.size))
  | .ready | .finished | .aborted _ => isTrue trivial

instance : DecidablePred Head.Fits := fun h =>
  inferInstanceAs (Decidable (_ ∧ _ ∧ _ ∧ _ ∧ ∀ b ∈ h.branches, b.Fits))

instance : DecidablePred Instance.Fits := fun i =>
  inferInstanceAs (Decidable
    ((_ ∧ _) ∧ _ ∧ _ ∧ _ ∧ _ ∧ (∀ b ∈ i.bases, b.1 < UInt32.size) ∧ ∀ h ∈ i.heads, h.Fits))

/-! ## What can be read -/

/-- A variable is what its text refers to. -/
def Variable.Legible (v : Variable) : Prop := .ofText v.text = v

/-- A head does not wait for a result in a variable that its text does not tell. -/
def Head.Legible (h : Head) : Prop :=
  ∀ n v r, h.state = .waiting n (some v) r → v.Legible

/-- Variables are told by their texts, and bases are in the order of their forks. -/
structure Instance.Legible (i : Instance) : Prop where
  heads : ∀ h ∈ i.heads, h.Legible
  bases : i.bases.Sorted

namespace Variable

/-- A variable is told by its text unless it is of a head and has a name that begins as the texts of
the conversation's do. -/
theorem legible_iff {v : Variable} :
    v.Legible ↔ (v.owner = .head → ¬ sharedMark.toList <+: v.name.toList) := by
  obtain ⟨owner, name⟩ := v
  cases owner with
  | conversation =>
    have hmark : after? sharedMark.toList (sharedMark ++ name).toList = some name.toList :=
      after?_eq_some.2 String.toList_append
    refine ⟨fun _ => nofun, fun _ => ?_⟩
    rw [Legible, text, ofText]
    simp only [hmark, String.ofList_toList]
  | head =>
    rw [Legible, text, ofText]
    cases hmark : after? sharedMark.toList name.toList with
    | none =>
      refine ⟨fun _ _ h => ?_, fun _ => rfl⟩
      obtain ⟨rest, hrest⟩ := h
      rw [after?_eq_some.2 hrest.symm] at hmark
      cases hmark
    | some rest =>
      refine ⟨nofun, fun h => absurd ⟨rest, ?_⟩ (h rfl)⟩
      exact (after?_eq_some.1 hmark).symm

/-- What a text refers to is told by its text. -/
theorem legible_ofText (s : String) : (ofText s).Legible := by
  rw [legible_iff, ofText]
  cases hmark : after? sharedMark.toList s.toList with
  | some rest => exact nofun
  | none =>
    rintro - ⟨rest, hrest⟩
    rw [after?_eq_some.2 hrest.symm] at hmark
    cases hmark

end Variable

/-! ## Parts of instances -/

theorem Constraint.ofJson?_toJson {d : Json.Depth} (c : Constraint) :
    ofJson? d c.toJson = some c := by
  cases c <;>
    simp [ofJson?, toJson, Json.required, Json.orElse, Dict.get?_cons, Json.tag?, Json.str?]

theorem Pattern.ofJson?_toJson {d : Json.Depth} (p : Pattern) : ofJson? d p.toJson = some p := by
  have hfields : Json.dictOf? (Constraint.ofJson? d) (Json.ofDict Constraint.toJson p.fields) =
      some p.fields :=
    (Json.dictOf?_map id Constraint.toJson id fun f _ => f.2.ofJson?_toJson).trans
      (congrArg some (List.map_id p.fields))
  simp [ofJson?, toJson, Json.required, Json.orElse, Dict.get?_cons, Json.str?, hfields]

theorem Expectation.ofJson?_toJson {x : Expectation} (h : x.resume < UInt32.size) :
    ofJson? x.toJson = some x := by
  have hresume := Json.nat32?_ofNat h
  simp -implicitDefEqProofs [ofJson?, toJson, Json.required, Dict.get?_cons,
    x.pattern.ofJson?_toJson, hresume]

theorem Branch.ofJson?_toJson {b : Branch} (h : b.Fits) : ofJson? b.toJson = some b := by
  have hgroup := Json.nat32?_ofNat h.1
  have hsize := Json.nat32?_ofNat h.2.1
  have hindex := Json.nat32?_ofNat h.2.2
  simp -implicitDefEqProofs [ofJson?, toJson, Json.required, Dict.get?_cons, hgroup, hsize, hindex]

theorem Variable.ofJson?_toJson {v : Variable} (h : v.Legible) : ofJson? v.toJson = some v :=
  congrArg some h

theorem HeadState.ofJson?_toJson {s : HeadState} (hf : s.Fits)
    (hl : ∀ n v r, s = .waiting n (some v) r → v.Legible) : ofJson? s.toJson = some s := by
  cases s with
  | ready | finished | aborted =>
    rw [toJson, Json.object, ofJson?, Json.tagged?_object (by decide) (by simp)]
    simp [Json.required, Dict.get?_cons, Json.str?]
  | expecting expectations =>
    have hread := Json.listOf?_list fun x hx => Expectation.ofJson?_toJson (hf x hx)
    rw [toJson, Json.object, ofJson?, Json.tagged?_object (by decide) (by simp)]
    simp [Json.required, Dict.get?_cons, hread]
  | waiting n v r =>
    have hresult : Json.nullable Variable.ofJson? (Json.option Variable.toJson v) = some v :=
      Json.nullable_option fun v' hv => ⟨rfl, Variable.ofJson?_toJson (hl n v' r (by rw [hv]))⟩
    have hresume := Json.nat32?_ofNat (show r < UInt32.size from hf)
    rw [toJson, Json.object, ofJson?, Json.tagged?_object (by decide) (by simp)]
    simp -implicitDefEqProofs [Json.required, Json.optional, Dict.get?_cons, Json.str?, hresult,
      hresume]
  | atJoin group =>
    have hgroup := Json.nat32?_ofNat (show group < UInt32.size from hf)
    rw [toJson, Json.object, ofJson?, Json.tagged?_object (by decide) (by simp)]
    simp -implicitDefEqProofs [Json.required, Dict.get?_cons, hgroup]

theorem Head.ofJson?_toJson {h : Head} (hf : h.Fits) (hl : h.Legible) :
    ofJson? h.toJson = some h := by
  obtain ⟨hid, hposition, hspecificity, hstate, hbranches⟩ := hf
  have hid := Json.nat32?_ofNat hid
  have hposition := Json.nat32?_ofNat hposition
  have hspecificity := Json.nat32?_ofNat hspecificity
  have hstate := HeadState.ofJson?_toJson hstate hl
  have hbranches : Json.listOf? Branch.ofJson? (Json.list Branch.toJson h.branches.reverse) =
      some h.branches.reverse :=
    Json.listOf?_list fun b hb => Branch.ofJson?_toJson (hbranches b (List.mem_reverse.1 hb))
  have hbindings : (Json.obj h.bindings).fields? = some h.bindings := rfl
  rw [ofJson?, toJson, Json.record?_object]
  simp -implicitDefEqProofs [Json.required, Dict.get?_cons, hid, hposition, hstate, hbindings,
    hbranches, hspecificity]

theorem Status.ofName?_name (s : Status) : ofName? s.name = some s := by cases s <;> rfl

namespace Instance

/-- Forks are put in the order of their numbers, whatever the order of their texts is. -/
theorem basesOfJson?_basesToJson {bases : Dict Nat Bindings} (hs : bases.Sorted)
    (hf : ∀ b ∈ bases, b.1 < UInt32.size) : basesOfJson? (basesToJson bases) = some bases := by
  have hread : ∀ b ∈ bases, baseOfField? (toString b.1, .obj b.2) = some b := fun b hb => by
    rw [baseOfField?, Numeral.written?_toString (hf b hb)]
    rfl
  have hall : (bases.map fun b => (toString b.1, Json.obj b.2)).filterMap baseOfField? = bases := by
    have hsome := Json.mapM_map hread
    rw [Json.mapM_of_isSome, List.map_id'] at hsome
    · exact Option.some.inj hsome
    · rw [List.forall_mem_map]
      intro b hb
      rw [hread b hb]
      rfl
  rw [basesOfJson?, basesToJson, Json.fields?_object]
  generalize hfields : Dict.ofList (bases.map fun b => (toString b.1, Json.obj b.2)) = fields
  have hperm : fields.Perm (bases.map fun b => (toString b.1, Json.obj b.2)) := by
    rw [← hfields]
    refine Dict.ofList_perm ?_
    rw [List.map_map]
    exact List.Pairwise.map _ (fun _ _ hne heq => hne (Numeral.toString_inj heq))
      (List.pairwise_map.1 hs.nodup_keys)
  have hsome : ∀ f ∈ fields, (baseOfField? f).isSome = true := by
    intro f hf
    obtain ⟨b, hb, rfl⟩ := List.mem_map.1 (hperm.mem_iff.1 hf)
    rw [hread b hb]
    rfl
  rw [Option.bind_eq_bind, Option.bind_some, Json.mapM_of_isSome hsome, Option.map_some,
    Dict.ofList_eq_of_perm hs (hall ▸ hperm.filterMap baseOfField?)]

/-- **An instance can be read back.** -/
theorem ofJson?_toJson {i : Instance} (hf : i.Fits) (hl : i.Legible) (ho : i.observations = []) :
    ofJson? i.toJson = some i := by
  obtain ⟨hpriority, hcreated, hterminated, hnextHead, hnextGroup, hbases, hheads⟩ := hf
  have hpriority := Json.int32?_ofInt hpriority
  have hcreated := Json.nat64?_ofNat hcreated
  have hnextHead := Json.nat32?_ofNat hnextHead
  have hnextGroup := Json.nat32?_ofNat hnextGroup
  have hterminated : Json.nullable Json.nat64? (Json.option .ofNat i.terminatedAt) =
      some i.terminatedAt :=
    Json.nullable_option fun n hn => ⟨rfl, Json.nat64?_ofNat (hterminated n hn)⟩
  have hheads := Json.listOf?_list fun h hh => Head.ofJson?_toJson (hheads h hh) (hl.heads h hh)
  have hbases := basesOfJson?_basesToJson hl.bases hbases
  have hparent :
      Json.nullable Json.str? (Json.option (fun p : InstanceId => .str p.text) i.parent) =
        some (i.parent.map InstanceId.text) := by
    cases i.parent <;> rfl
  have hreason : Json.nullable Json.str? (Json.option .str i.abortReason) = some i.abortReason :=
    Json.nullable_option fun _ _ => ⟨rfl, rfl⟩
  have hoverridden : Json.listOf? Json.str? (Json.texts i.overridden) = some i.overridden :=
    Json.listOf?_list fun _ _ => rfl
  have hstatus : ((Json.str i.status.name).tag? .outer).bind Status.ofName? = some i.status :=
    i.status.ofName?_name
  rw [ofJson?, toJson, Json.record?_object, Option.bind_eq_bind, Option.bind_some]
  -- The members first: a reading that goes on would be simplified once for each member before it.
  simp only [Json.required, Json.optional, Json.orElse, Dict.get?_ofList, Dict.get?_cons,
    List.reverse_cons, List.reverse_nil, List.nil_append, List.cons_append, String.reduceEq,
    ↓reduceIte]
  simp -implicitDefEqProofs only [Option.bind_some, Json.str?, hpriority, hstatus, hheads, hcreated,
    hparent, hterminated, hreason, hoverridden, hnextHead, hnextGroup, hbases]
  change some { i with
    parent := (i.parent.map InstanceId.text).map InstanceId.mk, observations := [] } = some i
  have hsame : (i.parent.map InstanceId.text).map InstanceId.mk = i.parent := by
    cases i.parent <;> rfl
  rw [hsame, ← ho]

end Instance

end EventFlow

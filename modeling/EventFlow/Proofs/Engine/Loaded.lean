import EventFlow.Proofs.Catalog
import EventFlow.Proofs.Engine.Ending
import EventFlow.Proofs.Engine.Rations
import EventFlow.Proofs.Engine.Refusal
import EventFlow.Query.Eval

/-!
# No flow is missing

An engine looks up a flow in two places: before it moves a head of an instance, and before it starts
a child that some head has asked for.  It is prepared not to find one, and then aborts the instance
or passes over the child.  None of this ever happens.  Instances are only started for flows that are
loaded, and states with others are not gone on from; and a catalog is checked for all flows that any
part of any of its flows starts.

## What is here

* `Engine.assemble` is an engine for a catalog, which need not have been filled without failures.
  `Engine.create` is a case of it (`assemble_attempts_of_create`).
* `Engine.Knows` says that a flow is found, and `Engine.Stocks` that the flows of all instances are
  loaded, which is so whatever is done with an engine (`stocks_arrival`).
* `Engine.Supplied` is a round in which nothing is missing (`supplied`).

**`no_flow_is_missing`** puts these together, for all that can be done with an engine.
-/

set_option autoImplicit false

namespace EventFlow

section

variable {Compiled Found : Type} [Query.Library Compiled Found]

namespace Engine

/-- An engine for the flows of a catalog, which must be complete, under a configuration that can
work. -/
def assemble (c : Catalog) (config : Config) : Except Error Engine := do
  config.check
  c.check
  return ⟨c, config⟩

variable (e : Engine)

/-- Looking up a flow finds it, and there is no other flow with this identity. -/
def Knows (id : FlowId) : Prop :=
  ∃ l, e.catalog.find? id = some l ∧ ∀ l', l' ∈ e.catalog.flows ∧ l'.id = id ↔ l' = l

/-- The flows of all instances are loaded. -/
def Stocks (s : State) : Prop := ∀ i ∈ s.instances, (e.catalog.find? i.flow).isSome = true

/-- The rounds of a demand. -/
def roundsOf (s : State) : Demand → List (Step × Event)
  | .command (.request r) => e.roundsBy s r
  | _ => []

/-- What is asked for in a round, when its heads have moved and its flows were activated. -/
def wanted (event : Event) (s : Step) : Starting :=
  let (s, requests) := e.moveHeads event s
  let (s, requests) := e.activate event s requests
  ⟨s, requests, childrenOf requests⟩

/-- Every flow is found that is looked up in a round: when it is a head's turn to move, the flow of
its instance, and as long as there are children to be looked at, the flows of all of them. -/
structure Supplied (event : Event) (s : Step) : Prop where
  moved {before after : List (Nat × HeadId)} {mover : Nat × HeadId} {i : Instance}
    (turn : movers s event = before ++ mover :: after) :
    (before.foldl (e.moveHead event) (s, [])).1.state.instances[mover.1]? = some i →
      e.Knows i.flow
  started {w : Starting}
    (reached : Relation.ReflTransGen (fun w w' => e.startNext? w = some w') (e.wanted event s) w) :
    ∀ c ∈ w.children, e.Knows c.request.flow

variable {e} {c : Catalog} {config : Config} {s : State}

/-! ## Engines -/

theorem assemble_ok (h : assemble c config = .ok e) :
    config.check = .ok () ∧ c.check = .ok () ∧ e = ⟨c, config⟩ := by
  obtain ⟨_, hconfig, h⟩ := exists_of_bind_ok h
  obtain ⟨_, hcheck, h⟩ := exists_of_bind_ok h
  cases h
  exact ⟨hconfig, hcheck, rfl⟩

/-- An engine that is created for some flows is the one for the catalog of them. -/
theorem assemble_attempts_of_create {flows : List Flow} (h : create flows config = .ok e) :
    assemble (.attempts flows) config = .ok e := by
  obtain ⟨hload, hconfig, rfl⟩ := create_ok h
  obtain ⟨c, hfold, hload⟩ := exists_of_bind_ok hload
  obtain ⟨_, hcheck, hload⟩ := exists_of_bind_ok hload
  cases hload
  rw [Catalog.attempts, Catalog.attempts_of_foldlM hfold, assemble, hconfig, hcheck]
  rfl

theorem knows_of_isSome (hc : e.catalog.Formed) {id : FlowId}
    (h : (e.catalog.find? id).isSome = true) : e.Knows id := by
  obtain ⟨l, hl⟩ := Option.isSome_iff_exists.1 h
  refine ⟨l, hl, fun l' => ?_⟩
  rw [← Catalog.find?_eq_some_iff hc, hl, Option.some.injEq]
  exact eq_comm

/-! ## Instances -/

/-- Whatever happens to an instance, its flow is loaded. -/
theorem loaded_keep (e : Engine) :
    e.InstancesKeep fun i => (e.catalog.find? i.flow).isSome = true where
  capture _ _ _ := trivial
  start {flow bindings r} loaded id priority createdAt parent specificity w _ hr := by
    rw [← hr, (remains_start ..).1.flow]
    exact ⟨List.find?_isSome.2 ⟨flow, loaded, decide_eq_true rfl⟩, fun _ _ => trivial⟩
  advance hi _ hadv := by
    rw [(remains_advance? hadv).1.flow]
    exact ⟨hi, fun _ _ => trivial⟩
  abort reason hi := by rwa [(remains_abort _ reason).flow]
  note _ hi := hi
  windUp _ _ hi := hi
  drain hi := hi

/-- The flows of all instances are loaded of a state that an engine goes on from. -/
theorem stocks_of_checkState (h : e.checkState s = .ok ()) : e.Stocks s := by
  intro i hi
  have hrequire := forM_ok_iff.1 h i hi
  rw [Catalog.require] at hrequire
  cases hfind : e.catalog.find? i.flow with
  | some l => rfl
  | none =>
    rw [hfind] at hrequire
    cases hrequire

theorem stocks_adopt (hs : e.Stocks s) (s' : State) : e.Stocks (e.comply s (.adopt s')).state := by
  cases hcheck : e.checkState s' with
  | error err =>
    rw [adopt_of_error hcheck]
    exact hs
  | ok _ =>
    rw [adopt_of_ok hcheck]
    exact stocks_of_checkState hcheck

/-- Whatever is done with an engine, the flows of all instances are loaded. -/
theorem stocks_comply (hs : e.Stocks s) (d : Demand) : e.Stocks (e.comply s d).state := by
  cases d with
  | adopt s' => exact stocks_adopt hs s'
  | command c =>
    cases c with
    | request r => exact ((loaded_keep e).respond hs r).1
    | setGlobal path value => exact hs
    | restore text =>
      cases hread : State.ofText? text with
      | none =>
        have hrefused : e.admits s (.command (.restore text)) = .error .malformedJson := by
          rw [admits, hread]
        rw [comply_of_error hrefused]
        exact hs
      | some s' =>
        rw [comply_restore hread]
        exact stocks_adopt hs s'

theorem stocks_arrival (e : Engine) (ids : IdSource) (ds : List Demand) :
    e.Stocks (e.arrival (.initial ids) ds) :=
  List.foldlRecOn ds _ (motive := e.Stocks) nofun fun _ hs d _ => stocks_comply hs d

/-! ## Children -/

/-- What is still to be looked at has been asked for by instances of loaded flows. -/
theorem issued_startNext? {w w' : Starting} (hw : ∀ c ∈ w.children, e.Issued c)
    (h : e.startNext? w = some w') : ∀ c ∈ w'.children, e.Issued c := by
  obtain ⟨s, requests, _ | ⟨c, rest⟩⟩ := w
  · cases h
  · have hrest : ∀ c ∈ rest, e.Issued c := fun c hc => hw c (List.mem_cons_of_mem _ hc)
    rw [startNext?] at h
    simp only [Option.some.injEq] at h
    subst h
    split
    · exact hrest
    · next flow hflow =>
      split
      · exact hrest
      · exact List.forall_mem_append.2
          ⟨hrest, issued_spawn (List.mem_of_find?_eq_some hflow) _ _ _ _ _⟩

theorem issued_wanted (e : Engine) (event : Event) (s : Step) :
    ∀ c ∈ (e.wanted event s).children, e.Issued c :=
  (issued_starts e).activate event (issued_moveHeads e event s)

/-! ## Rounds -/

/-- **Nothing is missing in a round** that begins with instances of loaded flows. -/
theorem supplied (hformed : e.catalog.Formed) (hcomplete : e.Complete) {event : Event} {s : Step}
    (hs : e.Stocks s.state) : e.Supplied event s where
  moved {before _ _ i} _ hi := by
    have hstocks : e.Stocks (before.foldl (e.moveHead event) (s, [])).1.state := by
      refine List.foldlRecOn before (e.moveHead event)
        (motive := fun acc : Step × Requests => e.Stocks acc.1.state) hs fun acc hacc mover _ => ?_
      exact (loaded_keep e).moveHead hacc mover
    exact knows_of_isSome hformed (hstocks i (List.mem_of_getElem? hi))
  started {w} reached c hc := by
    have hissued : ∀ c ∈ w.children, e.Issued c := by
      clear hc
      induction reached with
      | refl => exact issued_wanted e event s
      | tail _ hnext ih => exact issued_startNext? ih hnext
    exact knows_of_isSome hformed (hcomplete.loads (hissued c hc))

/-- **No flow is missing, whatever is done with an engine.**  However its catalog was filled, and
whichever states it has gone on from, the flow of every instance is found by its identity, and so is
every flow that an instruction of a loaded flow starts.  In every round of every demand the flows of
the heads that move are found when it is their turn, and the flows of all children that are asked
for. -/
theorem no_flow_is_missing {flows : List Flow} (he : assemble (.attempts flows) config = .ok e)
    (ids : IdSource) (ds : List Demand) :
    (∀ id, (Shelf.attempts flows).get? id = e.catalog.find? id) ∧
      (∀ l ∈ e.catalog.flows, ∀ (position : Nat) (flow : FlowId) (child : Option Variable),
        l.program.fetch position = .startFlow flow child → e.Knows flow) ∧
      (∀ i ∈ (e.arrival (.initial ids) ds).instances, e.Knows i.flow) ∧
      ∀ d, ∀ round ∈ e.roundsOf (e.arrival (.initial ids) ds) d, e.Supplied round.2 round.1 := by
  obtain ⟨-, hcheck, rfl⟩ := assemble_ok he
  have hformed := Catalog.formed_attempts flows
  have hcomplete : Complete ⟨.attempts flows, config⟩ := complete_of_check hformed hcheck
  have hstocks := stocks_arrival ⟨.attempts flows, config⟩ ids ds
  refine ⟨fun id => Shelf.get?_attempts flows id,
    fun l hl position flow child hfetch =>
      knows_of_isSome hformed (hcomplete l hl position flow child hfetch),
    fun i hi => knows_of_isSome hformed (hstocks i hi), fun d round hround => ?_⟩
  cases d with
  | adopt s' => cases hround
  | command c =>
    cases c with
    | request r =>
      exact supplied hformed hcomplete (((loaded_keep _).respond hstocks r).2 round hround)
    | setGlobal path value => cases hround
    | restore text => cases hround

end Engine

end

namespace Engine

/-! ## A catalog with failures on the way -/

/-- A flow that nothing activates. -/
def egg (id : String) : Flow where
  id := ⟨id⟩
  description := none
  priority := none
  activation := none
  body := [.expect ⟨"end", []⟩]

/-- A flow that starts another one in a branch. -/
def nest : Flow where
  id := ⟨"nest"⟩
  description := none
  priority := none
  activation := some ⟨"go", []⟩
  body := [.fork [[.expect ⟨"end", []⟩], [.startFlow ⟨"egg"⟩ none]], .join]

/-- Attempts to register flows, of which the second and the third one fail. -/
def tries : List Flow := [egg "egg", egg "egg", egg " ", nest]

/-- Two flows are registered, and both have an instance after an event. -/
theorem no_flow_is_missing_nest :
    let e : Engine := ⟨.attempts tries, .default⟩
    let s := e.arrival (.initial (.seeded 0)) [.command (.request (.event (plain "1" "go")))]
    assemble (.attempts tries) .default = .ok e ∧
      e.catalog.flows.map LoadedFlow.id = [⟨"egg"⟩, ⟨"nest"⟩] ∧
      s.instances.map Instance.flow = [⟨"nest"⟩, ⟨"egg"⟩] ∧ ∀ i ∈ s.instances, e.Knows i.flow := by
  intro e s
  have he : assemble (.attempts tries) .default = .ok e := by rfl
  exact ⟨he, by decide +kernel, by decide +kernel, (no_flow_is_missing he _ _).2.2.1⟩

end Engine

end EventFlow

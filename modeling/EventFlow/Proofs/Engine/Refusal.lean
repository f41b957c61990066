import EventFlow.Host
import EventFlow.Proofs.Engine.Snapshot
import EventFlow.Query.Eval

/-!
# What is refused

An engine refuses what it cannot make sense of: an event that is malformed, the end of an instance
that it does not know, a snapshot that cannot be read or has instances of flows that are not loaded.
All of this is found out before anything is done, so a refusal leaves no trace: there are no
signals, and the state is the one from before.

There is one exception.  A payload that comes with a name only is given an identity before it is
looked at, and if it is refused, then that identity is used up.

## What is here

* `Demand` is anything that an engine can be asked, `Engine.comply` what it makes of it, and
  `Engine.admits` the check that decides whether it is refused.
* `comply_of_error` and `comply_of_ok`: what follows when that check fails, and when it does not.
* `Engine.exchange` are some demands with the answers to them.

**`refusals_leave_no_trace`** puts these together: whatever else is done with an engine does not
depend on refused demands, named payloads excepted.  `named_refusal_leaves_trace` shows why these
are excepted.
-/

set_option autoImplicit false

namespace EventFlow

section

variable {Compiled Found : Type} [Query.Library Compiled Found]

/-- Anything that an engine can be asked. -/
inductive Demand
  | command (c : Command)
  /-- Go on from a state. -/
  | adopt (s : State)

/-- Whether a demand is to process a payload that comes with a name only. -/
def Demand.isNamed : Demand → Bool
  | .command (.request (.named _ _)) => true
  | _ => false

/-- Whether a demand was refused. -/
def Reply.isRefusal (r : Reply) : Bool :=
  match r.outcome with
  | .error _ => true
  | .ok _ => false

/-- Whether there is an instance with an identity that has not ended. -/
def State.isLive (s : State) (id : InstanceId) : Bool :=
  (s.instance? id).any fun i => !i.status.isTerminal

namespace Engine

variable (e : Engine)

/-- What an engine makes of a demand. -/
def comply (s : State) : Demand → Reply
  | .command c => e.perform s c
  | .adopt s' =>
    match e.checkState s' with
    | .ok () => ⟨.ok [], [], s'⟩
    | .error err => .refuse s err

/-- The check that a demand must pass. -/
def admits (s : State) : Demand → Check
  | .command (.request (.named name payload)) =>
    (Event.mk s.ids.nextEvent.1 name payload .external).check
  | .command (.request (.event event)) => event.check
  | .command (.request (.abort id _)) =>
    if s.isLive id then .ok () else .error (.unknownInstance id)
  | .command (.setGlobal _ _) => .ok ()
  | .command (.restore text) =>
    match State.ofText? text with
    | none => .error .malformedJson
    | some s' => e.checkState s'
  | .adopt s' => e.checkState s'

/-- Some demands, one after the other, with the answers to them. -/
def exchange : State → List Demand → List (Demand × Reply)
  | _, [] => []
  | s, d :: ds => (d, e.comply s d) :: exchange (e.comply s d).state ds

/-- The state that some demands lead to. -/
def arrival (s : State) (ds : List Demand) : State :=
  ds.foldl (fun s d => (e.comply s d).state) s

/-- A host goes on from a state as its engine does. -/
theorem restore_host {X : Type} [Executor X] (h : Host X) (s : State) :
    h.restore s =
      match (h.engine.comply h.state (.adopt s)).outcome with
      | .ok _ => (.ok (), { h.reach with state := (h.engine.comply h.state (.adopt s)).state })
      | .error err => (.error err, h.reach) := by
  rw [Host.restore, comply]
  cases h.engine.checkState s <;> rfl

variable {e} {s : State} {d : Demand} {err : Error}

/-! ## Refusals -/

theorem handle_of_error {event : Event} (h : event.check = .error err) :
    e.handle s event = .refuse s err := by
  rw [handle, h]

theorem handle_of_ok {event : Event} (h : event.check = .ok ()) :
    ∃ events, (e.handle s event).outcome = .ok events := by
  rw [handle, h]
  exact ⟨_, rfl⟩

/-- An instance is aborted if it can be seen and has not ended. -/
theorem abort_of_isLive {id : InstanceId} {reason : String} (h : s.isLive id = true) :
    ∃ events, (e.abort s id reason).outcome = .ok events := by
  rw [State.isLive] at h
  rw [abort]
  cases hi : s.instance? id with
  | none =>
    rw [hi] at h
    cases h
  | some i =>
    rw [hi, Option.any_some, Bool.not_eq_true'] at h
    simp only [h, Bool.false_eq_true, if_false]
    exact ⟨_, rfl⟩

theorem abort_of_not_isLive {id : InstanceId} {reason : String} (h : ¬s.isLive id = true) :
    e.abort s id reason = .refuse s (.unknownInstance id) := by
  rw [State.isLive] at h
  rw [abort]
  cases hi : s.instance? id with
  | none => rfl
  | some i =>
    rw [hi, Option.any_some, Bool.not_eq_true', Bool.not_eq_false] at h
    exact if_pos h

/-- A text is gone on from like the state it holds. -/
theorem comply_restore {text : String} {s' : State} (h : State.ofText? text = some s') :
    e.comply s (.command (.restore text)) = e.comply s (.adopt s') := by
  rw [comply, comply, perform, restore, h]
  cases hcheck : e.checkState s' with
  | ok _ =>
    simp only [hcheck]
    rfl
  | error err =>
    simp only [hcheck]
    rfl

theorem adopt_of_error {s' : State} (h : e.checkState s' = .error err) :
    e.comply s (.adopt s') = .refuse s err := by
  rw [comply, h]

theorem adopt_of_ok {s' : State} (h : e.checkState s' = .ok ()) :
    e.comply s (.adopt s') = ⟨.ok [], [], s'⟩ := by
  rw [comply, h]

/-- A demand that does not pass its check leaves no signals, and the state as it was; but if it is a
named payload, then the identity it was given is used up. -/
theorem comply_of_error (h : e.admits s d = .error err) :
    e.comply s d =
      .refuse (if d.isNamed then { s with ids := s.ids.nextEvent.2 } else s) err := by
  cases d with
  | adopt s' => exact adopt_of_error h
  | command c =>
    cases c with
    | request r =>
      cases r with
      | named name payload => exact handle_of_error h
      | event event => exact handle_of_error h
      | abort id reason =>
        rw [admits] at h
        split at h
        · cases h
        · next hlive =>
          cases h
          exact abort_of_not_isLive hlive
    | setGlobal path value => cases h
    | restore text =>
      rw [admits] at h
      split at h
      · next hread =>
        cases h
        rw [comply, perform, restore, hread]
        rfl
      · next s' hread =>
        rw [comply_restore hread]
        exact adopt_of_error h

/-- A demand that passes its check is answered. -/
theorem comply_of_ok (h : e.admits s d = .ok ()) :
    ∃ events, (e.comply s d).outcome = .ok events := by
  cases d with
  | adopt s' => exact ⟨_, congrArg Reply.outcome (adopt_of_ok h)⟩
  | command c =>
    cases c with
    | request r =>
      cases r with
      | named name payload => exact handle_of_ok h
      | event event => exact handle_of_ok h
      | abort id reason =>
        rw [admits] at h
        split at h
        · next hlive => exact abort_of_isLive hlive
        · cases h
    | setGlobal path value => exact ⟨_, rfl⟩
    | restore text =>
      rw [admits] at h
      split at h
      · cases h
      · next s' hread =>
        rw [comply_restore hread]
        exact ⟨_, congrArg Reply.outcome (adopt_of_ok h)⟩

/-- A demand is refused exactly if it does not pass its check. -/
theorem isRefusal_comply : (e.comply s d).isRefusal = true ↔ ∃ err, e.admits s d = .error err := by
  cases h : e.admits s d with
  | ok _ =>
    obtain ⟨events, hok⟩ := comply_of_ok h
    simp [Reply.isRefusal, hok]
  | error err => simp [comply_of_error h, Reply.isRefusal, Reply.refuse]

/-- The state after a refusal. -/
theorem state_of_isRefusal (h : (e.comply s d).isRefusal = true) (hd : d.isNamed = false) :
    (e.comply s d).state = s := by
  obtain ⟨err, herr⟩ := isRefusal_comply.1 h
  rw [comply_of_error herr, hd]
  rfl

/-! ## Runs -/

theorem map_fst_exchange (s : State) (ds : List Demand) :
    (e.exchange s ds).map Prod.fst = ds := by
  induction ds generalizing s with
  | nil => rfl
  | cons d ds ih => rw [exchange, List.map_cons, ih]

/-- Refused demands may be left out of a run, unless they are named payloads. -/
theorem exchange_filter {keep : Demand × Reply → Bool} {ds : List Demand}
    (hkeep : ∀ x ∈ e.exchange s ds, keep x = false → x.2.isRefusal = true ∧ x.1.isNamed = false) :
    e.exchange s (((e.exchange s ds).filter keep).map Prod.fst) = (e.exchange s ds).filter keep ∧
      e.arrival s (((e.exchange s ds).filter keep).map Prod.fst) = e.arrival s ds := by
  induction ds generalizing s with
  | nil => exact ⟨rfl, rfl⟩
  | cons d ds ih =>
    rw [exchange] at hkeep ⊢
    obtain ⟨hfirst, hrest⟩ := List.forall_mem_cons.1 hkeep
    obtain ⟨hexchange, harrival⟩ := ih hrest
    rw [List.filter_cons]
    cases hk : keep (d, e.comply s d) with
    | true =>
      rw [if_pos rfl, List.map_cons, exchange, hexchange]
      exact ⟨rfl, harrival⟩
    | false =>
      obtain ⟨hrefused, hnamed⟩ := hfirst hk
      have hstate : (e.comply s d).state = s := state_of_isRefusal hrefused hnamed
      rw [hstate] at hexchange harrival
      rw [if_neg Bool.false_ne_true, hstate]
      refine ⟨hexchange, harrival.trans ?_⟩
      rw [arrival, arrival, List.foldl_cons, hstate]

/-- **A refusal leaves no trace, unless it is that of a named payload.**  What is refused is decided
by a check of the demand against the state; then there are no signals, and the state is the same, up
to the identity of a named payload.  So the answers to other demands, and the state at the end of a
run, do not depend on refused demands that are no named payloads. -/
theorem refusals_leave_no_trace (e : Engine) (s : State) :
    (∀ d, match e.admits s d with
      | .ok () => ∃ events, (e.comply s d).outcome = .ok events
      | .error err => e.comply s d =
          .refuse (if d.isNamed then { s with ids := s.ids.nextEvent.2 } else s) err) ∧
      ∀ (ds : List Demand) (keep : Demand × Reply → Bool),
        (∀ x ∈ e.exchange s ds, keep x = false → x.2.isRefusal = true ∧ x.1.isNamed = false) →
          e.exchange s (((e.exchange s ds).filter keep).map Prod.fst) =
              (e.exchange s ds).filter keep ∧
            e.arrival s (((e.exchange s ds).filter keep).map Prod.fst) = e.arrival s ds := by
  refine ⟨fun d => ?_, fun ds keep hkeep => exchange_filter hkeep⟩
  cases h : e.admits s d with
  | ok _ => exact comply_of_ok h
  | error err => exact comply_of_error h

end Engine

end

namespace Engine

/-! ## Refused demands among others -/

/-- What no engine accepts: a malformed event, the end of an instance that was never there, a text
that is no snapshot, and a state with an instance of a flow that is not loaded. -/
def nonsense : List Demand :=
  [.command (.request (.event (plain "" "go"))),
    .command (.request (.abort ⟨"nobody"⟩ "why")),
    .command (.restore "\x7b"),
    .adopt { State.initial (.seeded 0) with
      instances := [Instance.spawn ⟨"i"⟩ ⟨"none"⟩ 0 0 none [] 0] }]

/-- All of this is refused before an event is processed, and the event is processed as if nothing
had been refused. -/
theorem refusals_leave_no_trace_forked :
    let go : Demand := .command (.request (.event (plain "1" "go")))
    let s : State := .initial (.seeded 0)
    (forked.exchange s (nonsense ++ [go])).map (fun x => x.2.isRefusal) =
        [true, true, true, true, false] ∧
      forked.exchange s [go] =
        (forked.exchange s (nonsense ++ [go])).filter fun x => !x.2.isRefusal := by
  intro go s
  have hrefused : (forked.exchange s (nonsense ++ [go])).map (fun x => x.2.isRefusal) =
      [true, true, true, true, false] := by decide +kernel
  have hadmitted : ((forked.exchange s (nonsense ++ [go])).filter fun x => !x.2.isRefusal).map
      Prod.fst = [go] := by rfl
  have hnamed : ∀ d ∈ nonsense ++ [go], d.isNamed = false := by decide
  have hdemand : ∀ x ∈ forked.exchange s (nonsense ++ [go]), x.1 ∈ nonsense ++ [go] := by
    intro x hx
    rw [← map_fst_exchange (e := forked) s (nonsense ++ [go])]
    exact List.mem_map_of_mem hx
  obtain ⟨hexchange, -⟩ := (refusals_leave_no_trace forked s).2 (nonsense ++ [go])
    (fun x => !x.2.isRefusal) fun x hx hkeep => ⟨by simpa using hkeep, hnamed x.1 (hdemand x hx)⟩
  rw [hadmitted] at hexchange
  exact ⟨hrefused, hexchange⟩

/-- **A named payload that is refused uses up an identity.**  So an event that is processed later
starts an instance under another identity. -/
theorem named_refusal_leaves_trace :
    let refused : Demand := .command (.request (.named Event.actionResultName []))
    let next : Demand := .command (.request (.event (plain "1" "go")))
    let s : State := .initial (.seeded 0)
    (forked.comply s refused).isRefusal = true ∧ (forked.comply s refused).state.ids ≠ s.ids ∧
      (forked.arrival s [refused, next]).instances.map Instance.id ≠
        (forked.arrival s [next]).instances.map Instance.id := by
  decide +kernel

end Engine

end EventFlow

import EventFlow.Engine.Spawn

/-!
# Rounds

One round processes one event: every head that expects it moves, flows it activates are started, and
so are the children that any of these ask for; then their emissions compete, and instances that have
come to their ends are wound up.

The heads that move are chosen before the first of them does, so that neither a head that a fork
makes nor an instance that is started in a round sees the event of that round.
-/

set_option autoImplicit false

namespace EventFlow

variable {Compiled Found : Type} [Query.Library Compiled Found]

namespace Engine

/-! ## Moving heads -/

/-- The heads an event moves, each with the place of its instance. -/
def movers (s : Step) (event : Event) : List (Nat × HeadId) :=
  s.state.instances.zipIdx.flatMap fun i => (i.1.matchingHeads event).map (i.2, ·)

/-- Why an instance is aborted whose flow is gone. -/
def unloadedReason (flow : FlowId) : String := "flow '" ++ flow.text ++ "' is not loaded"

/-- Move a head. -/
def moveHead (e : Engine) (event : Event) (acc : Step × Requests) (mover : Nat × HeadId) :
    Step × Requests :=
  let (s, requests) := acc
  match s.state.instances[mover.1]? with
  | none => acc
  | some i =>
    let put (i : Instance) (s : State) : State :=
      { s with instances := s.instances.set mover.1 i }
    match e.catalog.find? i.flow with
    | none => (s.update (put (i.abort (unloadedReason i.flow))), requests)
    | some flow =>
      match i.advance? flow.program s.state.world mover.2 event with
      | none => acc
      | some (i', world, effects) =>
        (s.update fun s => put i' (s.setWorld world), requests ++ [(i.id, effects)])

/-- Move all heads an event moves. -/
def moveHeads (e : Engine) (event : Event) (s : Step) : Step × Requests :=
  (movers s event).foldl (e.moveHead event) (s, [])

/-! ## Emissions -/

/-- Let an emission that won take effect. -/
def deliver (s : Step) (w : Emission) : Step :=
  match w.intent with
  | .send event .internal => s.enqueue event
  | .send event .external => { s with outputs := s.outputs ++ [event] }
  | .call request => s.dispatch w.instanceId request

/-- The result of a call that lost. -/
def lostResult (lost : Overridden) (request : CallRequest) : Event :=
  .actionResult request.invocation request.action <| .failed
    ⟨.overridden, "instance '" ++ lost.winner.text ++ "' won conflict group '" ++
      lost.emission.key.getD "" ++ "'"⟩

/-- What the instance that lost is told. -/
def lostNotice (lost : Overridden) : Dict String Json :=
  let e := lost.emission
  Dict.ofList
    [("instance_id", .str e.instanceId.text), ("flow", .str e.flow.text),
     ("head", .ofNat e.head.number), ("event_name", .str e.name),
     (match e.intent with
      | .send _ _ => ("event_id", .str e.id)
      | .call _ => ("invocation_id", .str e.id)),
     ("conflict_key", Json.option .str e.key), ("winner_instance_id", .str lost.winner.text)]

/-- Tell an instance that its emission lost.  A call that lost is not made; its head gets the result
of a failed call instead, and before the notice. -/
def suppress (s : Step) (lost : Overridden) : Step :=
  let e := lost.emission
  let s := s.updateInstance e.instanceId (·.noteOverridden e.id)
  let s := s.observe (.emissionOverridden e.instanceId e.name (e.key.getD "") lost.winner)
  let s :=
    match e.intent with
    | .send _ _ => s
    | .call request => s.enqueue (lostResult lost request)
  s.announce Event.overriddenName (lostNotice lost)

/-- Let the emissions of a round compete, and start its timers. -/
def apply (e : Engine) (s : Step) (requests : Requests) : Step :=
  let resolution := Conflict.resolve e.config.tieBreak (requests.flatMap fun r => r.2.emissions)
  let s := resolution.ties.foldl
    (fun s t => s.observe (.tieBroken t.key t.winner t.runnerUp t.unresolvable)) s
  let s := resolution.winners.foldl deliver s
  let s := resolution.overridden.foldl suppress s
  let timers := requests.flatMap fun r => r.2.timers.map (r.1, ·)
  timers.foldl (fun s t => s.schedule t.1 t.2) s

/-! ## Endings -/

/-- The places of the instances that have ended and were not wound up. -/
def ended (s : Step) : List Nat :=
  (s.state.instances.zipIdx.filter fun i =>
    i.1.status.isTerminal && i.1.terminatedAt.isNone).map Prod.snd

/-- What is told about the end of an instance. -/
def endNotice (i : Instance) : Dict String Json :=
  Dict.ofList <|
    [("instance_id", .str i.id.text), ("flow", .str i.flow.text),
     ("parent_instance_id", Json.option (fun p => .str p.text) i.parent)] ++
      if i.status = .aborted then [("reason", Json.option .str i.abortReason)] else []

/-- Wind up the instance at a place: note the step, give up its calls if it was aborted and its
timers in any case, and announce its end. -/
def windUp (s : Step) (k : Nat) : Step :=
  match s.state.instances[k]? with
  | none => s
  | some i =>
    let s := s.update fun s =>
      { s with instances := s.instances.set k { i with terminatedAt := some s.step } }
    let s := if i.status = .aborted then s.cancelCallsOf i.id else s
    let s := s.stopTimersOf i.id
    s.announce (if i.status = .aborted then Event.abortedName else Event.finishedName)
      (endNotice i)

/-- Wind up all instances that have ended. -/
def windUpEnded (s : Step) : Step := (ended s).foldl windUp s

/-! ## Rounds -/

/-- Process one event. -/
def round (e : Engine) (s : Step) (event : Event) : Step :=
  let (s, requests) := e.moveHeads event s
  let (s, requests) := e.activate event s requests
  let (s, requests) := e.startChildren s requests (childrenOf requests)
  windUpEnded (e.apply s requests)

/-- Take the next event that was not processed yet from the queue, dropping those that were. -/
def nextFresh (s : Step) : List Event → Step × Option Event
  | [] => ({ s with queue := [] }, none)
  | event :: rest =>
    if s.seen.contains event.id then
      nextFresh (s.observe (.duplicateDropped event.id event.name)) rest
    else ({ s with queue := rest, seen := event.id :: s.seen }, some event)

/-- Process the queue, but not more events than a budget allows. -/
def runQueue (e : Engine) : Nat → Step → Step
  | 0, s =>
    if s.queue.isEmpty then s
    else { s.observe (.budgetExhausted s.state.step s.queue.length) with queue := [] }
  | budget + 1, s =>
    match nextFresh s s.queue with
    | (s, none) => s
    | (s, some event) => runQueue e budget (e.round s event).drain

end Engine

end EventFlow

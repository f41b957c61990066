import EventFlow.Engine.Step

/-!
# Starting instances

Within a step, every activation pattern may start its flow only so often, and so may `start_flow`
for every flow: a request beyond the limit is reported and dropped (`reserve?`).  So children can
start children for a while, but not for ever: every grant uses up some `room`, of which a finite
catalog has only so much.
-/

set_option autoImplicit false

namespace EventFlow

variable {Compiled Found : Type} [Query.Library Compiled Found]

/-- What the heads of some instances have asked for, in the order in which they ran. -/
abbrev Requests := List (InstanceId × Effects)

/-- A child that an instance asks for. -/
structure Child where
  parent : InstanceId
  request : ChildRequest

namespace Engine

/-- How many times a key was granted in a step. -/
def granted (s : Step) (key : String) : Nat := (Dict.get? s.counts key).getD 0

/-- Grant a start under a key, unless it was granted too often. -/
def reserve? (e : Engine) (s : Step) (key : String) : Option Step :=
  if granted s key < e.config.maxInstancesPerPattern then
    some { s with counts := Dict.put s.counts key (granted s key + 1) }
  else none

/-- Report that a flow was not started. -/
def refuse (e : Engine) (s : Step) (flow : FlowId) (key : String) : Step :=
  s.observe (.activationLimitReached flow key e.config.maxInstancesPerPattern)

/-- Start an instance of a flow and run it. -/
def spawn (e : Engine) (s : Step) (flow : LoadedFlow) (id : InstanceId)
    (parent : Option InstanceId) (bindings : Bindings) (specificity : Nat) : Step × Effects :=
  let priority := flow.flow.priority.getD e.config.defaultPriority
  let inst :=
    (Instance.spawn id flow.id priority s.state.nextInstance parent bindings specificity).observe
      (.instanceSpawned id flow.id parent)
  let (inst, world, effects) := inst.start flow.program s.state.world
  let s := s.update fun s =>
    { s.setWorld world with
      instances := s.instances ++ [inst]
      nextInstance := s.nextInstance + 1 }
  (s, effects)

/-! ## Activation -/

/-- Start a flow if an event matches its activation. -/
def activateFlow (e : Engine) (event : Event) (acc : Step × Requests) (flow : LoadedFlow) :
    Step × Requests :=
  let (s, requests) := acc
  match flow.flow.activation.bind fun p => (p.match? event []).map (p, ·) with
  | none => (s, requests)
  | some (pattern, bindings) =>
    match e.reserve? s pattern.key with
    | none => (e.refuse s flow.id pattern.key, requests)
    | some s =>
      let (id, ids) := s.state.ids.nextInstance
      let s := s.update fun s => { s with ids }
      let (s, effects) := e.spawn s flow id none bindings pattern.specificity
      (s, requests ++ [(id, effects)])

/-- Start every flow whose activation an event matches. -/
def activate (e : Engine) (event : Event) (s : Step) (requests : Requests) : Step × Requests :=
  e.catalog.flows.foldl (e.activateFlow event) (s, requests)

/-! ## Children -/

/-- The key under which starts of a flow by other flows are counted. -/
def childKey (flow : FlowId) : String := "start_flow:" ++ flow.text

/-- The children some instances ask for, in order. -/
def childrenOf (requests : Requests) : List Child :=
  requests.flatMap fun r => r.2.children.map (⟨r.1, ·⟩)

/-- A child whose start was granted, and what to look at next. -/
structure Grant where
  flow : LoadedFlow
  child : Child
  rest : List Child

/-- Look for the first child that may be started.  Flows that are not loaded are passed over, and
refused starts are reported. -/
def nextGrant (e : Engine) (s : Step) : List Child → Step × Option Grant
  | [] => (s, none)
  | c :: rest =>
    match e.catalog.find? c.request.flow with
    | none => nextGrant e s rest
    | some flow =>
      match e.reserve? s (childKey c.request.flow) with
      | none => nextGrant e (e.refuse s flow.id (childKey c.request.flow)) rest
      | some s => (s, some ⟨flow, c, rest⟩)

/-- How many more children a step may start. -/
def room (e : Engine) (s : Step) : Nat :=
  total (fun l => e.config.maxInstancesPerPattern - granted s (childKey l.id)) e.catalog.flows

theorem granted_put (s : Step) (key key' : String) (n : Nat) :
    granted { s with counts := Dict.put s.counts key n } key' =
      if key' = key then n else granted s key' := by
  unfold granted
  simp only [Dict.get?_put]
  split <;> rfl

theorem room_reserve_lt {e : Engine} {s s' : Step} {flow : LoadedFlow}
    (hf : flow ∈ e.catalog.flows) (h : e.reserve? s (childKey flow.id) = some s') :
    e.room s' < e.room s := by
  unfold reserve? at h
  split at h
  · next hlt =>
    cases h
    refine total_lt (a := flow) ?_ (fun l _ => ?_) hf
    · rw [granted_put, if_pos rfl]
      omega
    · rw [granted_put]
      split
      · next hk =>
        rw [hk]
        omega
      · omega
  · cases h

theorem room_congr {e : Engine} {s s' : Step} (h : s'.counts = s.counts) :
    e.room s' = e.room s := by
  simp [room, granted, h]

theorem counts_spawn (e : Engine) (s : Step) (flow : LoadedFlow) (id : InstanceId)
    (parent : Option InstanceId) (bindings : Bindings) (specificity : Nat) :
    (e.spawn s flow id parent bindings specificity).1.counts = s.counts := rfl

theorem room_nextGrant_lt {e : Engine} {g : Grant} : ∀ {children : List Child} {s s' : Step},
    e.nextGrant s children = (s', some g) → e.room s' < e.room s
  | [], s, s', h => by simp [nextGrant] at h
  | c :: rest, s, s', h => by
    unfold nextGrant at h
    split at h
    · exact room_nextGrant_lt h
    · next flow hf =>
      have hid : flow.id = c.request.flow := by
        simpa using List.find?_some hf
      split at h
      · have hlt := room_nextGrant_lt h
        have hsame : e.room (e.refuse s flow.id (childKey c.request.flow)) = e.room s :=
          room_congr rfl
        omega
      · next hr =>
        cases h
        rw [← hid] at hr
        exact room_reserve_lt (List.mem_of_find?_eq_some hf) hr

/-- Start children until nobody asks for one that may be started. -/
def startChildren (e : Engine) (s : Step) (requests : Requests) (children : List Child) :
    Step × Requests :=
  match _h : e.nextGrant s children with
  | (s, none) => (s, requests)
  | (s', some g) =>
    let id := g.child.request.instanceId
    let started := e.spawn s' g.flow id (some g.child.parent) g.child.request.bindings 0
    startChildren e started.1 (requests ++ [(id, started.2)])
      (g.rest ++ childrenOf [(id, started.2)])
termination_by e.room s
decreasing_by
  rw [room_congr (counts_spawn ..)]
  exact room_nextGrant_lt _h

end Engine

end EventFlow

import EventFlow.Instance.Run

/-!
# Calls

An instance is reached by calls: it is spawned and started, moved by events and aborted from
outside, in any order.  Every call that moves heads sets a machine going and runs it to the end, so
there are two things to say something about: the instances between calls (`Instance.Reached`) and
the machines that are passed within them (`Machine.Passed`).
-/

set_option autoImplicit false

namespace EventFlow

variable {Compiled Found : Type} [Query.Library Compiled Found]

namespace Machine

/-- The machine that a new instance is started with. -/
def starting (i : Instance) (w : World) : Machine :=
  ⟨i, w, .none, (i.heads.filter (·.state.isReady)).map Head.id⟩

/-- The machine that an event sets going on an instance, if the head expects the event. -/
def advancing? (i : Instance) (w : World) (id : HeadId) (e : Event) : Option Machine := do
  if i.isDeafTo e then none
  let (h, k) ← i.slot? id
  let m ← h.match? e
  let (h, w) := Instance.resume h m e w
  return ⟨i.setHead k h, w, .none, [id]⟩

/-- What a call hands back when its machine has stopped. -/
def outcome (m : Machine) : Instance × World × Effects := (m.inst.refresh, m.world, m.effects)

end Machine

namespace Instance

theorem start_eq (program : Program) (i : Instance) (w : World) :
    i.start program w = ((Machine.starting i w).run program).outcome := rfl

theorem advance?_eq (program : Program) (i : Instance) (w : World) (id : HeadId) (e : Event) :
    i.advance? program w id e =
      (Machine.advancing? i w id e).map fun m => (m.run program).outcome := by
  unfold advance? Machine.advancing?
  cases i.isDeafTo e with
  | true => rfl
  | false =>
    cases i.slot? id with
    | none => rfl
    | some s =>
      cases hm : s.1.match? e <;> simp [hm, runHeads, Machine.outcome]

/-- The instances of a program that calls can lead to. -/
inductive Reached (program : Program) : Instance → Prop
  | start (id : InstanceId) (flow : FlowId) (priority : Int) (createdAt : Nat)
      (parent : Option InstanceId) (bindings : Bindings) (specificity : Nat) (w : World) :
      Reached program
        ((spawn id flow priority createdAt parent bindings specificity).start program w).1
  | advance {i : Instance} (w : World) (id : HeadId) (e : Event)
      {r : Instance × World × Effects} (before : Reached program i)
      (moved : i.advance? program w id e = some r) : Reached program r.1
  | abort {i : Instance} (reason : String) (before : Reached program i) :
      Reached program (i.abort reason)

end Instance

namespace Machine

/-- The machines that calls pass through. -/
inductive Passed (program : Program) : Machine → Prop
  | start (id : InstanceId) (flow : FlowId) (priority : Int) (createdAt : Nat)
      (parent : Option InstanceId) (bindings : Bindings) (specificity : Nat) (w : World) :
      Passed program
        (starting (.spawn id flow priority createdAt parent bindings specificity) w)
  | advance {i : Instance} (w : World) (id : HeadId) (e : Event) {m : Machine}
      (before : i.Reached program) (set : advancing? i w id e = some m) : Passed program m
  | step {m m' : Machine} (before : Passed program m) (step : m.step? program = some m') :
      Passed program m'

end Machine

end EventFlow

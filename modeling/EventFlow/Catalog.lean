import EventFlow.Flow.Check
import EventFlow.Flow.Program

/-!
# Loaded flows

A `LoadedFlow` is a flow that passed its check, with its program.  The `Catalog` holds the flows the
engine may run, in the order they were registered, each identity once; it is complete when every
flow that one of them starts is there.
-/

set_option autoImplicit false

namespace EventFlow

variable {Compiled Found : Type} [Query.Library Compiled Found]

/-- A flow that passed its check, with its program. -/
structure LoadedFlow where
  flow : Flow
  program : Program

/-- The identity of a loaded flow. -/
def LoadedFlow.id (l : LoadedFlow) : FlowId := l.flow.id

/-- Check a flow and lower its body. -/
def Flow.load (f : Flow) : Except Error LoadedFlow := do
  f.check
  return ⟨f, .ofBody f.body⟩

/-- The flows the engine may run, in the order they were registered. -/
structure Catalog where
  flows : List LoadedFlow

namespace Catalog

/-- The catalog without flows. -/
def empty : Catalog := ⟨[]⟩

/-- The flow with an identity. -/
def find? (c : Catalog) (id : FlowId) : Option LoadedFlow := c.flows.find? fun l => l.id = id

/-- The flow with an identity, or an error. -/
def require (c : Catalog) (id : FlowId) : Except Error LoadedFlow :=
  match c.find? id with
  | some l => .ok l
  | none => .error (.unknownFlow id)

/-- Load a flow and add it. -/
def register (c : Catalog) (f : Flow) : Except Error Catalog := do
  if (c.find? f.id).isSome then throw (.duplicateFlow f.id)
  let l ← f.load
  return ⟨c.flows ++ [l]⟩

/-- Every flow that a registered flow starts is registered. -/
def check (c : Catalog) : Check :=
  c.flows.forM fun l =>
    l.flow.children.forM fun child =>
      if (c.find? child).isSome then .ok () else .error (.unknownChild l.id child)

/-- The catalog of some flows, which must be complete. -/
def ofFlows (flows : List Flow) : Except Error Catalog := do
  let c ← flows.foldlM register empty
  c.check
  return c

end Catalog

end EventFlow

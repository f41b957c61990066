import EventFlow.Host.Backend

/-!
# Executors

Tasks are run by an asynchronous runtime, which is not a part of this library.  What is asked of it
here is an `Executor`: a backend, and what whoever drives it can do.  While something is done, and
while somebody waits, tasks may go on.
-/

set_option autoImplicit false

namespace EventFlow

/-- What runs tasks. -/
class Executor (X : Type) where
  /-- What the tasks share. -/
  backend : X → Backend
  /-- Run a call. -/
  dispatch : X → Dispatch → X
  /-- Stop the call of an invocation. -/
  cancel : X → InvocationId → X
  /-- Start a timer that takes some milliseconds. -/
  schedule : X → TimerId → Nat → X
  /-- Stop a timer. -/
  cancelTimer : X → TimerId → X
  /-- Wait until nobody else has hold of what is needed. -/
  reach : X → X
  /-- Take the first event from the channel, after waiting for it, but not longer than some
  milliseconds. -/
  receive : X → Nat → Option Event × X

end EventFlow

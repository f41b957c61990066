import EventFlow.Instance.Join

/-!
# Executing instructions

`execute` says what an instruction does to the head that stands at it (`Turn`), to the variables of
the conversation and the source of identifiers (`World`), and what is asked for outside.  It does
not touch other heads: that is left to forks, joins and aborts (`EventFlow.Instance.Join`).

An identifier is used up only when what needs it has been computed without an error.  A fork without
branches leaves its head where it stands; no flow that may be loaded has one.
-/

set_option autoImplicit false

namespace EventFlow

variable {Compiled Found : Type} [Query.Library Compiled Found]

/-- What heads share with the rest of the conversation. -/
structure World where
  globals : Dict String Json
  ids : IdSource

/-- What becomes of a head that has executed an instruction. -/
inductive Turn
  /-- It goes on, waits, or has finished. -/
  | become (h : Head)
  | abort (reason : String)
  | split (first : Nat) (others : List Nat)
  | arrive

/-- Write a variable of a head or of the conversation. -/
def bind (v : Variable) (value : Json) (h : Head) (w : World) : Head × World :=
  match v.owner with
  | .head => ({ h with bindings := Path.set h.bindings v.name value }, w)
  | .conversation => (h, { w with globals := Path.set w.globals v.name value })

/-- Write a variable if there is one. -/
def bindOption (v : Option Variable) (value : Json) (h : Head) (w : World) : Head × World :=
  match v with
  | some v => bind v value h w
  | none => (h, w)

namespace Instance

/-- An emission of a head. -/
def emission (i : Instance) (h : Head) (intent : Intent) (key : Option String) : Emission :=
  ⟨intent, key, i.id, i.flow, h.id, i.priority, h.specificity, i.createdAt⟩

/-- Build an event and send it. -/
def executeSend (i : Instance) (w : World) (h : Head) (s : SendSpec) : Turn × World × Effects :=
  match (i.scope w.globals h).resolveAll s.payload with
  | .error e => (.abort ("send '" ++ s.name ++ "' failed: " ++ e.message), w, .none)
  | .ok payload =>
    let (id, ids) := w.ids.nextEvent
    let event : Event := ⟨id, s.name, payload, .internal⟩
    (.become h.advance, { w with ids },
      .ofEmission (i.emission h (.send event s.delivery) (s.competition.keyFor s.name)))

/-- Call an action, and wait for its result if the call says so. -/
def executeCall (i : Instance) (w : World) (h : Head) (c : CallSpec) : Turn × World × Effects :=
  match (i.scope w.globals h).resolveAll c.args with
  | .error e => (.abort ("action '" ++ c.action ++ "' not started: " ++ e.message), w, .none)
  | .ok arguments =>
    let (invocation, ids) := w.ids.nextInvocation
    let request : CallRequest := ⟨invocation, c.action, arguments, h.id⟩
    let effects := .ofEmission (i.emission h (.call request) (c.competition.keyFor c.action))
    let (h, w) := bindOption c.invocation (.str invocation.text) h { w with ids }
    match c.mode with
    | .await =>
      (.become { h with state := .waiting invocation c.result (h.position + 1) }, w, effects)
    | .start => (.become h.advance, w, effects)

/-- What an instruction does when a head executes it. -/
def execute (i : Instance) (w : World) (h : Head) : Instruction → Turn × World × Effects
  | .expect pattern => (.become (h.await [⟨pattern, h.position + 1⟩]), w, .none)
  | .race arms => (.become (h.await (arms.map fun a => ⟨a.1, a.2⟩)), w, .none)
  | .send event => i.executeSend w h event
  | .call spec => i.executeCall w h spec
  | .branch condition otherwise =>
    match (i.scope w.globals h).holds condition with
    | .ok true => (.become h.advance, w, .none)
    | .ok false => (.become (h.goTo otherwise), w, .none)
    | .error e => (.abort e.message, w, .none)
  | .jump target => (.become (h.goTo target), w, .none)
  | .fork [] => (.become h, w, .none)
  | .fork (first :: others) => (.split first others, w, .none)
  | .join => (.arrive, w, .none)
  | .assign target value =>
    match (i.scope w.globals h).resolve value with
    | .ok value =>
      let (h, w) := bind target value h w
      (.become h.advance, w, .none)
    | .error e => (.abort ("set '" ++ target.text ++ "' failed: " ++ e.message), w, .none)
  | .startTimer duration timer =>
    let (id, ids) := w.ids.nextTimer
    let (h, w) := bindOption timer (.str id.text) h { w with ids }
    (.become h.advance, w, .ofTimer ⟨id, duration, h.id⟩)
  | .startFlow flow child =>
    let (id, ids) := w.ids.nextInstance
    let (h, w) := bindOption child (.str id.text) h { w with ids }
    (.become h.advance, w, .ofChild ⟨flow, id, h.bindings, h.id⟩)
  | .abort reason => (.abort reason, w, .none)
  | .finish => (.become { h with state := .finished }, w, .none)

end Instance

end EventFlow

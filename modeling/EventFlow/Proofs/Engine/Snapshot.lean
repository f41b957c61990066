import EventFlow.Proofs.Engine.Advancing
import EventFlow.Proofs.Engine.Created
import EventFlow.Proofs.Engine.Record
import EventFlow.Proofs.Instance.Legible
import EventFlow.Query.Eval

/-!
# Going on from a snapshot

A snapshot is all there is to an engine besides its flows and its configuration, and of the
configuration where identities start does not matter any more.  So another engine that restores the
snapshot goes on exactly as the first one would have done.

## What is here

* `Command` is whatever can be done with an engine, and `Engine.replies` are the replies to some
  commands: events, signals and states.
* `legible_reachable` and `checkState_reachable`: the states that an engine reaches can be read
  back, and restored.
* `Engine.reseed` changes where identities start; `perform_reseed` says that nothing else changes.

**`replies_restored`** puts these together.
-/

set_option autoImplicit false

namespace EventFlow

section

variable {Compiled Found : Type} [Query.Library Compiled Found]

/-- Something to do with an engine. -/
inductive Command
  | request (r : Request)
  /-- Write a variable of the conversation. -/
  | setGlobal (path : String) (value : Json)
  /-- Go on from the snapshot that a text holds. -/
  | restore (text : String)

namespace Engine

/-- What an engine makes of a command. -/
def perform (e : Engine) (s : State) : Command → Reply
  | .request r => e.respond s r
  | .setGlobal path value => ⟨.ok [], [], s.setGlobal path value⟩
  | .restore text =>
    match e.restore text with
    | .ok s' => ⟨.ok [], [], s'⟩
    | .error err => .refuse s err

/-- The replies to some commands, one after the other. -/
def replies (e : Engine) : State → List Command → List Reply
  | _, [] => []
  | s, c :: cs => e.perform s c :: replies e (e.perform s c).state cs

/-! ## Reachable states are legible -/

section Reachable

variable {e : Engine} {flows : List Flow} {config : Config}

theorem legible_of_create (hc : create flows config = .ok e) {l : LoadedFlow}
    (hl : l ∈ e.catalog.flows) : l.program.Legible := legible_of_load (load_of_create hc hl)

theorem legible_keep (hc : create flows config = .ok e) : e.InstancesKeep Instance.Legible where
  capture _ _ _ := trivial
  start loaded _ _ _ _ _ w _ hr := by
    rw [← hr]
    exact ⟨(Instance.legible_spawn ..).start (legible_of_create hc loaded) w, fun _ _ => trivial⟩
  advance hi hflow hadv :=
    ⟨hi.advance? (legible_of_create hc (List.mem_of_find?_eq_some hflow)) hadv, fun _ _ => trivial⟩
  abort reason hi := hi.abort reason
  note _ hi := ⟨hi.heads, hi.bases⟩
  windUp _ _ hi := ⟨hi.heads, hi.bases⟩
  drain hi := ⟨hi.heads, hi.bases⟩

/-- **The states that an engine reaches can be read back.** -/
theorem legible_reachable (hc : create flows config = .ok e) {s : State} (hs : e.Reachable s) :
    s.Legible := fun i hi =>
  ⟨drained_reachable hs i hi, (legible_keep hc).reachable hs i hi⟩

/-- The flows of all instances are loaded. -/
theorem checkState_reachable {s : State} (hs : e.Reachable s) : e.checkState s = .ok () := by
  refine forM_ok_iff.2 fun i hi => ?_
  obtain ⟨flow, hflow⟩ := Option.isSome_iff_exists.1 ((inOrder_keep e).reachable hs i hi).2
  rw [Catalog.require, hflow]
  rfl

end Reachable

/-! ## Where identities start -/

/-- The engine with identities starting elsewhere. -/
def reseed (e : Engine) (seed : Option Nat) : Engine :=
  { e with config := { e.config with idSeed := seed } }

section Reseed

variable (e : Engine) (seed : Option Nat)

theorem nextGrant_reseed (s : Step) (children : List Child) :
    (e.reseed seed).nextGrant s children = e.nextGrant s children := by
  induction children generalizing s with
  | nil => rfl
  | cons c rest ih =>
    rw [nextGrant, nextGrant]
    have hfind : (e.reseed seed).catalog = e.catalog := rfl
    have hreserve : (e.reseed seed).reserve? = e.reserve? := rfl
    have hrefuse : (e.reseed seed).refuse = e.refuse := rfl
    simp only [hfind, hreserve, hrefuse, ih]

theorem startChildren_reseed (s : Step) (requests : Requests) (children : List Child) :
    (e.reseed seed).startChildren s requests children = e.startChildren s requests children := by
  fun_induction startChildren e s requests children with
  | case1 s requests children s' h =>
    rw [startChildren]
    rw [nextGrant_reseed, h]
  | case2 s requests children s' g h id started ih =>
    rw [startChildren]
    rw [nextGrant_reseed, h]
    exact ih

theorem round_reseed (s : Step) (event : Event) :
    (e.reseed seed).round s event = e.round s event := by
  have hmove : (e.reseed seed).moveHeads = e.moveHeads := rfl
  have hactivate : (e.reseed seed).activate = e.activate := rfl
  have happly : (e.reseed seed).apply = e.apply := rfl
  simp only [round, hmove, hactivate, happly, startChildren_reseed]

theorem runQueue_reseed (budget : Nat) (s : Step) :
    (e.reseed seed).runQueue budget s = e.runQueue budget s := by
  induction budget generalizing s with
  | zero => rfl
  | succ budget ih =>
    rw [runQueue, runQueue]
    simp only [round_reseed, ih]

theorem handle_reseed (s : State) (event : Event) :
    (e.reseed seed).handle s event = e.handle s event := by
  have hrun : (e.reseed seed).runEvent = e.runEvent := by
    funext s event
    exact runQueue_reseed e seed _ _
  have hbegin : (e.reseed seed).beginStep = e.beginStep := rfl
  simp only [handle, handleResult, handleTimer, hrun, hbegin]

/-- **What an engine makes of a command does not depend on where identities start.** -/
theorem perform_reseed (s : State) (c : Command) :
    (e.reseed seed).perform s c = e.perform s c := by
  have hbegin : (e.reseed seed).beginStep = e.beginStep := rfl
  have hconfig : (e.reseed seed).config.maxEventsPerStep = e.config.maxEventsPerStep := rfl
  cases c with
  | request r =>
    cases r with
    | named name payload => exact handle_reseed ..
    | event event => exact handle_reseed ..
    | abort id reason => simp only [perform, respond, abort, hbegin, hconfig, runQueue_reseed]
  | setGlobal path value => rfl
  | restore text => rfl

theorem replies_reseed (s : State) (commands : List Command) :
    (e.reseed seed).replies s commands = e.replies s commands := by
  induction commands generalizing s with
  | nil => rfl
  | cons c cs ih => rw [replies, replies, perform_reseed, ih]

variable {e seed} {flows : List Flow} {config : Config}

theorem create_reseed {e' : Engine} (hc : create flows config = .ok e)
    (hc' : create flows { config with idSeed := seed } = .ok e') : e' = e.reseed seed := by
  obtain ⟨hcatalog, -, hconfig⟩ := create_ok hc
  obtain ⟨hcatalog', -, hconfig'⟩ := create_ok hc'
  obtain ⟨catalog, _⟩ := e
  obtain ⟨catalog', _⟩ := e'
  rw [hcatalog] at hcatalog'
  cases hcatalog'
  cases hconfig
  cases hconfig'
  rfl

end Reseed

/-! ## Snapshots -/

/-- **A snapshot of a reachable state is the state, and an engine that restores it goes on as the
first one would have done**: with the same events, the same signals and the same states, whatever is
done with it. -/
theorem replies_restored {flows : List Flow} {config : Config} {seed : Option Nat} {e e' : Engine}
    (hc : create flows config = .ok e)
    (hc' : create flows { config with idSeed := seed } = .ok e') {s : State} (hs : e.Reachable s)
    (hf : s.Fits) :
    State.ofJson? s.toJson = some s ∧
      ∀ text, State.shape.read? text = some s.toJson → ∀ before commands,
        e'.replies before (.restore text :: commands) =
          ⟨.ok [], [], s⟩ :: e.replies s commands := by
  have hread := State.ofJson?_toJson hf (legible_reachable hc hs)
  refine ⟨hread, fun text htext before commands => ?_⟩
  have hrestore : e.restore text = .ok s := by
    rw [restore, State.ofText?, htext, Option.bind_some, hread]
    simp only [checkState_reachable hs]
    rfl
  have hperform : e.perform before (.restore text) = ⟨.ok [], [], s⟩ := by
    rw [perform, hrestore]
  rw [create_reseed hc hc', replies_reseed, replies, hperform]

end Engine

end

namespace Engine

/-! ## A snapshot -/

/-- A flow that forks: one head waits for an event whose `value` is `null`, the other one calls an
action whose result goes to the conversation. -/
def forking : Flow where
  id := ⟨"f"⟩
  description := none
  priority := none
  activation := some ⟨"go", []⟩
  body :=
    [.fork [[.expect ⟨"end", [("value", .literal .null)]⟩],
      [.call { CallSpec.named "act" with result := some ⟨.conversation, "out"⟩ }]], .join]

/-- An engine for this flow. -/
def forked : Engine where
  catalog := ⟨[⟨forking, .ofBody forking.body⟩]⟩
  config := Config.default

theorem create_forked : create [forking] Config.default = .ok forked := rfl

theorem create_forked_seven : create [forking] { Config.default with idSeed := some 7 } =
    .ok (forked.reseed (some 7)) := rfl

/-- The state in which both heads wait. -/
def paused : State := (forked.respond (.initial (.seeded 0)) (.event (plain "1" "go"))).state

/-- Its snapshot. -/
def noted : String :=
  "\x7b\"global\":\x7b\x7d,\"ids\":\x7b\"counter\":2,\"seed\":0\x7d,\"instances\":[\x7b
    \"abort_reason\":null,\"created_at\":0,\"flow\":\"f\",\"fork_bases\":\x7b\"0\":\x7b\x7d\x7d,
    \"heads\":[\x7b\"bindings\":\x7b\x7d,\"fork_stack\":[\x7b\"id\":0,\"index\":0,\"size\":2\x7d
    ],\"id\":0,\"position\":1,\"specificity\":0,\"state\":\x7b\"expectations\":[\x7b\"pattern\":
    \x7b\"fields\":\x7b\"value\":\x7b\"kind\":\"literal\",\"value\":null\x7d\x7d,\"name\":
    \"end\"\x7d,\"resume\":2\x7d],\"state\":\"expecting\"\x7d\x7d,\x7b\"bindings\":\x7b\x7d,
    \"fork_stack\":[\x7b\"id\":0,\"index\":1,\"size\":2\x7d],\"id\":1,\"position\":3,
    \"specificity\":0,\"state\":\x7b\"invocation_id\":\"6e789e6a-a1b9-45f4-8d73-fe3de975ac26\",
    \"result\":\"global.out\",\"resume\":4,\"state\":\"waiting_on_action\"\x7d\x7d],\"id\":
    \"e220a839-7b1d-4daf-8821-8226ff3cd4bf\",\"next_group\":1,\"next_head\":2,\"overridden\":[],
    \"parent\":null,\"priority\":50,\"status\":\"active\",\"terminated_at_step\":null\x7d],
    \"next_instance_seq\":1,\"pending_actions\":\x7b\"6e789e6a-a1b9-45f4-8d73-fe3de975ac26\":
    \x7b\"action\":\"act\",\"arguments\":\x7b\x7d,\"head\":1,\"instance_id\":
    \"e220a839-7b1d-4daf-8821-8226ff3cd4bf\",\"invocation_id\":
    \"6e789e6a-a1b9-45f4-8d73-fe3de975ac26\",\"result\":null,\"status\":\"in-flight\"\x7d\x7d,
    \"step\":1,\"timers\":\x7b\x7d\x7d"

theorem reachable_paused : forked.Reachable paused := (Reachable.initial _).respond _

theorem fits_paused : paused.Fits := by decide +kernel

theorem read?_noted : State.shape.read? noted = some paused.toJson := by
  rw [Json.Shape.read?, Json.Draft.ofText?, Json.Token.scan?, noted, String.toList_ofList]
  decide +kernel

theorem replies_restored_forked :
    State.ofJson? paused.toJson = some paused ∧ ∀ before commands,
      (forked.reseed (some 7)).replies before (.restore noted :: commands) =
        ⟨.ok [], [], paused⟩ :: forked.replies paused commands := by
  obtain ⟨hread, hgoes⟩ :=
    replies_restored create_forked create_forked_seven reachable_paused fits_paused
  exact ⟨hread, hgoes noted read?_noted⟩

end Engine

end EventFlow

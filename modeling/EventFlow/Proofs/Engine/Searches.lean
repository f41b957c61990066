import EventFlow.Proofs.Engine.History
import EventFlow.Proofs.Flow.Valid

/-!
# Requests make no searches that do not return

A search for a query may go on for ever, and then so does the request that makes it.  The functions
of the engine are total and say something of such a request as well: they take the search for a
failed one.  If all queries of the flows can be searched for, it does not matter what they take it
for, since no search is ever made that does not return.

## What is here

* `Query.supposing` is a library whose searches always return, with something that is supposed of
  those that did not.
* `Program.Returns` says that the queries of a program can be searched for, and then every function
  that runs the program is the same for both libraries (`execute_supposing`, `run_supposing`).

**`respond_supposing`** says so of all requests.
-/

set_option autoImplicit false

namespace EventFlow

variable {Compiled Found : Type} [Query.Library Compiled Found]

/-- A library that does what another one does, except that every search returns; those that did not
find what they are supposed to find. -/
@[reducible] def Query.supposing (guess : Compiled → Json → Except String Found) :
    Query.Library Compiled Found where
  compile := Query.Library.compile
  search query value := some ((Query.Library.search query value).getD (guess query value))
  toJson := Query.Library.toJson
  isTruthy := Query.Library.isTruthy

/-- The searches that an instruction makes return. -/
def Instruction.Returns (instr : Instruction) : Prop :=
  ∀ expression ∈ instr.expressions, Query.Returns expression

/-- The searches that a program makes return. -/
def Program.Returns (program : Program) : Prop := ∀ p, (program.fetch p).Returns

section Supposing

variable (guess : Compiled → Json → Except String Found)

/-! ## Expressions -/

theorem answer_supposing {expression : String} (he : Query.Returns expression) {query : Compiled}
    (hq : Query.Library.compile expression = .ok query) (value : Json) :
    @Query.answer _ _ (Query.supposing guess) query value = Query.answer query value := by
  obtain ⟨found, hfound⟩ := Option.isSome_iff_exists.1 (he query hq value)
  have hsupposed : (Query.supposing guess).search query value = some found :=
    congrArg (fun found => some (found.getD (guess query value))) hfound
  unfold Query.answer
  rw [hsupposed, hfound]

theorem evaluate_supposing {expression : String} (he : Query.Returns expression) (s : Scope) :
    @Scope.evaluate _ _ (Query.supposing guess) s expression = s.evaluate expression := by
  simp only [Scope.evaluate, compileExpression]
  cases hq : Query.Library.compile expression with
  | error reason => rfl
  | ok query =>
    show (@Query.answer _ _ (Query.supposing guess) query s.toJson).mapError _ >>= _ = _
    rw [answer_supposing guess he hq]
    rfl

theorem holds_supposing {condition : String} (hc : Query.Returns condition) (s : Scope) :
    @Scope.holds _ _ (Query.supposing guess) s condition = s.holds condition := by
  simp only [Scope.holds, compileExpression]
  cases hq : Query.Library.compile condition with
  | error reason => rfl
  | ok query =>
    show (@Query.answer _ _ (Query.supposing guess) query s.toJson).mapError _ >>= _ = _
    rw [answer_supposing guess hc hq]
    rfl

theorem resolve_supposing {t : Template} (ht : ∀ x ∈ t.expression?, Query.Returns x) (s : Scope) :
    @Scope.resolve _ _ (Query.supposing guess) s t = s.resolve t := by
  cases t with
  | literal value => rfl
  | var v => rfl
  | expr expression => exact evaluate_supposing guess (ht expression rfl) s

theorem resolveAll_supposing (templates : Dict String Template)
    (ht : ∀ t ∈ Dict.values templates, ∀ x ∈ t.expression?, Query.Returns x) (s : Scope) :
    @Scope.resolveAll _ _ (Query.supposing guess) s templates = s.resolveAll templates := by
  simp only [Scope.resolveAll]
  induction templates with
  | nil => rfl
  | cons t templates ih =>
    rw [List.mapM_cons, List.mapM_cons, ih fun x hx => ht x (List.mem_cons_of_mem _ hx),
      resolve_supposing guess (ht t.2 List.mem_cons_self)]

/-! ## Instructions -/

theorem Instruction.Returns.templates {instr : Instruction} (hi : instr.Returns) :
    ∀ t ∈ instr.templates, ∀ x ∈ t.expression?, Query.Returns x := fun t ht x hx =>
  hi x (List.mem_append_right _ (List.mem_filterMap.2 ⟨t, ht, hx⟩))

/-- **An instruction whose searches return does the same.** -/
theorem execute_supposing {instr : Instruction} (hi : instr.Returns) (i : Instance) (w : World)
    (h : Head) :
    @Instance.execute _ _ (Query.supposing guess) i w h instr = i.execute w h instr := by
  cases instr with
  | send event =>
    simp only [Instance.execute, Instance.executeSend,
      resolveAll_supposing guess event.payload hi.templates]
  | call spec =>
    simp only [Instance.execute, Instance.executeCall,
      resolveAll_supposing guess spec.args hi.templates]
  | branch condition otherwise =>
    simp only [Instance.execute,
      holds_supposing guess (hi condition (List.mem_append_left _ (List.mem_singleton_self _)))]
  | assign target value =>
    simp only [Instance.execute,
      resolve_supposing guess (hi.templates value (List.mem_singleton_self _))]
  | fork starts => cases starts <;> rfl
  | expect | race | jump | join | startTimer | startFlow | abort | finish => rfl

/-! ## Instances -/

variable {program : Program}

theorem turn_supposing (hp : program.Returns) (m : Machine) (k : Nat) (h : Head) :
    @Machine.turn _ _ (Query.supposing guess) program m k h = m.turn program k h := by
  simp only [Machine.turn, execute_supposing guess (hp h.position)]

theorem step?_supposing (hp : program.Returns) (m : Machine) :
    @Machine.step? _ _ (Query.supposing guess) program m = m.step? program := by
  simp only [Machine.step?, turn_supposing guess hp]

/-- **A machine runs in the same way.** -/
theorem run_supposing (hp : program.Returns) (m : Machine) :
    @Machine.run _ _ (Query.supposing guess) program m = m.run program := by
  fun_induction Machine.run program m with
  | case1 m hstall =>
    conv => lhs; unfold Machine.run
    rw [if_pos hstall]
  | case2 m hstall hs =>
    conv => lhs; unfold Machine.run
    rw [if_neg hstall]
    split
    · rfl
    · next m' hs' =>
      rw [step?_supposing guess hp, hs] at hs'
      cases hs'
  | case3 m hstall m' hs ih =>
    conv => lhs; unfold Machine.run
    rw [if_neg hstall]
    split
    · next hs' =>
      rw [step?_supposing guess hp, hs] at hs'
      cases hs'
    · next m'' hs' =>
      rw [step?_supposing guess hp, hs] at hs'
      cases hs'
      exact ih

theorem start_supposing (hp : program.Returns) (i : Instance) (w : World) :
    @Instance.start _ _ (Query.supposing guess) program i w = i.start program w := by
  simp only [Instance.start, Instance.runHeads, run_supposing guess hp]

theorem advance?_supposing (hp : program.Returns) (i : Instance) (w : World) (id : HeadId)
    (event : Event) :
    @Instance.advance? _ _ (Query.supposing guess) program i w id event =
      i.advance? program w id event := by
  simp only [Instance.advance?, Instance.runHeads, run_supposing guess hp]

/-! ## Engines -/

namespace Engine

variable {e : Engine}

theorem spawn_supposing {flow : LoadedFlow} (hp : flow.program.Returns) (s : Step)
    (id : InstanceId) (parent : Option InstanceId) (bindings : Bindings) (specificity : Nat) :
    @spawn _ _ (Query.supposing guess) e s flow id parent bindings specificity =
      e.spawn s flow id parent bindings specificity := by
  simp only [spawn, start_supposing guess hp]

theorem activate_supposing (he : ∀ l ∈ e.catalog.flows, l.program.Returns) (event : Event)
    (s : Step) (requests : Requests) :
    @activate _ _ (Query.supposing guess) e event s requests = e.activate event s requests := by
  refine List.foldl_ext _ _ _ fun acc flow hflow => ?_
  simp only [activateFlow, spawn_supposing guess (he flow hflow)]

theorem mem_of_nextGrant {s s' : Step} {children : List Child} {g : Grant}
    (hg : e.nextGrant s children = (s', some g)) : g.flow ∈ e.catalog.flows := by
  fun_induction nextGrant e s children with
  | case1 s => cases hg
  | case2 s c rest hnone ih => exact ih hg
  | case3 s c rest flow hflow hfull ih => exact ih hg
  | case4 s c rest flow hflow s'' hgranted =>
    cases hg
    exact List.mem_of_find?_eq_some hflow

theorem startChildren_supposing (he : ∀ l ∈ e.catalog.flows, l.program.Returns) (s : Step)
    (requests : Requests) (children : List Child) :
    @startChildren _ _ (Query.supposing guess) e s requests children =
      e.startChildren s requests children := by
  fun_induction startChildren e s requests children with
  | case1 s requests children s' hg =>
    conv => lhs; unfold startChildren
    split
    · next hg' =>
      rw [hg] at hg'
      cases hg'
      rfl
    · next hg' =>
      rw [hg] at hg'
      cases hg'
  | case2 s requests children s' g hg id started ih =>
    conv => lhs; unfold startChildren
    split
    · next hg' =>
      rw [hg] at hg'
      cases hg'
    · next hg' =>
      rw [hg] at hg'
      cases hg'
      simp only [spawn_supposing guess (he g.flow (mem_of_nextGrant hg))]
      exact ih

theorem moveHeads_supposing (he : ∀ l ∈ e.catalog.flows, l.program.Returns) (event : Event)
    (s : Step) :
    @moveHeads _ _ (Query.supposing guess) e event s = e.moveHeads event s := by
  refine List.foldl_ext _ _ _ fun acc mover _ => ?_
  simp only [moveHead]
  split
  · rfl
  · split
    · rfl
    · next flow hflow =>
      rw [advance?_supposing guess (he flow (List.mem_of_find?_eq_some hflow))]

theorem round_supposing (he : ∀ l ∈ e.catalog.flows, l.program.Returns) (s : Step)
    (event : Event) :
    @round _ _ (Query.supposing guess) e s event = e.round s event := by
  simp only [round, moveHeads_supposing guess he, activate_supposing guess he,
    startChildren_supposing guess he]

theorem runQueue_supposing (he : ∀ l ∈ e.catalog.flows, l.program.Returns) (budget : Nat)
    (s : Step) :
    @runQueue _ _ (Query.supposing guess) e budget s = e.runQueue budget s := by
  induction budget generalizing s with
  | zero => rfl
  | succ budget ih =>
    simp only [runQueue, round_supposing guess he, ih]

theorem handle_supposing (he : ∀ l ∈ e.catalog.flows, l.program.Returns) (s : State)
    (event : Event) :
    @handle _ _ (Query.supposing guess) e s event = e.handle s event := by
  simp only [handle, handleResult, handleTimer, runEvent, runQueue_supposing guess he]

/-- **No reply hangs on what a search comes to that does not return.**  If the queries of all flows
can be searched for, a request makes only searches that return: whatever one supposes of the others,
the reply is the same. -/
theorem respond_supposing (he : ∀ l ∈ e.catalog.flows, l.program.Returns) (s : State)
    (r : Request) :
    @respond _ _ (Query.supposing guess) e s r = e.respond s r := by
  cases r with
  | named name payload => exact handle_supposing guess he ..
  | event event => exact handle_supposing guess he s event
  | abort id reason =>
    simp only [respond, Engine.abort, runQueue_supposing guess he]

end Engine

end Supposing

end EventFlow

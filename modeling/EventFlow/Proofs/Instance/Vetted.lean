import EventFlow.Proofs.Instance.Listening
import EventFlow.Query.Eval
import Mathlib

/-!
# The checks of a flow suffice

A flow is checked once, when it is loaded.  Nothing is checked again while its instances run: what
heads wait for, what they write to and what they evaluate is taken from the program as it is.  Nor
need it be, since all of it was checked: a head waits for patterns of the instruction that it has
executed, or for the result of its call; it writes to a variable of its instruction, or to the one
that it waits for; and what it evaluates are expressions that hold queries.  So a run can fail only
where a query has been searched for and has no value, or a variable has none.

## What is here

* `Compiles` says that an expression holds a query, so that to evaluate it is to search.
* `Instruction.Fails` lists why an instruction may fail (`fails_of_execute`), and `writes_execute`
  says what it writes.
* `Head.Vetted` is the invariant: whatever a head waits for was checked.  It is kept by steps
  (`vetted_step`), and so holds at all times (`Reached.vetted`, `Passed.vetted`).
* `Instruction.Vetted` is what follows for an instruction that is about to be executed.

**`checks_suffice`** is the result, for everything that calls can lead to.
-/

set_option autoImplicit false

namespace EventFlow

section

variable {Compiled Found : Type} [Query.Library Compiled Found]

/-- An expression holds a query; it has no value, and cannot be decided, only where that query has
no value. -/
def Compiles (expression : String) : Prop :=
  ∃ query, Query.Library.compile expression = .ok query ∧ ∀ s : Scope,
    s.evaluate expression =
        ((Query.answer query s.toJson).mapError (.unevaluable expression)).map
          Query.Library.toJson ∧
      s.holds expression =
        ((Query.answer query s.toJson).mapError (.undecidable expression)).map
          Query.Library.isTruthy

/-- The reason that an instruction gives when something it computes has no value. -/
def Instruction.failure (instr : Instruction) (message : String) : String :=
  match instr with
  | send event => "send '" ++ event.name ++ "' failed: " ++ message
  | call spec => "action '" ++ spec.action ++ "' not started: " ++ message
  | assign target _ => "set '" ++ target.text ++ "' failed: " ++ message
  | _ => message

/-- Why an instruction may fail that evaluates only queries. -/
inductive Instruction.Fails (instr : Instruction) (s : Scope) : Error → Prop
  | unbound (v : Variable) (reads : .var v ∈ instr.templates) (missing : s.lookup? v = none) :
      Fails instr s (.unboundVariable v.text)
  | unevaluable (expression : String) (query : Compiled) (reason : String)
      (evaluates : .expr expression ∈ instr.templates)
      (compiles : Query.Library.compile expression = .ok query)
      (search : Query.answer query s.toJson = .error reason) :
      Fails instr s (.unevaluable expression reason)
  | undecidable (condition : String) (query : Compiled) (reason : String)
      (decides : condition ∈ instr.condition?)
      (compiles : Query.Library.compile condition = .ok query)
      (search : Query.answer query s.toJson = .error reason) :
      Fails instr s (.undecidable condition reason)

/-- Whatever a head waits for was checked, and so was the variable that takes it. -/
structure Head.Vetted (h : Head) : Prop where
  expected : ∀ x ∈ h.expectations, x.pattern.check = .ok ()
  awaited : ∀ v ∈ h.resultTarget, v.check = .ok ()

/-- What holds of an instruction that a head is about to execute. -/
structure Instruction.Vetted (instr : Instruction) (i : Instance) (w : World) (h : Head) :
    Prop where
  /-- A fork has branches. -/
  branches : instr ≠ .fork []
  /-- A race has arms. -/
  arms : instr ≠ .race []
  /-- Its variables may be written to. -/
  targets : ∀ v ∈ instr.writes, v.check = .ok ()
  /-- It writes to one of them, if to anything. -/
  written : ∃ (v : Option Variable) (value : Json), (∀ x ∈ v, x ∈ instr.writes) ∧
    (i.execute w h instr).2.1.globals = (bindOption v value h w).2.globals ∧
    ∀ h', (i.execute w h instr).1 = .become h' → h'.bindings = (bindOption v value h w).1.bindings
  /-- All that it evaluates are queries. -/
  queries : ∀ expression ∈ instr.expressions, Compiles expression
  /-- It aborts the head if it is there for that, or fails for want of a value. -/
  aborts : ∀ reason, (i.execute w h instr).1 = .abort reason → instr = .abort reason ∨
    ∃ err, instr.Fails (i.scope w.globals h) err ∧ reason = instr.failure err.message

section Vetting

open Instance

variable {f : Flow} {l : LoadedFlow} {program : Program} {i i' : Instance} {h h' : Head} {w : World}
  {instr : Instruction} {m m' : Machine}

/-! ## Expressions -/

/-- **An expression that passes its check compiles.** -/
theorem compiles_of_check {expression : String} (hc : checkExpression expression = .ok ()) :
    Compiles expression := by
  cases hq : Query.Library.compile expression with
  | ok query =>
    have hcompile : compileExpression expression = .ok query := by
      rw [compileExpression, hq]
      rfl
    refine ⟨query, hq, fun s => ⟨?_, ?_⟩⟩
    · rw [Scope.evaluate, hcompile]
      change ((Query.answer query s.toJson).mapError _ >>= _) = _
      cases Query.answer query s.toJson <;> rfl
    · rw [Scope.holds, hcompile]
      change ((Query.answer query s.toJson).mapError _ >>= _) = _
      cases Query.answer query s.toJson <;> rfl
  | error reason =>
    rw [checkExpression, compileExpression, hq] at hc
    cases hc

/-- A condition that passes its check fails only where its query does. -/
theorem fails_of_holds {s : Scope} {condition : String} {err : Error}
    (hc : checkExpression condition = .ok ()) (hmem : condition ∈ instr.condition?)
    (he : s.holds condition = .error err) : instr.Fails s err := by
  obtain ⟨query, hq, hs⟩ := compiles_of_check hc
  rw [(hs s).2] at he
  cases hsearch : Query.answer query s.toJson with
  | ok value =>
    rw [hsearch] at he
    cases he
  | error reason =>
    rw [hsearch] at he
    cases he
    exact .undecidable condition query reason hmem hq hsearch

/-- A template that passes its check has no value only if its variable or its query has none. -/
theorem fails_of_resolve {s : Scope} {t : Template} {err : Error} (hc : t.check = .ok ())
    (hmem : t ∈ instr.templates) (he : s.resolve t = .error err) : instr.Fails s err := by
  cases t with
  | literal value => cases he
  | var v =>
    rw [Scope.resolve] at he
    split at he
    · cases he
    · next hnone =>
      cases he
      exact .unbound v hmem hnone
  | expr expression =>
    obtain ⟨query, hq, hs⟩ := compiles_of_check hc
    rw [Scope.resolve, (hs s).1] at he
    cases hsearch : Query.answer query s.toJson with
    | ok value =>
      rw [hsearch] at he
      cases he
    | error reason =>
      rw [hsearch] at he
      cases he
      exact .unevaluable expression query reason hmem hq hsearch

/-- If templates have no values together, then one of them has none. -/
theorem exists_of_resolveAll {s : Scope} {templates : Dict String Template} {err : Error}
    (he : s.resolveAll templates = .error err) :
    ∃ t ∈ Dict.values templates, s.resolve t = .error err := by
  rw [Scope.resolveAll] at he
  induction templates with
  | nil => cases he
  | cons t templates ih =>
    rw [List.mapM_cons] at he
    cases ht : s.resolve t.2 with
    | error err' =>
      rw [ht] at he
      cases he
      exact ⟨t.2, List.mem_cons_self, ht⟩
    | ok value =>
      rw [ht] at he
      cases hrest : templates.mapM fun t => (s.resolve t.2).map (t.1, ·) with
      | error err' =>
        rw [hrest] at he
        cases he
        obtain ⟨x, hx, hfail⟩ := ih hrest
        exact ⟨x, List.mem_cons_of_mem _ hx, hfail⟩
      | ok values =>
        rw [hrest] at he
        cases he

/-- Templates that pass their checks have no values together only if one of them has none. -/
theorem fails_of_resolveAll {s : Scope} {templates : Dict String Template} {err : Error}
    (hv : instr.Valid) (ht : Dict.values templates = instr.templates)
    (he : s.resolveAll templates = .error err) : instr.Fails s err := by
  obtain ⟨t, hmem, hfail⟩ := exists_of_resolveAll he
  rw [ht] at hmem
  exact fails_of_resolve (hv.templates t hmem) hmem hfail

/-! ## Executing instructions -/

/-- **A valid instruction fails only for want of a value.** -/
theorem fails_of_execute (hv : instr.Valid) {reason : String}
    (he : (i.execute w h instr).1 = .abort reason) : instr = .abort reason ∨
      ∃ err, instr.Fails (i.scope w.globals h) err ∧ reason = instr.failure err.message := by
  cases instr with
  | send event =>
    simp only [execute, executeSend] at he
    split at he
    · next err hfail =>
      cases he
      exact .inr ⟨err, fails_of_resolveAll hv rfl hfail, rfl⟩
    · cases he
  | call spec =>
    simp only [execute, executeCall] at he
    split at he
    · next err hfail =>
      cases he
      exact .inr ⟨err, fails_of_resolveAll hv rfl hfail, rfl⟩
    · split at he <;> cases he
  | branch condition otherwise =>
    simp only [execute] at he
    split at he
    · cases he
    · cases he
    · next err hfail =>
      cases he
      exact .inr ⟨err, fails_of_holds (hv.condition condition rfl) rfl hfail, rfl⟩
  | assign target value =>
    have hmem : value ∈ (Instruction.assign target value).templates := List.mem_singleton_self _
    simp only [execute] at he
    split at he
    · cases he
    · next err hfail =>
      cases he
      exact .inr ⟨err, fails_of_resolve (hv.templates value hmem) hmem hfail, rfl⟩
  | fork starts => cases starts <;> cases he
  | abort reason' =>
    cases he
    exact .inl rfl
  | expect | race | jump | join | startTimer | startFlow | finish => cases he

/-- **An instruction writes to one variable, if to any**, and that is one of its own. -/
theorem writes_execute (i : Instance) (w : World) (h : Head) (instr : Instruction) :
    ∃ (v : Option Variable) (value : Json), (∀ x ∈ v, x ∈ instr.writes) ∧
      (i.execute w h instr).2.1.globals = (bindOption v value h w).2.globals ∧
      ∀ h', (i.execute w h instr).1 = .become h' →
        h'.bindings = (bindOption v value h w).1.bindings := by
  have hsilent (hglobals : (i.execute w h instr).2.1.globals = w.globals)
      (hbindings : ∀ h', (i.execute w h instr).1 = .become h' → h'.bindings = h.bindings) :
      ∃ (v : Option Variable) (value : Json), (∀ x ∈ v, x ∈ instr.writes) ∧
        (i.execute w h instr).2.1.globals = (bindOption v value h w).2.globals ∧
        ∀ h', (i.execute w h instr).1 = .become h' →
          h'.bindings = (bindOption v value h w).1.bindings :=
    ⟨none, .null, by rintro x ⟨⟩, hglobals, hbindings⟩
  -- the source of identities does not matter to what is written
  have hids (v : Option Variable) (value : Json) (ids : IdSource) :
      (bindOption v value h { w with ids }).1.bindings = (bindOption v value h w).1.bindings ∧
        (bindOption v value h { w with ids }).2.globals = (bindOption v value h w).2.globals := by
    cases v with
    | none => exact ⟨rfl, rfl⟩
    | some v =>
      simp only [bindOption, bind]
      split <;> exact ⟨rfl, rfl⟩
  cases instr with
  | call spec =>
    obtain ⟨hhead, hglobals⟩ :=
      hids spec.invocation (.str w.ids.nextInvocation.1.text) w.ids.nextInvocation.2
    simp only [execute, executeCall] at hsilent ⊢
    split at hsilent
    · exact hsilent rfl (by rintro h' ⟨⟩)
    · refine ⟨spec.invocation, .str w.ids.nextInvocation.1.text, fun x hx =>
        List.mem_append_right _ (Option.mem_toList.2 hx), ?_, fun h' he => ?_⟩
      · split <;> exact hglobals
      · split at he <;> cases he <;> exact hhead
  | assign target value =>
    simp only [execute] at hsilent ⊢
    split at hsilent
    · next value _ =>
      refine ⟨some target, value, fun x hx => ?_, rfl, fun h' he => ?_⟩
      · rw [Option.mem_some_iff.1 hx]
        exact List.mem_singleton_self _
      · cases he
        rfl
    · exact hsilent rfl (by rintro h' ⟨⟩)
  | startTimer duration timer =>
    obtain ⟨hhead, hglobals⟩ := hids timer (.str w.ids.nextTimer.1.text) w.ids.nextTimer.2
    refine ⟨timer, .str w.ids.nextTimer.1.text, fun x hx => Option.mem_toList.2 hx, hglobals,
      fun h' he => ?_⟩
    cases he
    exact hhead
  | startFlow flow child =>
    obtain ⟨hhead, hglobals⟩ := hids child (.str w.ids.nextInstance.1.text) w.ids.nextInstance.2
    refine ⟨child, .str w.ids.nextInstance.1.text, fun x hx => Option.mem_toList.2 hx, hglobals,
      fun h' he => ?_⟩
    cases he
    exact hhead
  | send event =>
    refine hsilent ?_ fun h' he => ?_
    · simp only [execute, executeSend]
      split <;> rfl
    · simp only [execute, executeSend] at he
      split at he <;> cases he
      rfl
  | branch condition otherwise =>
    refine hsilent ?_ fun h' he => ?_
    · simp only [execute]
      split <;> rfl
    · simp only [execute] at he
      split at he <;> cases he <;> rfl
  | fork starts =>
    refine hsilent (by cases starts <;> rfl) fun h' he => ?_
    cases starts with
    | nil =>
      cases he
      rfl
    | cons => cases he
  | expect | race | jump | finish =>
    refine hsilent rfl fun h' he => ?_
    cases he
    rfl
  | join | abort => exact hsilent rfl (by rintro h' ⟨⟩)

/-- What holds of a valid instruction wherever a head executes it. -/
theorem Instruction.Valid.vetted (hv : instr.Valid) (i : Instance) (w : World) (h : Head) :
    instr.Vetted i w h where
  branches := hv.branches
  arms := hv.arms
  targets := hv.writes
  written := writes_execute i w h instr
  queries x hx := compiles_of_check (hv.expressions x hx)
  aborts _ he := fails_of_execute hv he

/-! ## Heads -/

/-- The pattern of a result passes its check. -/
theorem check_resultPattern (n : InvocationId) : (resultPattern n).check = .ok () := by
  have hname : isBlank Event.actionResultName = false := by decide
  have hpath : Path.isWellFormed "invocation_id" = true := by decide
  rw [Pattern.check, bind_ok_iff, refuseIf_ok_iff, forM_ok_iff]
  refine ⟨hname, List.forall_mem_singleton.2 ?_⟩
  rw [Pattern.checkField, bind_ok_iff, refuseIf_ok_iff, hpath]
  exact ⟨rfl, rfl⟩

/-- What an event writes to when a head takes it is what the head's result goes to. -/
theorem Head.result_of_match? {e : Event} {r : HeadMatch} (hm : h.match? e = some r) :
    r.result = h.resultTarget := by
  obtain ⟨x, -, hx⟩ := List.exists_of_findSome?_eq_some hm
  obtain ⟨bindings, -, rfl⟩ := Option.map_eq_some_iff.1 hx
  rfl

/-- A head that does not listen waits for nothing. -/
theorem Head.vetted_of_not_listens (hl : ¬h.Listens) : h.Vetted := by
  have hnil : h.expectations = [] := Classical.not_not.1 hl
  refine ⟨by rw [hnil]; exact List.forall_mem_nil _, fun v hv => ?_⟩
  rw [expectations] at hnil
  rw [resultTarget] at hv
  split at hv
  · next hw =>
    rw [hw] at hnil
    cases hnil
  · cases hv

/-- What a head waits for that has executed a valid instruction was checked. -/
theorem vetted_of_execute (hv : instr.Valid) (hr : h.state = .ready)
    (he : (i.execute w h instr).1 = .become h') : h'.Vetted := by
  have hleaves := leaves_of_execute hr he
  generalize hstate : h'.state = state at hleaves
  cases hleaves with
  | ready => exact Head.vetted_of_not_listens fun hl => hl.state.1 hstate
  | finished =>
    refine Head.vetted_of_not_listens fun hl => ?_
    have := hl.state.2.2
    rw [Head.isTerminal, hstate] at this
    cases this
  | expecting xs hpatterns =>
    refine ⟨fun x hx => hv.patterns _ ?_, fun v hmem => ?_⟩
    · rw [Head.expectations, hstate] at hx
      rw [← hpatterns]
      exact List.mem_map_of_mem hx
    · rw [Head.resultTarget, hstate] at hmem
      cases hmem
  | waiting spec n r hcall =>
    subst hcall
    refine ⟨fun x hx => ?_, fun v hmem => hv.writes v ?_⟩
    · rw [Head.expectations, hstate] at hx
      rw [List.mem_singleton.1 hx]
      exact check_resultPattern n
    · rw [Head.resultTarget, hstate] at hmem
      exact List.mem_append_left _ (Option.mem_toList.2 hmem)

/-! ## Runs -/

/-- **A step keeps all heads vetted**, if instructions are valid. -/
theorem vetted_step (hp : ∀ p, (program.fetch p).Valid) (hm : ∀ h ∈ m.inst.heads, h.Vetted)
    (hs : m.step? program = some m') : ∀ h ∈ m'.inst.heads, h.Vetted := by
  intro h hh
  by_cases hl : h.Listens
  · rcases mem_of_step hs hh hl with hold | ⟨x, k, hr, he⟩
    · exact hm h hold
    · exact vetted_of_execute (hp x.position) hr.ready he
  · exact Head.vetted_of_not_listens hl

theorem vetted_outcome (hp : ∀ p, (program.fetch p).Valid) (hm : ∀ h ∈ m.inst.heads, h.Vetted) :
    ∀ h ∈ (m.run program).outcome.1.heads, h.Vetted := by
  have hrun := @Machine.run_of_step _ _ _ program m (fun m => ∀ h ∈ m.inst.heads, h.Vetted)
    (fun _ _ hm hs => vetted_step hp hm hs) hm
  rw [Machine.outcome, heads_refresh]
  exact hrun

theorem vetted_starting (id : InstanceId) (flow : FlowId) (priority : Int) (createdAt : Nat)
    (parent : Option InstanceId) (bindings : Bindings) (specificity : Nat) (w : World) :
    ∀ h ∈ (Machine.starting
      (.spawn id flow priority createdAt parent bindings specificity) w).inst.heads, h.Vetted :=
  List.forall_mem_singleton.2 (Head.vetted_of_not_listens (absurd rfl))

theorem vetted_advancing {id : HeadId} {e : Event} (hi : ∀ h ∈ i.heads, h.Vetted)
    (ha : Machine.advancing? i w id e = some m) : ∀ h ∈ m.inst.heads, h.Vetted := by
  obtain ⟨-, x, k, y, -, -, rfl⟩ := advancing?_eq_some.1 ha
  intro h hh
  rcases List.mem_or_eq_of_mem_set hh with hh | rfl
  · exact hi h hh
  · exact Head.vetted_of_not_listens fun hl => hl.state.1 (resume_head x y e w).2

theorem Instance.Reached.vetted (hp : ∀ p, (program.fetch p).Valid) (hi : i.Reached program) :
    ∀ h ∈ i.heads, h.Vetted := by
  induction hi with
  | start id flow priority createdAt parent bindings specificity w =>
    exact vetted_outcome hp
      (vetted_starting id flow priority createdAt parent bindings specificity w)
  | advance w id e before moved ih =>
    rw [advance?_eq] at moved
    obtain ⟨m, hm, rfl⟩ := Option.map_eq_some_iff.1 moved
    exact vetted_outcome hp (vetted_advancing ih hm)
  | abort reason before ih =>
    rw [abort_eq]
    split
    · exact ih
    · intro h hh
      rw [heads_refresh] at hh
      by_cases hl : h.Listens
      · exact ih h ((stops_stopAll _ reason).mem_of_listens hh hl)
      · exact Head.vetted_of_not_listens hl

theorem Machine.Passed.vetted (hp : ∀ p, (program.fetch p).Valid) (hm : m.Passed program) :
    ∀ h ∈ m.inst.heads, h.Vetted := by
  induction hm with
  | start id flow priority createdAt parent bindings specificity w =>
    exact vetted_starting id flow priority createdAt parent bindings specificity w
  | advance w id e before set => exact vetted_advancing (before.vetted hp) set
  | step before hs ih => exact vetted_step hp ih hs

/-- **The checks of a flow suffice for all of its runs.**  Whatever heads wait for was checked, in
all instances that calls lead to and at every moment of a call.  An event that a head takes is
written only where it may be.  And an instruction that is about to be executed has what it needs to
go on, writes only where it may, evaluates only queries, and fails only where one of them has no
value or a variable has none. -/
theorem checks_suffice (h : f.load = .ok l) :
    (∀ i : Instance, i.Reached l.program → ∀ x ∈ i.heads, x.Vetted) ∧
      (∀ (i : Instance) (w : World) (id : HeadId) (e : Event) (m : Machine),
        i.Reached l.program → Machine.advancing? i w id e = some m →
          ∃ x ∈ i.heads, ∃ (r : HeadMatch) (k : Nat), (∀ v ∈ r.result, v.check = .ok ()) ∧
            m = ⟨i.setHead k (resume x r e w).1, (resume x r e w).2, .none, [id]⟩) ∧
      ∀ m : Machine, m.Passed l.program → (∀ x ∈ m.inst.heads, x.Vetted) ∧
        ∀ x k, m.Runs x k → (l.program.fetch x.position).Vetted m.inst m.world x := by
  have hp := valid_of_load h
  refine ⟨fun i hi => hi.vetted hp, fun i w id e m hi ha => ?_, fun m hm =>
    ⟨hm.vetted hp, fun x _ _ => (hp x.position).vetted m.inst m.world x⟩⟩
  obtain ⟨-, x, k, r, hslot, hmatch, rfl⟩ := advancing?_eq_some.1 ha
  have hx : x ∈ i.heads := List.mem_of_getElem? (Machine.getElem?_of_slot? hslot)
  refine ⟨x, hx, r, k, ?_, rfl⟩
  rw [Head.result_of_match? hmatch]
  exact (hi.vetted hp x hx).awaited

end Vetting

end

/-- A flow that asks for the members of its own name, which has none. -/
def naming : Flow where
  id := ⟨"naming"⟩
  description := none
  priority := none
  activation := none
  body := [.expect ⟨"told", []⟩, .assign ⟨.conversation, "names"⟩ (.expr "keys(flow)")]

/-- An instance of it that has just begun. -/
def namingBegun : Instance :=
  ((Instance.spawn ⟨"i"⟩ naming.id 0 0 none [] 0).start (.ofBody naming.body) ⟨[], .seeded 0⟩).1

/-- Its head, when it has been told to go on. -/
def namer : Head := ⟨⟨0⟩, 1, .ready, [], [], 0⟩

/-- The machine that is set going then. -/
def namingTold : Machine := ⟨namingBegun.setHead 0 namer, ⟨[], .seeded 0⟩, .none, [⟨0⟩]⟩

/-- The head has a checked pattern to wait for, and when it has been told it aborts: what it
evaluates is a query, but one that has no value. -/
theorem checks_suffice_naming :
    ∃ l : LoadedFlow, naming.load = .ok l ∧ namingBegun.Reached l.program ∧
      (∃ h ∈ namingBegun.heads, h.Listens ∧ h.Vetted) ∧
      Machine.advancing? namingBegun ⟨[], .seeded 0⟩ ⟨0⟩ ⟨⟨"1"⟩, "told", [], .external⟩ =
        some namingTold ∧
      namingTold.Runs namer 0 ∧
      (l.program.fetch namer.position).Vetted namingTold.inst namingTold.world namer ∧
      ∃ reason err, (namingTold.inst.execute namingTold.world namer
          (l.program.fetch namer.position)).1 = .abort reason ∧
        (l.program.fetch namer.position).Fails
          (namingTold.inst.scope namingTold.world.globals namer) err ∧
        reason = (l.program.fetch namer.position).failure err.message := by
  have hl : naming.load = .ok ⟨naming, .ofBody naming.body⟩ := by cbv
  have hbegun : namingBegun.Reached (.ofBody naming.body) := .start ..
  have hheads : namingBegun.heads = [⟨⟨0⟩, 0, .expecting [⟨⟨"told", []⟩, 1⟩], [], [], 0⟩] := by
    with_unfolding_all rfl
  have hmem : ⟨⟨0⟩, 0, .expecting [⟨⟨"told", []⟩, 1⟩], [], [], 0⟩ ∈ namingBegun.heads := by
    rw [hheads]
    exact List.mem_singleton_self _
  have hset : Machine.advancing? namingBegun ⟨[], .seeded 0⟩ ⟨0⟩ ⟨⟨"1"⟩, "told", [], .external⟩ =
      some namingTold := by
    with_unfolding_all rfl
  have hruns : namingTold.Runs namer 0 := ⟨⟨[], rfl⟩, by with_unfolding_all rfl, rfl⟩
  have hscope : namingTold.inst.scope [] namer = ⟨[], [], ⟨"i"⟩, ⟨"naming"⟩⟩ := by
    with_unfolding_all rfl
  have hcompile : Query.Library.compile "keys(flow)" =
      .ok (Query.Expr.call 4 "keys" [.field 5 "flow"]) := by cbv
  obtain ⟨err, herr⟩ : ∃ err,
      (⟨[], [], ⟨"i"⟩, ⟨"naming"⟩⟩ : Scope).resolve (.expr "keys(flow)") = .error err := by
    rw [Scope.resolve, Scope.evaluate, compileExpression, hcompile]
    exact ⟨_, rfl⟩
  have habort : (namingTold.inst.execute ⟨[], .seeded 0⟩ namer
      (.assign ⟨.conversation, "names"⟩ (.expr "keys(flow)"))).1 =
      .abort (Instruction.failure (.assign ⟨.conversation, "names"⟩ (.expr "keys(flow)"))
        err.message) := by
    rw [Instance.execute, hscope, herr]
    rfl
  obtain ⟨hwaits, -, hmachines⟩ := checks_suffice hl
  have hvetted := (hmachines _ (.advance _ _ _ hbegun hset)).2 _ _ hruns
  obtain hdeliberate | ⟨err', hfails, hreason⟩ := hvetted.aborts _ habort
  · cases hdeliberate
  · exact ⟨_, hl, hbegun, ⟨_, hmem, List.cons_ne_nil _ _, hwaits _ hbegun _ hmem⟩, hset, hruns,
      hvetted, _, err', habort, hfails, hreason⟩

end EventFlow

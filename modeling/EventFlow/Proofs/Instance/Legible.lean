import EventFlow.Proofs.Flow.Valid
import EventFlow.Proofs.Instance.Listening
import EventFlow.Proofs.Instance.Record
import EventFlow.Proofs.Path

/-!
# Instances stay legible

Whether an instance can be read back depends on the variables its heads wait for and on the order in
which it keeps the bases of its forks.  The variables come from the calls of its flow, which were
checked when the flow was loaded: what could be taken for a variable of the conversation would hide
`global`, and is refused.  The bases are a map to which forks add and from which joins and aborts
remove.  So an instance is legible whatever happens to it.

## What is here

* `Variable.legible_of_check` and `legible_of_load`: what the check of a flow is good for.
* `Legible.step`, and from it `Legible.start` and `Legible.advance?`: running keeps instances
  legible, as `Legible.abort` says of aborts.
-/

set_option autoImplicit false

namespace EventFlow

variable {Compiled Found : Type} [Query.Library Compiled Found]

/-! ## Variables -/

namespace Variable

/-- A name behind the mark of the conversation has `global` as its first segment. -/
theorem root_of_after? {name : String} {rest : List Char}
    (h : after? sharedMark.toList name.toList = some rest) : Path.root name = "global" := by
  have hname : name.toList = "global".toList ++ '.' :: rest := by
    rw [after?_eq_some.1 h]
    rfl
  rw [Path.root, Path.segments, hname, cutAt_append (by decide), List.map_cons, List.headD_cons]
  rfl

/-- **A variable that may be written to is told by its text.** -/
theorem legible_of_check {v : Variable} (h : v.check = .ok ()) : v.Legible := by
  rw [legible_iff]
  rintro howner ⟨rest, hrest⟩
  have hroot : v.root = "global" := root_of_after? (after?_eq_some.2 hrest.symm)
  have hreserved : (decide (v.owner = .head) && reserved.contains v.root) = true := by
    rw [howner, hroot]
    decide
  rw [check, bind_ok_iff, refuseIf_ok_iff, refuseIf_ok_iff, hreserved] at h
  exact absurd h.2 nofun

end Variable

/-! ## Programs -/

/-- The results of the calls of a program go into variables that are told by their texts. -/
def Program.Legible (program : Program) : Prop :=
  ∀ p spec, program.fetch p = .call spec → ∀ v ∈ spec.result, v.Legible

/-- **The programs of flows that may be loaded are legible.** -/
theorem legible_of_load {f : Flow} {l : LoadedFlow} (h : f.load = .ok l) : l.program.Legible := by
  intro p spec hfetch v hv
  have hwrites := (valid_of_load h p).writes
  rw [hfetch] at hwrites
  exact Variable.legible_of_check (hwrites v (List.mem_append_left _ (Option.mem_toList.2 hv)))

/-! ## Heads -/

section Legible

open Instance

variable {program : Program} {i i' : Instance} {h h' : Head} {k : Nat} {w w' : World}
  {m m' : Machine}

/-- A head that does not wait for a result is legible. -/
theorem Head.legible_of_isWaiting (hs : h.state.isWaiting = false) : h.Legible := by
  intro n v r hw
  rw [hw] at hs
  cases hs

theorem Head.legible_of_ready (hr : h.state = .ready) : h.Legible := by
  refine Head.legible_of_isWaiting ?_
  rw [hr]
  rfl

namespace Instance

theorem Legible.setHead (hi : i.Legible) (hh : h'.Legible) (k : Nat) :
    (i.setHead k h').Legible := by
  refine ⟨fun x hx => ?_, hi.bases⟩
  rcases List.mem_or_eq_of_mem_set hx with hx | rfl
  · exact hi.heads x hx
  · exact hh

/-- Settling forgets bases, and changes none. -/
theorem bases_settle_sublist (i : Instance) : List.Sublist i.settle.bases i.bases := by
  have honce (i : Instance) : List.Sublist i.settleOnce.bases i.bases :=
    List.foldlRecOn (motive := fun d : Dict Nat Bindings => List.Sublist d i.bases) i.brokenForks
      Dict.remove (.refl _) fun _ hd _ _ => List.filter_sublist.trans hd
  fun_induction settle i with
  | case1 i _ ih => exact ih.trans (honce i)
  | case2 i _ => exact honce i

theorem bases_refresh (i : Instance) : i.refresh.bases = i.bases := by
  rw [Instance.refresh]
  split
  · rfl
  · simp only
    split <;> rfl

/-- Aborting heads keeps an instance legible. -/
theorem Legible.stops (hi : i.Legible) (hs : i.Stops i') (hb : List.Sublist i'.bases i.bases) :
    i'.Legible := by
  refine ⟨fun x hx => ?_, hi.bases.sublist (hb.map Prod.fst)⟩
  rcases hs.mem hx with hx | ⟨y, -, reason, rfl⟩
  · exact hi.heads x hx
  · exact Head.legible_of_isWaiting rfl

theorem Legible.settle (hi : i.Legible) : i.settle.Legible :=
  hi.stops (stops_settle i) (bases_settle_sublist i)

theorem Legible.abortHead (hi : i.Legible) (k : Nat) (h : Head) (reason : String) :
    (i.abortHead k h reason).Legible := by
  have hset : (i.setHead k { h with state := .aborted reason }).Legible :=
    hi.setHead (Head.legible_of_isWaiting rfl) k
  exact hset.stops (stops_abortHead ..) (bases_settle_sublist _)

theorem Legible.refresh (hi : i.Legible) : i.refresh.Legible := by
  refine hi.stops (stops_refresh i) ?_
  rw [bases_refresh]

theorem Legible.abort (hi : i.Legible) (reason : String) : (i.abort reason).Legible := by
  rw [abort_eq]
  split
  · exact hi
  · exact (hi.stops (stops_stopAll i reason) (.refl _)).refresh

theorem Legible.fork (hi : i.Legible) (hr : h.state = .ready) (k first : Nat)
    (others : List Nat) : (i.fork k h first others).1.Legible := by
  have hdown (id : HeadId) (b : Branch) (start : Nat) : (h.goDown id b start).Legible :=
    Head.legible_of_ready hr
  refine ⟨fun x hx => ?_, Dict.sorted_put hi.bases _ _⟩
  rcases List.mem_append.1 hx with hx | hx
  · rcases List.mem_or_eq_of_mem_set hx with hx | rfl
    · exact hi.heads x hx
    · exact hdown _ _ _
  · obtain ⟨s, -, rfl⟩ := List.mem_map.1 hx
    exact hdown _ _ _

theorem Legible.merge (hi : i.Legible) (g place : Nat) (first : Head)
    (others : List (Head × Nat)) : (i.merge g first place others).Legible := by
  refine ⟨fun x hx => ?_, Dict.sorted_remove hi.bases g⟩
  rcases List.mem_or_eq_of_mem_set (List.mem_filter.1 hx).1 with hx | rfl
  · exact hi.heads x hx
  · exact Head.legible_of_isWaiting rfl

theorem Legible.arrive (hi : i.Legible) (hr : h.state = .ready) (k : Nat) :
    (i.arrive k h).1.Legible := by
  rw [Instance.arrive]
  split
  · exact @Legible.setHead i h.advance hi (Head.legible_of_ready hr) k
  · next b _ _ =>
    have hat : (i.setHead k { h with state := .atJoin b.group }).settle.Legible :=
      (hi.setHead (Head.legible_of_isWaiting rfl) k).settle
    simp only
    split
    · split
      · exact hat
      · split
        · exact hat
        · exact hat.merge ..
    · exact hat

/-! ## Runs -/

/-- A step keeps an instance legible, if its program is. -/
theorem Legible.step (hp : program.Legible) (hm : m.inst.Legible)
    (hs : m.step? program = some m') : m'.inst.Legible := by
  rcases Machine.step?_cases hs with ⟨-, rest, -, hinst, -, -⟩ | ⟨x, k, hr, ht⟩
  · rwa [hinst]
  · cases ht with
    | go x' on hid asks inst queue calls =>
      rw [inst]
      refine hm.setHead (fun n v r hw => ?_) k
      obtain ⟨spec, hfetch, hresult⟩ := calls n (some v) r hw
      exact hp x.position spec hfetch v hresult
    | abort reason inst queue =>
      rw [inst]
      exact hm.abortHead k x reason
    | fork first others hfetch inst queue =>
      rw [inst]
      exact hm.fork hr.ready k first others
    | arrive hfetch inst queue =>
      rw [inst]
      exact hm.arrive hr.ready k

theorem Legible.outcome (hp : program.Legible) (hm : m.inst.Legible) :
    (m.run program).outcome.1.Legible :=
  Legible.refresh <| @Machine.run_of_step _ _ _ program _ (fun m => m.inst.Legible)
    (fun _ _ hm hs => Legible.step hp hm hs) hm

theorem legible_spawn (id : InstanceId) (flow : FlowId) (priority : Int) (createdAt : Nat)
    (parent : Option InstanceId) (bindings : Bindings) (specificity : Nat) (o : Observation) :
    ((spawn id flow priority createdAt parent bindings specificity).observe o).Legible := by
  refine ⟨fun h hh => ?_, List.Pairwise.nil⟩
  rw [List.mem_singleton.1 hh]
  exact Head.legible_of_isWaiting rfl

/-- **Starting an instance keeps it legible.** -/
theorem Legible.start (hp : program.Legible) (hi : i.Legible) (w : World) :
    (i.start program w).1.Legible :=
  Legible.outcome (m := .starting i w) hp hi

/-- **Moving a head keeps its instance legible.** -/
theorem Legible.advance? (hp : program.Legible) (hi : i.Legible) {id : HeadId} {e : Event}
    {r : Instance × World × Effects} (ha : i.advance? program w id e = some r) : r.1.Legible := by
  rw [advance?_eq] at ha
  obtain ⟨m, hm, rfl⟩ := Option.map_eq_some_iff.1 ha
  obtain ⟨-, x, k, y, -, -, rfl⟩ := advancing?_eq_some.1 hm
  exact Legible.outcome hp (hi.setHead (Head.legible_of_ready (resume_head x y e w).2) k)

end Instance

end Legible

end EventFlow

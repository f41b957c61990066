import EventFlow.Instance.Execute
import EventFlow.Total

/-!
# Why running ends

Every position of a program has a `weight`, which exceeds by two the weight of any position that a
head can go on at behind it, and pays for all heads of a fork together: the targets of instructions
lie ahead, so the weight can be computed from the end of the program.

A head that is about to execute an instruction weighs twice its position and one more; while it
waits at a join it keeps what it needs to go on; any other head weighs nothing.  So an instance gets
lighter with every instruction that one of its heads executes.
-/

set_option autoImplicit false

namespace EventFlow

/-! ## Weights -/

namespace Program

/-- An upper bound on what is left to do behind a position. -/
def weight (program : Program) (p : Nat) : Nat :=
  if p < program.instructions.length then
    weight program (p + 1) + 2 +
      total (fun t => if p < t.1 then weight program t.1 + 1 else 0)
        (program.fetch p).targets.attach
  else 0
termination_by program.instructions.length - p

theorem lt_length_of_fetch_ne {program : Program} {p : Nat} (h : program.fetch p ≠ .finish) :
    p < program.instructions.length := by
  rcases Nat.lt_or_ge p program.instructions.length with hp | hp
  · exact hp
  · exact (h (by simp [fetch, List.getElem?_eq_none hp])).elim

theorem weight_eq {program : Program} {p : Nat} (hp : p < program.instructions.length) :
    program.weight p =
      program.weight (p + 1) + 2 +
        total (fun t => program.weight t + 1) (program.fetch p).targets := by
  rw [weight, if_pos hp]
  congr 1
  have hmap : ∀ t ∈ (program.fetch p).targets.attach,
      (if p < t.1 then program.weight t.1 + 1 else 0) = program.weight t.1 + 1 := by
    intro t _
    rw [if_pos (lt_of_mem_targets t.2)]
  rw [total_congr _ hmap]
  have := total_map (fun t => program.weight t + 1) Subtype.val (program.fetch p).targets.attach
  rw [List.attach_map_subtype_val] at this
  exact this.symm

theorem weight_eq_zero {program : Program} {p : Nat} (hp : program.instructions.length ≤ p) :
    program.weight p = 0 := by
  rw [weight, if_neg (by omega)]

/-- The position behind an instruction is lighter. -/
theorem weight_succ_lt {program : Program} {p : Nat} (h : program.fetch p ≠ .finish) :
    program.weight (p + 1) + 2 ≤ program.weight p := by
  rw [weight_eq (lt_length_of_fetch_ne h)]
  omega

/-- The targets of an instruction are lighter. -/
theorem weight_lt_of_mem {program : Program} {p t : Nat}
    (h : t ∈ (program.fetch p).targets) : program.weight t + 3 ≤ program.weight p := by
  have hp : program.fetch p ≠ .finish := by
    intro hf
    simp [hf, Instruction.targets] at h
  rw [weight_eq (lt_length_of_fetch_ne hp)]
  have : program.weight t + 1 ≤ total (fun t => program.weight t + 1) (program.fetch p).targets :=
    le_total_of_mem (fun t => program.weight t + 1) h
  omega

/-- Going on never makes a position heavier. -/
theorem weight_succ_le (program : Program) (p : Nat) :
    program.weight (p + 1) ≤ program.weight p := by
  rcases Nat.lt_or_ge p program.instructions.length with hp | hp
  · rw [weight_eq hp]
    omega
  · rw [weight_eq_zero (by omega)]
    omega

end Program

/-- What a head still needs. -/
def Head.weight (program : Program) (h : Head) : Nat :=
  match h.state with
  | .ready => 2 * program.weight h.position + 1
  | .atJoin _ => 2 * program.weight h.position
  | _ => 0

namespace Instance

/-- What the heads of an instance still need. -/
def weight (program : Program) (i : Instance) : Nat := total (Head.weight program) i.heads

/-! ## Settling -/

theorem state_of_joining {s : HeadState} {group : Nat} (h : s.joining? = some group) :
    s = .atJoin group := by
  cases s <;> simp_all [HeadState.joining?]

/-- Settling aborts heads that wait at a join and leaves heads as they are otherwise. -/
theorem settle_heads (i : Instance) : ∃ f : Head → Head,
    i.settle.heads = i.heads.map f ∧
      ∀ h, f h = h ∨
        (∃ group, h.state = .atJoin group) ∧ ∃ reason, f h = { h with state := .aborted reason } := by
  have once (broken : List Nat) (h : Head) : giveUp broken h = h ∨
      (∃ group, h.state = .atJoin group) ∧
        ∃ reason, giveUp broken h = { h with state := .aborted reason } := by
    unfold giveUp
    split
    · next group hv =>
      exact .inr ⟨⟨group, state_of_joining (Option.filter_eq_some_iff.1 hv).1⟩, _, rfl⟩
    · exact .inl rfl
  fun_induction settle i with
  | case1 i _ ih =>
    obtain ⟨f, hf, hs⟩ := ih
    refine ⟨f ∘ giveUp i.brokenForks, by rw [hf]; simp [settleOnce], fun h => ?_⟩
    rcases once i.brokenForks h with hg | ⟨hj, r, hg⟩ <;> simp only [Function.comp, hg]
    · exact hs h
    · rcases hs { h with state := .aborted r } with hh | ⟨⟨_, hn⟩, -⟩
      · exact .inr ⟨hj, r, hh⟩
      · cases hn
  | case2 i => exact ⟨giveUp i.brokenForks, rfl, once _⟩

theorem weight_settle_le (program : Program) (i : Instance) :
    i.settle.weight program ≤ i.weight program := by
  obtain ⟨f, hf, hs⟩ := i.settle_heads
  rw [weight, hf]
  refine total_map_le _ (fun h => ?_) _
  rcases hs h with hh | ⟨-, r, hh⟩
  · exact Nat.le_of_eq (by rw [hh])
  · simp [hh, Head.weight]

/-! ## Single heads -/

theorem weight_setHead {program : Program} {i : Instance} {k : Nat} {h : Head} (h' : Head)
    (hk : i.heads[k]? = some h) :
    (i.setHead k h').weight program + h.weight program =
      i.weight program + h'.weight program :=
  total_set _ h' hk

theorem weight_abortHead_lt {program : Program} {i : Instance} {k : Nat} {h : Head}
    (reason : String) (hk : i.heads[k]? = some h) (hr : h.state = .ready) :
    (i.abortHead k h reason).weight program < i.weight program := by
  have hset := total_set (Head.weight program) { h with state := .aborted reason } hk
  have hle := weight_settle_le program
    { (i.setHead k { h with state := .aborted reason }).observe (.headAborted i.id h.id reason) with
      abortReason := some (i.abortReason.getD reason) }
  have hw : Head.weight program h = 2 * program.weight h.position + 1 := by
    simp [Head.weight, hr]
  have h0 : Head.weight program { h with state := .aborted reason } = 0 := rfl
  simp only [weight, abortHead, setHead, observe] at *
  omega

/-! ## Forks -/

theorem weight_fork_lt {program : Program} {i : Instance} {k : Nat} {h : Head} {first : Nat}
    {others : List Nat} (hk : i.heads[k]? = some h) (hr : h.state = .ready)
    (hf : program.fetch h.position = .fork (first :: others)) :
    (i.fork k h first others).1.weight program + (i.fork k h first others).2.length <
      i.weight program := by
  have hp : program.fetch h.position ≠ .finish := by simp [hf]
  have hw := Program.weight_eq (Program.lt_length_of_fetch_ne hp)
  rw [hf] at hw
  simp only [Instruction.targets, total_cons] at hw
  have hdown (id : HeadId) (b : Branch) (t : Nat) :
      (h.goDown id b t).weight program = 2 * program.weight t + 1 := by
    simp [Head.weight, Head.goDown, hr]
  have hspawned : ∀ (l : List Nat) (n : Nat) (g : Nat × Nat → HeadId) (b : Nat × Nat → Branch),
      total (Head.weight program) ((l.zipIdx n).map fun s => h.goDown (g s) (b s) s.1) + l.length ≤
        2 * total (fun t => program.weight t + 1) l := by
    intro l
    induction l with
    | nil => intros; simp
    | cons t l ih =>
      intro n g b
      have := ih (n + 1) g b
      simp only [List.zipIdx_cons, List.map_cons, total_cons, List.length_cons, hdown]
      omega
  have hset := total_set (Head.weight program)
    (h.goDown h.id ⟨i.nextGroup, others.length + 1, 0⟩ first) hk
  have hh : Head.weight program h = 2 * program.weight h.position + 1 := by
    simp [Head.weight, hr]
  have hs := hspawned others 0 (fun s => ⟨i.nextHead + s.2⟩)
    (fun s => ⟨i.nextGroup, others.length + 1, s.2 + 1⟩)
  rw [hdown] at hset
  simp only [weight, fork, total_append, List.length_map, List.length_zipIdx] at *
  omega

/-! ## Joins -/

theorem getElem?_of_mem_zipIdx {α : Type} {l : List α} {s : α × Nat} (h : s ∈ l.zipIdx) :
    l[s.2]? = some s.1 := by
  have := List.mem_zipIdx_iff_getElem?.1 h
  simpa using this

theorem mem_arrived {i : Instance} {group : Nat} {s : Head × Nat} :
    s ∈ i.arrived group ↔ i.heads[s.2]? = some s.1 ∧ s.1.state.joining? = some group := by
  unfold arrived
  rw [List.mem_mergeSort, List.mem_filter, List.mem_zipIdx_iff_getElem?]
  simp

/-- A head that still waits after settling is the one that was there before. -/
theorem getElem?_settle {i : Instance} {k : Nat} {h x : Head} {group : Nat}
    (hk : i.heads[k]? = some h) (hx : i.settle.heads[k]? = some x)
    (hj : x.state.joining? = some group) : x = h := by
  obtain ⟨f, hf, hs⟩ := i.settle_heads
  rw [hf, List.getElem?_map, hk] at hx
  obtain rfl : f h = x := by simpa using hx
  rcases hs h with hh | ⟨-, r, hh⟩
  · exact hh
  · rw [hh] at hj
    simp [HeadState.joining?] at hj

/-- How much longer the queue gets when a head goes on behind a join. -/
def wakes (id : HeadId) : Option HeadId → Nat
  | some id' => if id' = id then 0 else 1
  | none => 0

theorem wakes_le_one (id : HeadId) (o : Option HeadId) : wakes id o ≤ 1 := by
  cases o with
  | none => simp [wakes]
  | some id' =>
    simp only [wakes]
    split <;> omega

theorem weight_merge_lt {program : Program} {i : Instance} {group k place : Nat}
    {x first : Head} {others : List (Head × Nat)} (hp : program.fetch x.position = .join)
    (hx : (x, k) ∈ i.arrived group) (ha : i.arrived group = (first, place) :: others) :
    (i.merge group first place others).weight program + wakes x.id (some first.id) <
      i.weight program := by
  have hne : program.fetch x.position ≠ .finish := by simp [hp]
  have hfirst : (first, place) ∈ i.arrived group := by rw [ha]; exact List.mem_cons_self
  obtain ⟨hat, hjoin⟩ := mem_arrived.1 hfirst
  obtain ⟨hatx, hjoinx⟩ := mem_arrived.1 hx
  simp only at hat hjoin hatx hjoinx
  have hw : first.weight program = 2 * program.weight first.position := by
    simp [Head.weight, state_of_joining hjoin]
  have hwx : x.weight program = 2 * program.weight x.position := by
    simp [Head.weight, state_of_joining hjoinx]
  have hlt := Program.weight_succ_lt hne
  unfold merge weight
  simp only
  generalize hs : survivor _ first _ = s
  have hws : s.weight program = 2 * program.weight (first.position + 1) + 1 := by
    rw [← hs]
    rfl
  have hset := total_set (Head.weight program) s hat
  have hle := program.weight_succ_le first.position
  by_cases hkp : k = place
  · subst hkp
    obtain rfl : first = x := by simpa [hat] using hatx
    have := total_filter_le (Head.weight program)
      (fun h => !(others.map fun s => s.1.id).contains h.id) (i.heads.set k s)
    simp only [wakes, if_true]
    omega
  · have hmem : (x, k) ∈ others := by
      rw [ha] at hx
      rcases List.mem_cons.1 hx with h | h
      · cases h
        exact (hkp rfl).elim
      · exact h
    have haway : (!(others.map fun s => s.1.id).contains x.id) = false := by
      simp only [Bool.not_eq_false', List.contains_iff_mem, List.mem_map]
      exact ⟨(x, k), hmem, rfl⟩
    have hgone := total_filter_add_le (Head.weight program)
      (fun h => !(others.map fun s => s.1.id).contains h.id) haway
      (l := i.heads.set place s) (k := k) (by rw [List.getElem?_set_ne (by omega)]; exact hatx)
    have hwake := wakes_le_one x.id (some first.id)
    omega

theorem weight_arrive_lt {program : Program} {i : Instance} {k : Nat} {h : Head}
    (hk : i.heads[k]? = some h) (hr : h.state = .ready) (hf : program.fetch h.position = .join) :
    (i.arrive k h).1.weight program + wakes h.id (i.arrive k h).2 < i.weight program := by
  have hne : program.fetch h.position ≠ .finish := by simp [hf]
  have hlt := Program.weight_succ_lt hne
  have hh : h.weight program = 2 * program.weight h.position + 1 := by simp [Head.weight, hr]
  unfold arrive
  split
  · have hset := @weight_setHead program _ _ _ h.advance hk
    have ha : h.advance.weight program = 2 * program.weight (h.position + 1) + 1 := by
      simp [Head.weight, Head.advance, Head.goTo, hr]
    simp only [wakes, if_true]
    omega
  · next b _ hb =>
    have hset := @weight_setHead program _ _ _ { h with state := .atJoin b.group } hk
    have hj : Head.weight program { h with state := .atJoin b.group } =
        2 * program.weight h.position := rfl
    have hle := weight_settle_le program (i.setHead k { h with state := .atJoin b.group })
    have hplace : (i.setHead k { h with state := .atJoin b.group }).heads[k]? =
        some { h with state := .atJoin b.group } := by
      have hlen : k < i.heads.length := (List.getElem?_eq_some_iff.1 hk).1
      simp [setHead, hlen]
    simp only
    generalize hj' : settle _ = j at *
    split
    · next hjoin =>
      obtain ⟨x, hx, hxj⟩ := Option.bind_eq_some_iff.1 hjoin
      have hxh : x = { h with state := .atJoin b.group } :=
        getElem?_settle hplace (by rw [hj']; exact hx) hxj
      split
      · simp only [wakes]; omega
      · next first place others ha =>
        split
        · simp only [wakes]; omega
        · have hpx : program.fetch x.position = .join := by rw [hxh]; exact hf
          have hmerge := weight_merge_lt hpx (mem_arrived.2 ⟨hx, hxj⟩) ha
          rw [hxh] at hmerge
          exact Nat.lt_trans hmerge (by omega)
    · simp only [wakes]; omega

end Instance

end EventFlow

/-!
# Alarms

Whoever waits for a time sets an alarm.  Time is cut into spans of equal length.  An alarm in the
present span is near, and rings on time.  The others are far: they hang on a dial, whose places
stand for one span each, turn after turn.  The hand of the dial goes from place to place with the
spans, but only to places where something hangs.  What hangs there rings if its time has come,
becomes near if its span has begun, and stays for a later turn otherwise.

The hand looks for the next place from the one where it is, which counts as a whole turn away if
something hangs there.  So an alarm that is more than a turn ahead lets the hand skip all other
places, and what hangs there rings late.

What time it is next is `Alarm.stop`; there some alarm rings, or one gets closer
(`rings_or_ahead_stop`).
-/

set_option autoImplicit false

namespace EventFlow

/-- How many milliseconds a span has. -/
def spanLength : Nat := 0x40000000

/-- The span of a time. -/
def spanOf (time : Nat) : Nat := time / spanLength

/-- How many places the dial has. -/
def dialSize : Nat := 64

/-- An alarm. -/
structure Alarm where
  time : Nat
  /-- Whether it hangs on the dial. -/
  far : Bool

namespace Alarm

/-- Set an alarm. -/
def set (now time : Nat) : Alarm := ⟨time, spanOf now != spanOf time⟩

/-- How many places the hand is away from the one of an alarm. -/
def distance (now : Nat) (a : Alarm) : Nat :=
  (spanOf a.time + (dialSize - spanOf now % dialSize)) % dialSize

/-- When the hand has moved by some places.  It moves by a whole turn rather than not at all. -/
def arrival (now distance : Nat) : Nat :=
  (spanOf now + if distance = 0 then dialSize else distance) * spanLength

/-- The next time at which one of some alarms may ring. -/
def stop (now : Nat) (alarms : List Alarm) : Nat :=
  match ((alarms.filter (!·.far)).map time).min? with
  | some time => time
  | none => arrival now ((alarms.map (distance now)).min?.getD 0)

/-- Whether an alarm is looked at: it is near, or the hand has just come to its place. -/
def isReached (now : Nat) (a : Alarm) : Bool :=
  !a.far || (now % spanLength == 0 && a.distance now == 0)

/-- Whether an alarm rings. -/
def rings (now : Nat) (a : Alarm) : Bool := a.isReached now && decide (a.time ≤ now)

/-- What becomes of an alarm that does not ring. -/
def pass (now : Nat) (a : Alarm) : Alarm := if a.isReached now then set now a.time else a

theorem time_pass (now : Nat) (a : Alarm) : (a.pass now).time = a.time := by
  unfold pass
  split <;> rfl

theorem lt_arrival (now distance : Nat) : now < arrival now distance := by
  have hspan : now < (spanOf now + 1) * spanLength := by
    simp only [spanOf, spanLength]
    omega
  refine Nat.lt_of_lt_of_le hspan (Nat.mul_le_mul_right _ (Nat.add_le_add_left ?_ _))
  unfold dialSize
  split <;> omega

theorem distance_arrival (now : Nat) (a : Alarm) :
    a.distance (arrival now (a.distance now)) = 0 := by
  have hspan : ∀ d, spanOf (arrival now d) = spanOf now + if d = 0 then dialSize else d :=
    fun _ => Nat.mul_div_cancel _ (by decide)
  rw [distance, hspan]
  by_cases h : a.distance now = 0
  · rw [if_pos h]
    simp only [distance, dialSize] at *
    omega
  · rw [if_neg h]
    simp only [distance, dialSize] at *
    omega

theorem isReached_arrival (now : Nat) (a : Alarm) :
    a.isReached (arrival now (a.distance now)) = true := by
  have hbegin : arrival now (a.distance now) % spanLength = 0 := Nat.mul_mod_left _ _
  rw [isReached, distance_arrival, hbegin]
  exact Bool.or_true _

/-- At the next stop some alarm rings, or time has gone on towards one that is still ahead. -/
theorem rings_or_ahead_stop (now : Nat) {alarms : List Alarm} (h : alarms ≠ []) :
    ∃ a ∈ alarms, a.rings (stop now alarms) = true ∨
      (now < stop now alarms ∧ stop now alarms < a.time) := by
  unfold stop
  split
  · next time htime =>
    obtain ⟨a, ha, rfl⟩ := List.mem_map.1 (List.min?_mem htime)
    obtain ⟨hmem, hnear⟩ := List.mem_filter.1 ha
    exact ⟨a, hmem, .inl (by simp [rings, isReached, hnear])⟩
  · cases hmin : (alarms.map (distance now)).min? with
    | none => exact (h (by simpa using hmin)).elim
    | some d =>
      obtain ⟨a, ha, rfl⟩ := List.mem_map.1 (List.min?_mem hmin)
      refine ⟨a, ha, ?_⟩
      rw [Option.getD_some, rings, isReached_arrival]
      rcases Nat.lt_or_ge (arrival now (a.distance now)) a.time with hahead | hdue
      · exact .inr ⟨lt_arrival _ _, hahead⟩
      · exact .inl (by simp [hdue])

end Alarm

end EventFlow

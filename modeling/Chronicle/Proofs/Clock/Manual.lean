import Mathlib.Algebra.Group.Int.Defs
import Chronicle.Clock

/-!
# Manual clocks and the last moment

A manual clock is read, set and moved forward, and no call means to move it back.  But moments are
64-bit numbers, and a clock that is moved past the last of them goes on from the first.  What the
calls would reach if time had no end is a matter of whole numbers; the clock goes forward over a run
of calls exactly if that is still a moment.

* `toInt_current_call` : one call, in whole numbers;
* `current_le_call_iff` : one call moves the clock back exactly if it passes the last moment;
* `shown_ascending_iff` : so does a run of calls;
* `readings_ascending` : hence the readings ascend as long as the run reaches a moment.
-/

namespace Chronicle

/-- A call of a manual clock. -/
inductive ClockCall where
  | now
  | set (ts : Timestamp)
  | advance (delta : Int64)
  deriving DecidableEq

/-- Where the call would take a clock that goes on by `step` at each reading, if time had no
end. -/
def ClockCall.carry (step moment : Int) : ClockCall → Int
  | now => moment + step
  | set ts => max moment ts.toInt
  | advance delta => moment + max 0 delta.toInt

namespace ManualClock

/-- The clock after the call. -/
def call (c : ManualClock) : ClockCall → ManualClock
  | .now => c.now.2
  | .set ts => c.set ts
  | .advance delta => c.advance delta

/-- The values that the readings among the calls give. -/
def readings (c : ManualClock) : List ClockCall → List Timestamp
  | [] => []
  | .now :: rest => c.now.1 :: (c.call .now).readings rest
  | k :: rest => (c.call k).readings rest

/-- What the clock shows before the calls and after each of them. -/
def shown (c : ManualClock) : List ClockCall → List Timestamp
  | [] => [c.current]
  | k :: rest => c.current :: (c.call k).shown rest

/-- What the calls would reach if time had no end. -/
def reach (c : ManualClock) (calls : List ClockCall) : Int :=
  calls.foldl (ClockCall.carry c.step.toInt) c.current.toInt

variable {c : ManualClock}

/-! ## One call -/

/-- A sum that passes the last moment is short by all of time. -/
theorem toInt_add_of_nonneg (ts : Timestamp) {delta : Int64} (h : 0 ≤ delta.toInt) :
    (ts + delta).toInt
      = if ts.toInt + delta.toInt ≤ Int64.maxValue.toInt then ts.toInt + delta.toInt
        else ts.toInt + delta.toInt - 2 ^ 64 := by
  have hts := ts.toInt_lt
  have hle := ts.le_toInt
  have hdelta := delta.toInt_lt
  have hmax : Int64.maxValue.toInt = 2 ^ 63 - 1 := by decide
  rw [Int64.toInt_add, hmax, Int.bmod_def]
  split <;> split <;> omega

/-- The call takes the clock where it would take it if time had no end, or all of time short of
it. -/
theorem toInt_current_call (h : 0 ≤ c.step.toInt) (k : ClockCall) :
    (c.call k).current.toInt
      = if k.carry c.step.toInt c.current.toInt ≤ Int64.maxValue.toInt then
          k.carry c.step.toInt c.current.toInt
        else k.carry c.step.toInt c.current.toInt - 2 ^ 64 := by
  cases k with
  | now => exact toInt_add_of_nonneg c.current h
  | set ts =>
    have hmax : max c.current.toInt ts.toInt ≤ Int64.maxValue.toInt :=
      Int.max_le.2 ⟨c.current.toInt_le, ts.toInt_le⟩
    rw [ClockCall.carry, if_pos hmax]
    show (if c.current < ts then ts else c.current).toInt = max c.current.toInt ts.toInt
    split
    · next hlt =>
      have hlt := Int64.lt_iff_toInt_lt.1 hlt
      omega
    · next hlt =>
      have hle := Int64.le_iff_toInt_le.1 (Int64.not_lt.1 hlt)
      omega
  | advance delta =>
    by_cases hdelta : 0 < delta
    · have hpos : 0 < delta.toInt := Int64.lt_iff_toInt_lt.1 hdelta
      have hcall : (c.call (.advance delta)).current = c.current + delta := by
        rw [call, advance, if_pos hdelta]
      rw [hcall, ClockCall.carry, Int.max_eq_right (Int.le_of_lt hpos)]
      exact toInt_add_of_nonneg c.current (Int.le_of_lt hpos)
    · have hneg : delta.toInt ≤ 0 := Int64.le_iff_toInt_le.1 (Int64.not_lt.1 hdelta)
      have hcall : (c.call (.advance delta)).current = c.current := by
        rw [call, advance, if_neg hdelta]
      rw [hcall, ClockCall.carry, Int.max_eq_left hneg, Int.add_zero, if_pos c.current.toInt_le]

/-- If time had no end, no call would move the clock back. -/
theorem le_carry {step : Int} (h : 0 ≤ step) (moment : Int) (k : ClockCall) :
    moment ≤ k.carry step moment := by
  cases k with
  | now => exact Int.le_add_of_nonneg_right h
  | set ts => exact Int.le_max_left _ _
  | advance delta => exact Int.le_add_of_nonneg_right (Int.le_max_left _ _)

/-- A call that passes the last moment takes the clock behind where it was: no step is as long as
all of time. -/
theorem carry_sub_lt (c : ManualClock) (k : ClockCall) :
    k.carry c.step.toInt c.current.toInt - 2 ^ 64 < c.current.toInt := by
  have hcurrent := c.current.le_toInt
  cases k with
  | now =>
    have hstep := c.step.toInt_lt
    simp only [ClockCall.carry]
    omega
  | set ts =>
    have hts := ts.toInt_lt
    simp only [ClockCall.carry]
    omega
  | advance delta =>
    have hdelta := delta.toInt_lt
    simp only [ClockCall.carry]
    omega

/-- One call moves the clock back exactly if it passes the last moment. -/
theorem current_le_call_iff (h : 0 ≤ c.step.toInt) (k : ClockCall) :
    c.current ≤ (c.call k).current
      ↔ k.carry c.step.toInt c.current.toInt ≤ Int64.maxValue.toInt := by
  rw [Int64.le_iff_toInt_le, toInt_current_call h]
  split
  · next hfits => exact iff_of_true (le_carry h _ k) hfits
  · next hpasses => exact iff_of_false (Int.not_le.2 (c.carry_sub_lt k)) hpasses

/-! ## Runs of calls -/

@[simp] theorem step_call (c : ManualClock) (k : ClockCall) : (c.call k).step = c.step := by
  cases k with
  | now => rfl
  | set ts => rfl
  | advance delta =>
    show (c.advance delta).step = c.step
    unfold advance
    split <;> rfl

/-- What further calls would reach is not before where the calls so far would. -/
theorem le_foldl_carry {step : Int} (h : 0 ≤ step) (moment : Int) (calls : List ClockCall) :
    moment ≤ calls.foldl (ClockCall.carry step) moment := by
  induction calls generalizing moment with
  | nil => exact Int.le_refl moment
  | cons k rest ih => exact Int.le_trans (le_carry h moment k) (ih (k.carry step moment))

/-- As long as a call does not pass the last moment, the rest of the run reaches what it would. -/
theorem reach_cons (h : 0 ≤ c.step.toInt) {k : ClockCall} (rest : List ClockCall)
    (hfits : k.carry c.step.toInt c.current.toInt ≤ Int64.maxValue.toInt) :
    c.reach (k :: rest) = (c.call k).reach rest := by
  rw [reach, reach, step_call, toInt_current_call h, if_pos hfits, List.foldl_cons]

theorem exists_shown (c : ManualClock) (calls : List ClockCall) :
    ∃ later, c.shown calls = c.current :: later := by
  cases calls with
  | nil => exact ⟨[], rfl⟩
  | cons k rest => exact ⟨_, rfl⟩

/-- The clock goes forward over a run exactly if what the run would reach is still a moment. -/
theorem shown_ascending_iff (h : 0 ≤ c.step.toInt) (calls : List ClockCall) :
    (c.shown calls).Pairwise (· ≤ ·) ↔ c.reach calls ≤ Int64.maxValue.toInt := by
  induction calls generalizing c with
  | nil => exact iff_of_true (List.pairwise_singleton _ _) c.current.toInt_le
  | cons k rest ih =>
    have ih := ih (c := c.call k) (by rwa [step_call])
    obtain ⟨later, hlater⟩ := exists_shown (c.call k) rest
    have hone := current_le_call_iff h k
    rw [shown, List.pairwise_cons, ih]
    by_cases hfits : k.carry c.step.toInt c.current.toInt ≤ Int64.maxValue.toInt
    · rw [reach_cons h rest hfits]
      refine ⟨fun hall => hall.2, fun hreach => ⟨fun ts hts => ?_, hreach⟩⟩
      -- what comes first after the call is not earlier, and the rest ascends from there
      have hrest := ih.2 hreach
      rw [hlater] at hts hrest
      rcases List.mem_cons.1 hts with rfl | hts
      · exact hone.2 hfits
      · exact Int64.le_trans (hone.2 hfits) ((List.pairwise_cons.1 hrest).1 ts hts)
    · refine iff_of_false (fun hall => ?_) (fun hreach => ?_)
      · exact hfits (hone.1 (hall.1 _ (by rw [hlater]; exact List.mem_cons_self)))
      · exact hfits (Int.le_trans (le_foldl_carry h _ rest) hreach)

/-- Each reading gives what the clock shows when it is made. -/
theorem readings_sublist_shown (c : ManualClock) (calls : List ClockCall) :
    (c.readings calls).Sublist (c.shown calls) := by
  induction calls generalizing c with
  | nil => exact List.nil_sublist _
  | cons k rest ih =>
    cases k with
    | now => exact (ih (c.call .now)).cons_cons c.current
    | set ts => exact (ih (c.call (.set ts))).cons c.current
    | advance delta => exact (ih (c.call (.advance delta))).cons c.current

/-- **A manual clock goes forward up to the last moment.**  If its step is not negative, as that of
a clock that stands still or ticks, the readings ascend in every run of calls that would not reach
farther than the last moment; and the clock shows an earlier time after some call than before it
exactly in the runs that would. -/
theorem readings_ascending (h : 0 ≤ c.step.toInt) (calls : List ClockCall) :
    (c.reach calls ≤ Int64.maxValue.toInt → (c.readings calls).Pairwise (· ≤ ·))
      ∧ ((c.shown calls).Pairwise (· ≤ ·) ↔ c.reach calls ≤ Int64.maxValue.toInt) := by
  have hshown := shown_ascending_iff h calls
  exact ⟨fun hreach => (hshown.2 hreach).sublist (c.readings_sublist_shown calls), hshown⟩

/-- A clock that ticks up to the last moment and no farther; setting it back does nothing. -/
theorem readings_ascending_upToTheLast :
    let c := ticking (Int64.maxValue - 2)
    let calls : List ClockCall := [.now, .advance (-3), .set 4, .now]
    0 ≤ c.step.toInt ∧ c.reach calls = Int64.maxValue.toInt
      ∧ c.readings calls = [Int64.maxValue - 2, Int64.maxValue - 1]
      ∧ (c.readings calls).Pairwise (· ≤ ·) := by
  intro c calls
  have hstep : 0 ≤ c.step.toInt := by decide
  have hreach : c.reach calls = Int64.maxValue.toInt := by decide
  exact ⟨hstep, hreach, by decide, (readings_ascending hstep calls).1 (Int.le_of_eq hreach)⟩

/-- A clock that ticks at the last moment goes on from the first, and so does one that is moved
past the last: not every run of readings ascends. -/
theorem not_readings_ascending_pastTheLast :
    (ticking Int64.maxValue).readings [.now, .now] = [Int64.maxValue, Int64.minValue]
      ∧ (still 1).readings [.now, .advance Int64.maxValue, .now] = [1, Int64.minValue]
      ∧ (¬∀ start calls, ((ticking start).readings calls).Pairwise (· ≤ ·))
      ∧ ¬∀ start calls, ((still start).readings calls).Pairwise (· ≤ ·) := by
  refine ⟨by decide, by decide, fun hall => ?_, fun hall => ?_⟩
  · exact absurd (hall Int64.maxValue [.now, .now]) (by decide)
  · exact absurd (hall 1 [.now, .advance Int64.maxValue, .now]) (by decide)

end ManualClock

end Chronicle

import Mathlib.Algebra.Group.Int.Defs
import Mathlib.Order.Bounds.Basic
import Chronicle.Clock

/-!
# How far a system clock runs ahead

A system clock gives what the wall clock shows, or one more than it gave last if that is not later.
So from each reading of the wall clock, and from the last value before all of them, it counts at
least one further at every call; and it is at no time farther than the farthest of these counts.

* `toInt_now` : one call, in whole numbers;
* `isGreatest_readings` : the values of a run of calls;
* `add_le_of_readings` : each call goes at least one further;
* `readings_closedForm` : hence the values ascend and do not run ahead without need.
-/

namespace Chronicle.SystemClock

variable {c : SystemClock}

/-- How far it is counted at the call at place `i`, from the last value before all calls and from
what the wall clock shows at each call so far. -/
def counted (last : Int) (walls : List Timestamp) (i : Nat) : Set Int :=
  {m | m = last + (i + 1) ∨ ∃ j w, j ≤ i ∧ walls[j]? = some w ∧ m = w.toInt + (i - j)}

/-- The calls do not come to the end of time, neither from the clock's last value on nor from any
reading. -/
structure HasTimeFor (c : SystemClock) (walls : List Timestamp) : Prop where
  last : c.last.toInt + walls.length ≤ Int64.maxValue.toInt
  reading (w : Timestamp) : w ∈ walls → w.toInt + walls.length ≤ Int64.maxValue.toInt

/-! ## One call -/

/-- A call gives the wall clock's value, or one more than the last if that is farther. -/
theorem toInt_now (wall : Timestamp) (h : c.last.toInt + 1 ≤ Int64.maxValue.toInt) :
    (c.now wall).1.toInt = max wall.toInt (c.last.toInt + 1) := by
  show (if c.last < wall then wall else c.last + 1).toInt = _
  have hlow := c.last.le_toInt
  rw [Int64.toInt_maxValue] at h
  have hone : (1 : Int64).toInt = 1 := by decide
  split
  · next hlt =>
    have hlt := Int64.lt_iff_toInt_lt.1 hlt
    omega
  · next hlt =>
    have hle := Int64.le_iff_toInt_le.1 (Int64.not_lt.1 hlt)
    rw [Int64.toInt_add, hone, Int.bmod_eq_of_le (by omega) (by omega)]
    omega

/-- After a call there is time for the calls that are left. -/
theorem HasTimeFor.now {wall : Timestamp} {rest : List Timestamp}
    (h : c.HasTimeFor (wall :: rest)) :
    (c.now wall).1.toInt = max wall.toInt (c.last.toInt + 1)
      ∧ (c.now wall).2.HasTimeFor rest := by
  have hlast := h.last
  have hwall := h.reading wall List.mem_cons_self
  rw [List.length_cons, Int.natCast_succ] at hlast hwall
  have hnow : (c.now wall).1.toInt = max wall.toInt (c.last.toInt + 1) :=
    toInt_now wall (by omega)
  refine ⟨hnow, ?_, fun w hw => ?_⟩
  · show (c.now wall).1.toInt + rest.length ≤ Int64.maxValue.toInt
    omega
  · have hreading := h.reading w (List.mem_cons_of_mem wall hw)
    rw [List.length_cons, Int.natCast_succ] at hreading
    omega

/-! ## Runs of calls -/

@[simp] theorem length_readings (c : SystemClock) (walls : List Timestamp) :
    (c.readings walls).length = walls.length := by
  induction walls generalizing c with
  | nil => rfl
  | cons wall rest ih => exact congrArg Nat.succ (ih _)

/-- The first call counts from the last value and from its own reading. -/
theorem counted_zero (last : Int) (wall : Timestamp) (rest : List Timestamp) :
    counted last (wall :: rest) 0 = {last + 1, wall.toInt} := by
  ext m
  constructor
  · rintro (rfl | ⟨j, w, hj, hw, rfl⟩)
    · exact Or.inl rfl
    · obtain rfl := Nat.le_zero.1 hj
      cases hw
      exact Or.inr (by simp)
  · rintro (rfl | rfl)
    · exact Or.inl rfl
    · exact Or.inr ⟨0, wall, Nat.le_refl 0, rfl, by simp⟩

/-- Every later call counts on from what the first one counted, and from the readings after it. -/
theorem isGreatest_counted_succ {last m : Int} {wall : Timestamp} {rest : List Timestamp} {i : Nat}
    (h : IsGreatest (counted (max wall.toInt (last + 1)) rest i) m) :
    IsGreatest (counted last (wall :: rest) (i + 1)) m := by
  obtain ⟨hmem, hup⟩ := h
  refine ⟨?_, ?_⟩
  · rcases hmem with rfl | ⟨j, w, hj, hw, rfl⟩
    · rcases Int.le_total wall.toInt (last + 1) with hle | hle
      · refine Or.inl ?_
        rw [Int.max_eq_right hle]
        push_cast
        omega
      · refine Or.inr ⟨0, wall, Nat.zero_le _, rfl, ?_⟩
        rw [Int.max_eq_left hle]
        push_cast
        omega
    · refine Or.inr ⟨j + 1, w, Nat.succ_le_succ hj, hw, ?_⟩
      push_cast
      omega
  · have hfirst := hup (Or.inl rfl)
    rintro m' (rfl | ⟨j, w, hj, hw, rfl⟩)
    · push_cast
      omega
    · cases j with
      | zero =>
        cases hw
        push_cast
        omega
      | succ j =>
        have hlater := hup (Or.inr ⟨j, w, Nat.le_of_succ_le_succ hj, hw, rfl⟩)
        push_cast
        omega

/-- Each value is the farthest that is counted at its call. -/
theorem isGreatest_readings {walls : List Timestamp} (h : c.HasTimeFor walls) {i : Nat}
    {v : Timestamp} (hv : (c.readings walls)[i]? = some v) :
    IsGreatest (counted c.last.toInt walls i) v.toInt := by
  induction walls generalizing c i with
  | nil => cases hv
  | cons wall rest ih =>
    obtain ⟨hnow, hrest⟩ := h.now
    cases i with
    | zero =>
      obtain rfl : (c.now wall).1 = v := Option.some.inj hv
      rw [counted_zero, hnow, max_comm]
      exact isGreatest_pair
    | succ i =>
      apply isGreatest_counted_succ
      rw [← hnow]
      exact ih hrest hv

/-- Each call goes at least one further. -/
theorem add_le_of_readings {walls : List Timestamp} (h : c.HasTimeFor walls) {i j : Nat}
    (hij : i ≤ j) {u v : Timestamp} (hu : (c.readings walls)[i]? = some u)
    (hv : (c.readings walls)[j]? = some v) : u.toInt + (j - i) ≤ v.toInt := by
  obtain ⟨-, hup⟩ := isGreatest_readings h hv
  -- what was counted up to the earlier call is counted on
  rcases (isGreatest_readings h hu).1 with hlast | ⟨k, w, hk, hw, hwall⟩
  · have hcount := hup (Or.inl rfl)
    omega
  · have hcount := hup (Or.inr ⟨k, w, Nat.le_trans hk hij, hw, rfl⟩)
    omega

/-- A value is counted from the last value before all calls, or from a reading that was given as it
is. -/
theorem exists_given {walls : List Timestamp} (h : c.HasTimeFor walls) {i : Nat} {v : Timestamp}
    (hv : (c.readings walls)[i]? = some v) :
    v.toInt = c.last.toInt + (i + 1)
      ∨ ∃ j w, j ≤ i ∧ walls[j]? = some w ∧ (c.readings walls)[j]? = some w
        ∧ v.toInt - w.toInt = i - j := by
  rcases (isGreatest_readings h hv).1 with hlast | ⟨j, w, hj, hw, hcount⟩
  · exact Or.inl hlast
  · have hlt : j < (c.readings walls).length := by
      rw [length_readings]
      exact (List.getElem?_eq_some_iff.1 hw).1
    have hu := List.getElem?_eq_getElem hlt
    -- the value given then is not farther than its reading, as this one would be, too
    have hover := (isGreatest_readings h hu).2 (Or.inr ⟨j, w, Nat.le_refl j, hw, rfl⟩)
    have hfar := add_le_of_readings h hj hu hv
    have hgiven : (c.readings walls)[j] = w := Int64.toInt_inj.1 (by omega)
    rw [hgiven] at hu
    exact Or.inr ⟨j, w, hj, hw, hu, by omega⟩

/-- **A system clock ascends, and runs ahead no farther than it must.**  As long as the calls do not
come to the end of time, from zero on or from any reading, the value given at each is the farthest
of the counts from the start and from the readings so far.  So the values ascend strictly, none is
earlier than the reading at its call, and each is ahead of the reading that it is counted from by
the number of calls since. -/
theorem readings_closedForm (walls : List Timestamp)
    (h : ∀ w ∈ walls, max 0 w.toInt + walls.length ≤ Int64.maxValue.toInt) :
    let values := fresh.readings walls
    values.length = walls.length
      ∧ (∀ (i : Nat) v, values[i]? = some v → IsGreatest (counted 0 walls i) v.toInt)
      ∧ values.Pairwise (· < ·)
      ∧ (∀ (i : Nat) w v, walls[i]? = some w → values[i]? = some v → w ≤ v)
      ∧ ∀ (i : Nat) v, values[i]? = some v →
          v.toInt = i + 1
            ∨ ∃ (j : Nat) (w : Timestamp), j ≤ i ∧ walls[j]? = some w ∧ values[j]? = some w
              ∧ v.toInt - w.toInt = i - j := by
  intro values
  have hlast : fresh.last.toInt = 0 := by decide
  have htime : fresh.HasTimeFor walls := by
    refine ⟨?_, fun w hw => ?_⟩
    · cases walls with
      | nil => decide
      | cons w rest =>
        have hfirst := h w List.mem_cons_self
        omega
    · have hone := h w hw
      omega
  refine ⟨length_readings _ _, fun i v hv => ?_, ?_, fun i w v hw hv => ?_, fun i v hv => ?_⟩
  · have hgreatest := isGreatest_readings htime hv
    rw [hlast] at hgreatest
    exact hgreatest
  · refine List.pairwise_iff_getElem.2 fun i j hi hj hij => ?_
    have hfar := add_le_of_readings htime (Nat.le_of_lt hij) (List.getElem?_eq_getElem hi)
      (List.getElem?_eq_getElem hj)
    exact Int64.lt_iff_toInt_lt.2 (by omega)
  · have hown := (isGreatest_readings htime hv).2 (Or.inr ⟨i, w, Nat.le_refl i, hw, rfl⟩)
    exact Int64.le_iff_toInt_le.2 (by omega)
  · have hgiven := exists_given htime hv
    rw [hlast] at hgiven
    simpa only [Int.zero_add] using hgiven

/-- A wall clock that shows nothing at first, then stands still, is set back, jumps and is set back
again. -/
def jumpy : List Timestamp := [0, 0, 7, 7, 4, 12, 3]

/-- The fifth value is counted from the third reading, and the last from the last but one. -/
theorem readings_closedForm_jumpy :
    (∀ w ∈ jumpy, max 0 w.toInt + jumpy.length ≤ Int64.maxValue.toInt)
      ∧ fresh.readings jumpy = [1, 2, 7, 8, 9, 12, 13]
      ∧ (fresh.readings jumpy).Pairwise (· < ·)
      ∧ IsGreatest (counted 0 jumpy 4) 9 ∧ IsGreatest (counted 0 jumpy 6) 13 := by
  have hall : jumpy.all fun w => max 0 w.toInt + jumpy.length ≤ Int64.maxValue.toInt := by decide
  have htime : ∀ w ∈ jumpy, max 0 w.toInt + jumpy.length ≤ Int64.maxValue.toInt :=
    fun w hw => of_decide_eq_true (List.all_eq_true.1 hall w hw)
  obtain ⟨-, hgreatest, hascending, -⟩ := readings_closedForm jumpy htime
  exact ⟨htime, by decide, hascending, hgreatest 4 9 (by decide), hgreatest 6 13 (by decide)⟩

end Chronicle.SystemClock

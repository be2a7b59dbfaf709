/-!
# Clocks

A timestamp is a signed 64-bit count.  A manual clock moves only when told to, or by a fixed step
at each reading; a system clock follows a wall clock but never repeats a value.  All arithmetic
wraps at 64 bits.
-/

namespace Chronicle

/-- A moment: milliseconds or ticks, as a signed 64-bit number. -/
abbrev Timestamp := Int64

/-- A clock that is moved by hand, or by `step` at each reading. -/
structure ManualClock where
  current : Timestamp
  step : Int64
  deriving DecidableEq, Inhabited

namespace ManualClock

/-- A clock that stands still between movements. -/
def still (start : Timestamp) : ManualClock := ⟨start, 0⟩

/-- A clock that goes one further at each reading. -/
def ticking (start : Timestamp) : ManualClock := ⟨start, 1⟩

/-- The reading, and the clock after it. -/
def now (c : ManualClock) : Timestamp × ManualClock :=
  (c.current, { c with current := c.current + c.step })

/-- Moves the clock to `ts` unless it is already later. -/
def set (c : ManualClock) (ts : Timestamp) : ManualClock :=
  { c with current := if c.current < ts then ts else c.current }

/-- Moves the clock forward; a delta that is not positive leaves it alone. -/
def advance (c : ManualClock) (delta : Int64) : ManualClock :=
  if 0 < delta then { c with current := c.current + delta } else c

end ManualClock

/-- A clock that follows a wall clock and remembers the last value it gave. -/
structure SystemClock where
  last : Timestamp
  deriving DecidableEq, Inhabited

namespace SystemClock

/-- A clock that has given no value yet. -/
def fresh : SystemClock := ⟨0⟩

/-- The value given when the wall clock shows `wall`: the wall's, or one more than the last. -/
def now (c : SystemClock) (wall : Timestamp) : Timestamp × SystemClock :=
  let next := if c.last < wall then wall else c.last + 1
  (next, ⟨next⟩)

/-- The values given at successive readings of the wall clock. -/
def readings (c : SystemClock) : List Timestamp → List Timestamp
  | [] => []
  | wall :: rest => (c.now wall).1 :: (c.now wall).2.readings rest

end SystemClock

/-- The clock of an engine.  A system clock comes with what the wall clock shows. -/
inductive Clock where
  | manual (clock : ManualClock)
  | system (clock : SystemClock) (wall : Timestamp)
  deriving DecidableEq, Inhabited

namespace Clock

/-- The reading, and the clock after it. -/
def now : Clock → Timestamp × Clock
  | .manual c => (c.now.1, .manual c.now.2)
  | .system c wall => ((c.now wall).1, .system (c.now wall).2 wall)

end Clock

end Chronicle

import Chronicle.Clock

/-!
# Ranges of time

A range has an earliest and a latest moment, both included and both optional.
-/

namespace Chronicle

/-- The moments from `start` to `stop`, both included; an end that is not given is open. -/
structure TimeRange where
  start : Option Timestamp
  stop : Option Timestamp
  deriving DecidableEq, Inhabited

namespace TimeRange

/-- All of time. -/
def all : TimeRange := ⟨none, none⟩

/-- Everything not later than `asOf`; all of time if it is not given. -/
def upTo (asOf : Option Timestamp) : TimeRange := ⟨none, asOf⟩

/-- Whether the moment lies in the range. -/
def contains (r : TimeRange) (ts : Timestamp) : Bool :=
  r.start.all (fun s => decide (s ≤ ts)) && r.stop.all (fun e => decide (ts ≤ e))

@[simp] theorem contains_all (ts : Timestamp) : all.contains ts = true := rfl

@[simp] theorem upTo_none : upTo none = all := rfl

@[simp] theorem contains_upTo_some (e ts : Timestamp) :
    (upTo (some e)).contains ts = decide (ts ≤ e) := by simp [contains, upTo]

end TimeRange

end Chronicle

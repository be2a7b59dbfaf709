import Chronicle.Reader
import Chronicle.TimeRange
import Chronicle.Property

/-!
# Views

A view is how an element is looked at: what is asked for, as of which moment, and by whom.
-/

namespace Chronicle

/-- What is asked for, as of which moment, and by whom. -/
structure View where
  hints : FetchHints
  /-- The moment looked at; everything up to now if it is not given. -/
  asOf : Option Timestamp
  reader : Reader

namespace View

/-- Whether the moment is not later than the one looked at. -/
def reaches (v : View) (ts : Timestamp) : Bool := (TimeRange.upTo v.asOf).contains ts

end View

end Chronicle

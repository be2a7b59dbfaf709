import Chronicle.Error

/-!
# Element ids

An element is named by a text that is not empty.  Ids are ordered by code point.
-/

namespace Chronicle

/-- The name of an element. -/
structure ElementId where
  text : String
  nonempty : text ≠ ""
  deriving DecidableEq

namespace ElementId

/-- The id with this text; the empty text is refused. -/
def ofString (text : String) : Except Error ElementId :=
  if h : text = "" then .error .emptyElementId else .ok ⟨text, h⟩

instance : Ord ElementId := ⟨fun a b => compare a.text b.text⟩

theorem compare_eq (a b : ElementId) : compare a b = compare a.text b.text := rfl

instance : Std.LawfulEqOrd ElementId where
  compare_self := by simp [compare_eq, Std.ReflCmp.compare_self]
  eq_of_compare {a b} h := by
    rw [compare_eq, Std.compare_eq_iff_eq] at h
    cases a; cases b; cases h; rfl

instance : Std.TransOrd ElementId where
  eq_swap {a b} := by simpa only [compare_eq] using Std.OrientedCmp.eq_swap
  isLE_trans {a b c} h h' := by
    rw [compare_eq] at *
    exact Std.TransCmp.isLE_trans h h'

end ElementId

end Chronicle

import Chronicle.OrderedMap
import Chronicle.Text

/-!
# Visibility labels

Every record, element and property carries a label saying who may read it.  The empty label is
readable by everyone.  Labels are ordered by code point, and sets of labels are listed in that
order.
-/

namespace Chronicle

/-- A label that says who may read something. -/
structure Visibility where
  label : String
  deriving DecidableEq, Inhabited

namespace Visibility

/-- The label that everyone may read. -/
def empty : Visibility := ⟨""⟩

/-- Whether this is the label that everyone may read. -/
def isEmpty (v : Visibility) : Bool := v.label.isEmpty

/-- Whether the label has `marker` somewhere in its text. -/
def mentions (v : Visibility) (marker : String) : Bool :=
  Text.occursIn marker.toList v.label.toList

instance : Ord Visibility := ⟨fun a b => compare a.label b.label⟩

theorem compare_eq (a b : Visibility) : compare a b = compare a.label b.label := rfl

instance : Std.LawfulEqOrd Visibility where
  compare_self := by simp [compare_eq, Std.ReflCmp.compare_self]
  eq_of_compare {a b} h := by
    rw [compare_eq, Std.compare_eq_iff_eq] at h
    exact congrArg Visibility.mk h

instance : Std.TransOrd Visibility where
  eq_swap {a b} := by simpa only [compare_eq] using Std.OrientedCmp.eq_swap
  isLE_trans {a b c} h h' := by
    rw [compare_eq] at *
    exact Std.TransCmp.isLE_trans h h'

@[simp] theorem isEmpty_empty : empty.isEmpty = true := rfl

theorem isEmpty_iff {v : Visibility} : v.isEmpty = true ↔ v = empty := by
  cases v
  simp [isEmpty, empty]

end Visibility

/-! ## Sets of labels -/

/-- A finite set of labels, listed in order. -/
abbrev LabelSet := OrderedMap Visibility Unit

namespace LabelSet

/-- The set with the label added. -/
def add (s : LabelSet) (v : Visibility) : LabelSet := s.insert v ()

/-- The set of the listed labels. -/
def ofLabels (labels : List String) : LabelSet :=
  labels.foldl (fun s l => s.add ⟨l⟩) OrderedMap.empty

/-- The labels in order. -/
def labels (s : LabelSet) : List String := s.keys.map (·.label)

end LabelSet

end Chronicle

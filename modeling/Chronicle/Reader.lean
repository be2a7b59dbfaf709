import Chronicle.Visibility

/-!
# Readers

A reader is known by the labels it is granted.  The empty label needs no grant: `Reader.canRead`
answers for it without consulting the grants.
-/

namespace Chronicle

/-- Someone who reads, given by the labels granted to them. -/
structure Reader where
  grants : Visibility → Bool

namespace Reader

/-- Whether the grants have to be consulted to decide about the label. -/
def consults (v : Visibility) : Bool := !v.isEmpty

/-- Whether the reader may read what carries the label. -/
def canRead (r : Reader) (v : Visibility) : Bool := !consults v || r.grants v

/-- The reader who is granted everything. -/
def all : Reader := ⟨fun _ => true⟩

/-- The reader who is granted exactly the labels of the set. -/
def holding (s : LabelSet) : Reader := ⟨s.contains⟩

@[simp] theorem canRead_empty (r : Reader) : r.canRead .empty = true := rfl

@[simp] theorem canRead_all (v : Visibility) : all.canRead v = true := by simp [canRead, all]

theorem canRead_iff {r : Reader} {v : Visibility} :
    r.canRead v = true ↔ v = .empty ∨ r.grants v = true := by
  rw [canRead, consults, Bool.not_not, Bool.or_eq_true, Visibility.isEmpty_iff]

end Reader

end Chronicle

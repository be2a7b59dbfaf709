import Chronicle.Clock
import Chronicle.Metadata

/-!
# Properties

A property belongs to an identity: a name, a key that tells apart several values of one name, and
a visibility label.  Identities are ordered by name, then key, then label; reads list properties
in that order.
-/

namespace Chronicle

/-- What tells one property of an element from another. -/
structure PropertyIdentity where
  name : String
  key : String
  visibility : Visibility
  deriving DecidableEq, Inhabited

namespace PropertyIdentity

instance : Ord PropertyIdentity :=
  ⟨compareLex (compareOn (·.name)) (compareLex (compareOn (·.key)) (compareOn (·.visibility)))⟩

theorem compare_eq (a b : PropertyIdentity) :
    compare a b = (compare a.name b.name).then
      ((compare a.key b.key).then (compare a.visibility b.visibility)) := rfl

instance : Std.LawfulEqOrd PropertyIdentity where
  compare_self := by simp [compare_eq, Std.ReflCmp.compare_self]
  eq_of_compare {a b} h := by
    simp only [compare_eq, Ordering.then_eq_eq, Std.compare_eq_iff_eq] at h
    cases a; cases b
    simp_all

instance : Std.TransOrd PropertyIdentity :=
  inferInstanceAs (Std.TransCmp (compareLex (compareOn PropertyIdentity.name)
    (compareLex (compareOn PropertyIdentity.key) (compareOn PropertyIdentity.visibility))))

end PropertyIdentity

/-! ## Choosing properties -/

/-- A choice of identities; a part that is not given admits everything. -/
structure PropertyFilter where
  key : Option String
  name : Option String
  visibility : Option Visibility
  deriving DecidableEq, Inhabited

namespace PropertyFilter

/-- Admits every identity. -/
def any : PropertyFilter := ⟨none, none, none⟩

/-- Admits one identity. -/
def only (i : PropertyIdentity) : PropertyFilter := ⟨some i.key, some i.name, some i.visibility⟩

/-- Whether the identity agrees with every part that is given. -/
def admits (f : PropertyFilter) (i : PropertyIdentity) : Bool :=
  f.key.all (· == i.key) && f.name.all (· == i.name) && f.visibility.all (· == i.visibility)

@[simp] theorem admits_any (i : PropertyIdentity) : any.admits i = true := rfl

@[simp] theorem admits_only {i j : PropertyIdentity} : (only i).admits j = true ↔ j = i := by
  cases i; cases j
  simp only [admits, only, Option.all_some, Bool.and_eq_true, beq_iff_eq, PropertyIdentity.mk.injEq]
  grind

end PropertyFilter

/-- How much of an element a read asks for. -/
structure FetchHints where
  includeHidden : Bool
  includeMetadata : Bool
  deriving DecidableEq, Inhabited

namespace FetchHints

/-- What is not hidden, with metadata. -/
def all : FetchHints := ⟨false, true⟩

/-- Everything. -/
def allIncludingHidden : FetchHints := ⟨true, true⟩

/-- What is not hidden, without metadata. -/
def properties : FetchHints := ⟨false, false⟩

/-- The metadata that is returned. -/
def metadata (h : FetchHints) (m : Metadata) : Metadata :=
  if h.includeMetadata then m else OrderedMap.empty

theorem get?_metadata (h : FetchHints) (m : Metadata) (name : String) :
    (h.metadata m).get? name = if h.includeMetadata then m.get? name else none := by
  rw [metadata]
  split <;> rfl

end FetchHints

/-! ## Properties as they are read -/

/-- The state of a property at some moment, as a reader sees it. -/
structure Property where
  identity : PropertyIdentity
  value : PropValue
  metadata : Metadata
  timestamp : Timestamp
  /-- The labels it is hidden under, as far as the reader may read them. -/
  hiddenUnder : LabelSet
  deriving DecidableEq, Inhabited

namespace Property

/-- Whether the reader sees that the property is hidden. -/
def isHidden (p : Property) : Bool := !p.hiddenUnder.isEmpty

end Property

end Chronicle

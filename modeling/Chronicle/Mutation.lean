import Chronicle.Property

/-!
# Mutations

A mutation is one change, at one time, under one label.  Records of the element itself carry
their own label.  Records of a property carry the property's label, except that hiding and
unhiding happen under the label of whoever hides: `Mutation.visibility` is the label in force.
-/

namespace Chronicle

/-- A change of the element itself. -/
inductive ElementChange where
  /-- The element is there, or there again. -/
  | touch
  /-- The element gets another label. -/
  | relabel (visibility : Visibility)
  /-- The element is deleted, and can come back. -/
  | softDelete
  /-- The element is hidden under the record's label. -/
  | hide
  /-- The element is no longer hidden under the record's label. -/
  | unhide
  /-- The label of an edge. -/
  | edgeLabel (label : String)
  /-- The concept type of a vertex. -/
  | conceptType (name : String)
  deriving DecidableEq, Inhabited

/-- A change of one property. -/
inductive PropertyEdit where
  /-- The property gets a value, and this metadata instead of what it had. -/
  | setValue (value : PropValue) (metadata : Metadata)
  /-- The property gets more metadata. -/
  | annotate (metadata : Metadata)
  /-- The property is deleted, and can come back with a value. -/
  | softDelete
  /-- The property is hidden under a label. -/
  | hide (label : Visibility)
  /-- The property is no longer hidden under a label. -/
  | unhide (label : Visibility)
  deriving DecidableEq, Inhabited

namespace PropertyEdit

/-- Whether the edit hides or unhides. -/
def isToggle : PropertyEdit → Bool
  | .hide _ | .unhide _ => true
  | _ => false

end PropertyEdit

/-- A record of the element itself. -/
structure ElementRecord where
  timestamp : Timestamp
  visibility : Visibility
  change : ElementChange
  deriving DecidableEq, Inhabited

/-- A record of one property. -/
structure PropertyRecord where
  timestamp : Timestamp
  identity : PropertyIdentity
  edit : PropertyEdit
  deriving DecidableEq, Inhabited

namespace PropertyRecord

/-- The label in force: the hider's for hiding and unhiding, else the property's. -/
def visibility (r : PropertyRecord) : Visibility :=
  match r.edit with
  | .hide label | .unhide label => label
  | _ => r.identity.visibility

/-- A record that does not hide or unhide carries the label of its property. -/
theorem visibility_of_not_toggle {r : PropertyRecord} (h : r.edit.isToggle = false) :
    r.visibility = r.identity.visibility := by
  unfold visibility
  split
  · next he =>
    rw [he] at h
    cases h
  · next he =>
    rw [he] at h
    cases h
  · rfl

end PropertyRecord

/-- One entry of an element's log. -/
inductive Mutation where
  | element (record : ElementRecord)
  | property (record : PropertyRecord)
  deriving DecidableEq, Inhabited

namespace Mutation

/-! ## Making mutations -/

/-- The element is there.  Everyone may read it. -/
def elementTimestamp (ts : Timestamp) : Mutation := .element ⟨ts, .empty, .touch⟩

/-- The element gets another label, which is also the label of the record. -/
def alterVisibility (ts : Timestamp) (v : Visibility) : Mutation := .element ⟨ts, v, .relabel v⟩

/-- The element is deleted. -/
def softDelete (ts : Timestamp) : Mutation := .element ⟨ts, .empty, .softDelete⟩

/-- The element is hidden under a label. -/
def markHidden (ts : Timestamp) (v : Visibility) : Mutation := .element ⟨ts, v, .hide⟩

/-- The element is no longer hidden under a label. -/
def markVisible (ts : Timestamp) (v : Visibility) : Mutation := .element ⟨ts, v, .unhide⟩

/-- The edge gets a label. -/
def alterEdgeLabel (ts : Timestamp) (label : String) : Mutation :=
  .element ⟨ts, .empty, .edgeLabel label⟩

/-- The vertex gets a concept type. -/
def alterConceptType (ts : Timestamp) (name : String) : Mutation :=
  .element ⟨ts, .empty, .conceptType name⟩

/-- Puts a record of the element under another label; records of properties keep theirs. -/
def withVisibility (m : Mutation) (v : Visibility) : Mutation :=
  match m with
  | .element r => .element { r with visibility := v }
  | .property r => .property r

/-! ## Reading mutations -/

/-- When the change happens. -/
def timestamp : Mutation → Timestamp
  | .element r => r.timestamp
  | .property r => r.timestamp

/-- The label in force. -/
def visibility : Mutation → Visibility
  | .element r => r.visibility
  | .property r => r.visibility

/-- The record of a property, if it is one. -/
def property? : Mutation → Option PropertyRecord
  | .element _ => none
  | .property r => some r

/-- Whether the record says that the element is there or is deleted. -/
def isExistenceMarker : Mutation → Bool
  | .element ⟨_, _, .touch⟩ | .element ⟨_, _, .softDelete⟩ => true
  | _ => false

/-- Whether the record hides the element or a property. -/
def isHide : Mutation → Bool
  | .element ⟨_, _, .hide⟩ | .property ⟨_, _, .hide _⟩ => true
  | _ => false

/-- Whether the record is one of a property that the filter admits. -/
def concerns (m : Mutation) (f : PropertyFilter) : Bool :=
  match m with
  | .element _ => false
  | .property r => f.admits r.identity

/-- Whether the record is one of the property. -/
def isOf (m : Mutation) (i : PropertyIdentity) : Bool :=
  match m with
  | .element _ => false
  | .property r => r.identity == i

end Mutation

end Chronicle

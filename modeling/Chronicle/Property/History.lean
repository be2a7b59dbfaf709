import Chronicle.Reader
import Chronicle.TimeRange
import Chronicle.Property.Loading

/-!
# The history of properties

A history lists the values that properties have had and their deletions, newest first.  It is
drafted into slots: each value and each deletion takes a new slot, and a deletion that is followed
by a value of the same property gives its slot up again.  Metadata and hiding leave no entry of
their own.
-/

namespace Chronicle

/-- One entry of a history: a value that was set, or a deletion with the value that it ended. -/
structure HistoryEntry where
  identity : PropertyIdentity
  value : Option PropValue
  metadata : Metadata
  timestamp : Timestamp
  isDeleted : Bool
  deriving DecidableEq, Inhabited

/-- A record of a property with the label that guards it. -/
structure GuardedRecord where
  label : Visibility
  record : PropertyRecord
  deriving DecidableEq

/-- The record, guarded by the label in force. -/
def PropertyRecord.guarded (r : PropertyRecord) : GuardedRecord := ⟨r.visibility, r⟩

/-- Which records make up a history: a range of time, a reader, and a marker whose labels stay
out of history. -/
structure HistoryScope where
  range : TimeRange
  reader : Reader
  marker : String

namespace HistoryScope

/-- Whether the label keeps its records out of history.  The empty marker keeps nothing out. -/
def excludes (s : HistoryScope) (v : Visibility) : Bool := !s.marker.isEmpty && v.mentions s.marker

/-- Whether the record is part of the history. -/
def admits (s : HistoryScope) (g : GuardedRecord) : Bool :=
  s.range.contains g.record.timestamp && s.reader.canRead g.label
    && !s.excludes g.record.identity.visibility

/-- The records that are part of the history. -/
def admitted (s : HistoryScope) (guarded : List GuardedRecord) : List PropertyRecord :=
  (guarded.filter s.admits).map (·.record)

end HistoryScope

/-! ## Drafting -/

/-- What is known of one property while its history is drafted. -/
structure HistoryBuilder where
  value : Option PropValue
  metadata : Metadata
  /-- The slot of its latest entry. -/
  lastSlot : Option Nat
  deriving DecidableEq

/-- Nothing is known of the property yet. -/
def HistoryBuilder.fresh : HistoryBuilder := ⟨none, OrderedMap.empty, none⟩

/-- A history in the making, oldest slot first; a slot that was given up is empty. -/
structure HistoryDraft where
  builders : OrderedMap PropertyIdentity HistoryBuilder
  slots : Array (Option HistoryEntry)
  deriving DecidableEq

namespace HistoryDraft

/-- No record has been taken in. -/
def start : HistoryDraft := ⟨OrderedMap.empty, #[]⟩

/-- What is known of the property. -/
def builder (d : HistoryDraft) (i : PropertyIdentity) : HistoryBuilder :=
  (d.builders.get? i).getD .fresh

/-- Remembers what is known of the property. -/
def withBuilder (d : HistoryDraft) (i : PropertyIdentity) (b : HistoryBuilder) : HistoryDraft :=
  { d with builders := d.builders.insert i b }

/-- Whether the slot holds a deletion. -/
def holdsDeletion (d : HistoryDraft) (slot : Nat) : Bool :=
  match d.slots[slot]? with
  | some (some e) => e.isDeleted
  | _ => false

/-- Gives up the builder's latest slot if it holds a deletion. -/
def revive (d : HistoryDraft) (b : HistoryBuilder) : HistoryDraft :=
  match b.lastSlot with
  | some slot =>
    if d.holdsDeletion slot then { d with slots := d.slots.setIfInBounds slot none } else d
  | none => d

/-- Takes a new slot for the property as the builder knows it. -/
def emit (d : HistoryDraft) (i : PropertyIdentity) (b : HistoryBuilder) (ts : Timestamp)
    (isDeleted : Bool) : HistoryDraft :=
  { builders := d.builders.insert i { b with lastSlot := some d.slots.size }
    slots := d.slots.push (some ⟨i, b.value, b.metadata, ts, isDeleted⟩) }

/-- Takes in one record whose value is loaded. -/
def step (d : HistoryDraft) (r : PropertyRecord) : HistoryDraft :=
  let b := d.builder r.identity
  match r.edit with
  | .setValue v m =>
    -- the value and its metadata take the place of what was known
    let b := { b with value := some v, metadata := m }
    (d.revive b).emit r.identity b r.timestamp false
  | .annotate m => d.withBuilder r.identity { b with metadata := b.metadata.overlay m }
  | .softDelete => d.emit r.identity b r.timestamp true
  | .hide _ | .unhide _ => d

/-- The entries in the slots, newest first. -/
def entries (d : HistoryDraft) : List HistoryEntry := d.slots.toList.reverse.filterMap id

/-- The draft of a list of records. -/
def ofRecords (records : List PropertyRecord) : HistoryDraft := records.foldl step start

end HistoryDraft

/-! ## Reconstruction -/

namespace HistoryScope

/-- The history of the records in scope; the first value that cannot be loaded ends it. -/
def reconstruct (s : HistoryScope) (fetch : Load) (guarded : List GuardedRecord) :
    Except Error (List HistoryEntry) := do
  let loaded ← (s.admitted guarded).mapM fun r => r.load fetch
  return (HistoryDraft.ofRecords loaded).entries

/-- The history of records that are guarded by the labels in force. -/
def history (s : HistoryScope) (fetch : Load) (records : List PropertyRecord) :
    Except Error (List HistoryEntry) :=
  s.reconstruct fetch (records.map PropertyRecord.guarded)

/-- The loads that the history of the records takes. -/
def requests (s : HistoryScope) (records : List PropertyRecord) : List LoadRequest :=
  (s.admitted (records.map PropertyRecord.guarded)).filterMap PropertyRecord.request?

end HistoryScope

end Chronicle

import Chronicle.Reader
import Chronicle.Mutation

/-!
# The current state of a property

The records of a property, taken in order, say whether it is there, what its value and metadata
are, and under which labels it is hidden.  A value stands until the next value or deletion; a
value clears the metadata before it and metadata is laid over what is there.  A label hides from
`hide` to `unhide`, whoever may read it, but only labels that the reader may read are reported,
and only they move the timestamp.
-/

namespace Chronicle

/-- What the records so far say about a property. -/
structure Fold where
  identity : Option PropertyIdentity
  timestamp : Option Timestamp
  value : Option PropValue
  metadata : Metadata
  deleted : Bool
  /-- The labels that hide it. -/
  hiders : LabelSet
  deriving DecidableEq

namespace Fold

/-- Nothing is known yet. -/
def start : Fold := ⟨none, none, none, OrderedMap.empty, false, OrderedMap.empty⟩

/-- The later of two times, the first of which may be missing. -/
def later (before : Option Timestamp) (ts : Timestamp) : Timestamp :=
  match before with
  | none => ts
  | some b => if b < ts then ts else b

/-- Whether the record counts for the property's timestamp. -/
def countsForTime (reader : Reader) (r : PropertyRecord) : Bool :=
  !r.edit.isToggle || reader.canRead r.visibility

/-- Takes in who the record is about and when. -/
def noted (reader : Reader) (f : Fold) (r : PropertyRecord) : Fold :=
  { f with
    identity := some r.identity
    timestamp :=
      if countsForTime reader r then some (later f.timestamp r.timestamp) else f.timestamp }

/-- Takes in what the record changes. -/
def edited (f : Fold) : PropertyEdit → Fold
  | .setValue v m => { f with value := some v, metadata := m, deleted := false }
  | .annotate m => { f with metadata := f.metadata.overlay m }
  | .softDelete => { f with deleted := true }
  | .hide label => { f with hiders := f.hiders.add label }
  | .unhide label => { f with hiders := f.hiders.erase label }

/-- Takes in one record. -/
def step (reader : Reader) (f : Fold) (r : PropertyRecord) : Fold :=
  (f.noted reader r).edited r.edit

/-- The property, if the records leave it there and the hints do not leave it out. -/
def finish (f : Fold) (hints : FetchHints) (reader : Reader) : Option Property :=
  if f.deleted then none
  else if !hints.includeHidden && !f.hiders.isEmpty then none
  else
    match f.identity, f.value, f.timestamp with
    | some identity, some value, some timestamp =>
      some {
        identity
        value
        metadata := hints.metadata f.metadata
        timestamp
        hiddenUnder := f.hiders.filterKeys reader.canRead }
    | _, _, _ => none

end Fold

/-- The property that the records describe, as the reader sees it, its value as stored. -/
def Property.fold (hints : FetchHints) (reader : Reader) (records : List PropertyRecord) :
    Option Property :=
  (records.foldl (Fold.step reader) Fold.start).finish hints reader

end Chronicle

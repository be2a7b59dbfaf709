import Chronicle.Log
import Chronicle.View

/-!
# What a log says about its element

Each fact about an element is settled by the last record that bears on it: its label, its edge
label, its concept type, whether it is deleted.  The labels that hide it are those hidden and not
unhidden since.
-/

namespace Chronicle

namespace Mutation

/-- The time of a record that says that the element is there. -/
def touch? : Mutation → Option Timestamp
  | .element ⟨ts, _, .touch⟩ => some ts
  | _ => none

/-- The label that a record gives the element. -/
def relabel? : Mutation → Option Visibility
  | .element ⟨_, _, .relabel v⟩ => some v
  | _ => none

/-- The edge label that a record gives the element. -/
def edgeLabel? : Mutation → Option String
  | .element ⟨_, _, .edgeLabel l⟩ => some l
  | _ => none

/-- The concept type that a record gives the element. -/
def conceptType? : Mutation → Option String
  | .element ⟨_, _, .conceptType c⟩ => some c
  | _ => none

/-- Whether the record deletes the element. -/
def isSoftDelete : Mutation → Bool
  | .element ⟨_, _, .softDelete⟩ => true
  | _ => false

/-- The labels that hide the element after the record. -/
def toggle (hiders : LabelSet) : Mutation → LabelSet
  | .element ⟨_, v, .hide⟩ => hiders.add v
  | .element ⟨_, v, .unhide⟩ => hiders.erase v
  | _ => hiders

end Mutation

namespace Log

/-! ## Facts whoever asks -/

/-- When the element was first there. -/
def firstTimestamp (log : Log) : Option Timestamp :=
  (log.first? fun m => m.touch?.isSome).bind Mutation.touch?

/-- When the element was last said to be there. -/
def latestTimestamp (log : Log) : Option Timestamp :=
  (log.last? fun m => m.touch?.isSome).bind Mutation.touch?

/-- The element's label. -/
def visibility (log : Log) : Visibility :=
  ((log.last? fun m => m.relabel?.isSome).bind Mutation.relabel?).getD .empty

/-- The label of an edge. -/
def edgeLabel (log : Log) : Option String :=
  (log.last? fun m => m.edgeLabel?.isSome).bind Mutation.edgeLabel?

/-- The concept type of a vertex. -/
def conceptType (log : Log) : Option String :=
  (log.last? fun m => m.conceptType?.isSome).bind Mutation.conceptType?

/-- The labels that hide the element. -/
def hiders (log : Log) : LabelSet := log.entries.foldl Mutation.toggle OrderedMap.empty

/-! ## Facts as a reader sees them -/

/-- Whether the reader may read the element at all. -/
def isReadable (log : Log) (reader : Reader) : Bool := reader.canRead log.visibility

/-- Whether the last marker up to a moment that the reader may read is a deletion. -/
def isDeleted (log : Log) (asOf : Option Timestamp) (reader : Reader) : Bool :=
  ((log.last? fun m =>
      m.isExistenceMarker && (TimeRange.upTo asOf).contains m.timestamp
        && reader.canRead m.visibility).map Mutation.isSoftDelete).getD false

/-- Whether a label that the reader may read hides the element. -/
def isHidden (log : Log) (reader : Reader) : Bool := log.hiders.keys.any reader.canRead

/-- The mutations up to a moment that the reader may read; those that hide only on request. -/
def readable (log : Log) (includeHidden : Bool) (asOf : Option Timestamp) (reader : Reader) :
    List Mutation :=
  log.snapshot fun m =>
    reader.canRead m.visibility && (TimeRange.upTo asOf).contains m.timestamp
      && (includeHidden || !m.isHide)

end Log

/-! ## The facts of a state -/

/-- The facts that a scan through the records gathers. -/
structure ElementFacts where
  visibility : Visibility
  timestamp : Option Timestamp
  edgeLabel : Option String
  conceptType : Option String
  deriving DecidableEq, Inhabited

namespace ElementFacts

/-- Nothing is known yet. -/
def start : ElementFacts := ⟨.empty, none, none, none⟩

/-- Takes in one record.  The element's label counts for every reader, the rest only if the
record may be read. -/
def step (reader : Reader) (f : ElementFacts) : Mutation → ElementFacts
  | .element r =>
    match r.change with
    | .relabel v => { f with visibility := v }
    | .touch => if reader.canRead r.visibility then { f with timestamp := some r.timestamp } else f
    | .edgeLabel l => if reader.canRead r.visibility then { f with edgeLabel := some l } else f
    | .conceptType c => if reader.canRead r.visibility then { f with conceptType := some c } else f
    | .softDelete | .hide | .unhide => f
  | .property _ => f

end ElementFacts

/-- The facts that the records up to the view's moment give its reader. -/
def Log.facts (log : Log) (v : View) : ElementFacts :=
  (log.snapshot fun m => v.reaches m.timestamp).foldl (ElementFacts.step v.reader) .start

end Chronicle

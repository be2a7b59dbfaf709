import Chronicle.Log
import Chronicle.View
import Chronicle.Property.Fold
import Chronicle.Property.History

/-!
# The properties in a log

A read gathers the records that bear on it, identity by identity, and folds each group into a
property.  Records that hide or unhide always bear on a read; all others only if the reader may
read them.
-/

namespace Chronicle

/-- The identities of the records, each once, in order. -/
def PropertyRecord.identities (records : List PropertyRecord) : List PropertyIdentity :=
  (OrderedMap.ofList (records.map fun r => (r.identity, ()))).keys

/-- Whether the record bears on what the view shows. -/
def View.folds (v : View) (r : PropertyRecord) : Bool :=
  v.reaches r.timestamp && (r.edit.isToggle || v.reader.canRead r.visibility)

namespace Log

/-- The records that bear on a read of the properties that the filter admits. -/
def recordsFor (log : Log) (v : View) (f : PropertyFilter) : List PropertyRecord :=
  log.propertyRecords.filter fun r => f.admits r.identity && v.folds r

/-- The outcome for each identity that has records, in order; an identity may come out absent. -/
def foldEach (log : Log) (v : View) (f : PropertyFilter) : List (Option Property) :=
  let records := log.recordsFor v f
  (PropertyRecord.identities records).map fun i =>
    Property.fold v.hints v.reader (records.filter fun r => r.identity == i)

/-- The properties that are present, in the order of their identities, with values as stored. -/
def properties (log : Log) (v : View) (f : PropertyFilter) : List Property :=
  (log.foldEach v f).filterMap id

/-- The properties that are present, each with its value loaded or the reason why not. -/
def resolved (log : Log) (v : View) (f : PropertyFilter) (fetch : Load) :
    List (Except Error Property) :=
  (log.properties v f).map fun p => p.resolve fetch

/-- One property, with its value loaded. -/
def property (log : Log) (v : View) (i : PropertyIdentity) (fetch : Load) :
    Except Error (Option Property) :=
  match log.resolved v (.only i) fetch with
  | [] => .ok none
  | r :: _ => r.map some

/-- All properties with their values loaded; the first that fails is the answer. -/
def allProperties (log : Log) (v : View) (fetch : Load) : Except Error (List Property) :=
  (log.properties v .any).mapM fun p => p.resolve fetch

/-- The properties that are present, one by one as they are handed out. -/
def pulled (log : Log) (v : View) (f : PropertyFilter) (fetch : Option Load) :
    List (Except Error Property) :=
  (log.properties v f).map fun p => p.pulled fetch

/-- The property that a read of everything, values as stored, hands out first. -/
def firstStored (log : Log) (f : PropertyFilter) (reader : Reader) :
    Except Error (Option Property) :=
  match log.pulled ⟨.allIncludingHidden, none, reader⟩ f none with
  | [] => .ok none
  | r :: _ => r.map some

/-- The records of the properties that the filter admits. -/
def recordsOf (log : Log) (f : PropertyFilter) : List PropertyRecord :=
  log.propertyRecords.filter fun r => f.admits r.identity

/-- The history of the properties that the filter admits. -/
def history (log : Log) (s : HistoryScope) (f : PropertyFilter) (fetch : Load) :
    Except Error (List HistoryEntry) :=
  s.history fetch (log.recordsOf f)

end Log

end Chronicle

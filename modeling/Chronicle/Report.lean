import Chronicle.Element
import Chronicle.Value.Codec

/-!
# Reports

What a read finds, as JSON and as lines of text: properties, histories, and the status of an
element.
-/

namespace Chronicle

/-! ## JSON -/

/-- The labels of a set, in order. -/
def LabelSet.toJson (s : LabelSet) : Json := .ofStrings s.labels

/-- A time, or `null`. -/
def timestampJson (ts : Option Timestamp) : Json := .ofOption (fun t => .ofInt t.toInt) ts

/-- The kind of an element, as it is written in JSON. -/
def ElementKind.name : ElementKind → String
  | .vertex => "vertex"
  | .edge => "edge"

/-- The property as JSON. -/
def Property.toJson (p : Property) : Json :=
  .object [
    ("key", .string p.identity.key),
    ("name", .string p.identity.name),
    ("value", p.value.toJson),
    ("metadata", Metadata.toJson p.metadata),
    ("timestamp", .ofInt p.timestamp.toInt),
    ("hidden_visibilities", p.hiddenUnder.toJson),
    ("visibility", .string p.identity.visibility.label)]

/-- The entry of a history as JSON. -/
def HistoryEntry.toJson (e : HistoryEntry) : Json :=
  .object [
    ("key", .string e.identity.key),
    ("name", .string e.identity.name),
    ("visibility", .string e.identity.visibility.label),
    ("value", .ofOption PropValue.toJson e.value),
    ("metadata", Metadata.toJson e.metadata),
    ("timestamp", .ofInt e.timestamp.toInt),
    ("is_deleted", .bool e.isDeleted)]

/-! ## Status -/

/-- The state of an element at a glance.  Label, hiding and times are those of now; deletion and
the number of readable mutations are those of the moment looked at. -/
structure ElementStatus where
  id : ElementId
  kind : ElementKind
  visibility : Visibility
  deleted : Bool
  hidden : Bool
  hiders : LabelSet
  firstTimestamp : Option Timestamp
  timestamp : Option Timestamp
  mutations : Nat
  deriving DecidableEq

/-- The status of an element as of a moment, as a reader sees it. -/
def Element.status (e : Element) (asOf : Option Timestamp) (reader : Reader) : ElementStatus :=
  { id := e.id
    kind := e.kind
    visibility := e.log.visibility
    deleted := e.log.isDeleted asOf reader
    hidden := e.log.isHidden reader
    hiders := e.log.hiders
    firstTimestamp := e.log.firstTimestamp
    timestamp := e.log.latestTimestamp
    mutations := (e.log.readable true asOf reader).length }

/-- The status as JSON. -/
def ElementStatus.toJson (s : ElementStatus) : Json :=
  .object [
    ("id", .string s.id.text),
    ("kind", .string s.kind.name),
    ("visibility", .string s.visibility.label),
    ("deleted", .bool s.deleted),
    ("hidden", .bool s.hidden),
    ("hidden_visibilities", s.hiders.toJson),
    ("first_timestamp", timestampJson s.firstTimestamp),
    ("timestamp", timestampJson s.timestamp),
    ("mutations", .ofInt s.mutations)]

/-! ## Text -/

namespace Report

/-- A label, or a dash for the empty one. -/
def labelText (v : Visibility) : String := if v.isEmpty then "-" else v.label

/-- The labels of a set, between commas. -/
def labelsText (s : LabelSet) : String := Text.joined "," (s.keys.map labelText)

/-- A time, or a dash. -/
def timeText : Option Timestamp → String
  | some ts => Decimal.intText ts.toInt
  | none => "-"

/-- A truth value. -/
def boolText (b : Bool) : String := if b then "true" else "false"

/-- The lines, each ended by a line feed. -/
def lines (ls : List String) : String := String.join (ls.map (· ++ "\n"))

/-- The lines of one property: its state, then its metadata. -/
def propertyLines (p : Property) : List String :=
  (p.identity.key ++ ":" ++ p.identity.name ++ " [" ++ labelText p.identity.visibility ++ "] = "
      ++ p.value.display ++ " @" ++ Decimal.intText p.timestamp.toInt
      ++ (if p.isHidden then " hidden=" ++ labelsText p.hiddenUnder else ""))
    :: p.metadata.entries.map fun (name, e) => "  meta " ++ name ++ " = " ++ e.value.display

/-- The properties as text. -/
def propertiesText (ps : List Property) : String :=
  lines (if ps.isEmpty then ["(no properties)"] else ps.flatMap propertyLines)

/-- The line of one entry of a history. -/
def historyLine (e : HistoryEntry) : String :=
  "@" ++ Decimal.intText e.timestamp.toInt ++ " " ++ e.identity.key ++ ":" ++ e.identity.name
    ++ " [" ++ labelText e.identity.visibility ++ "] "
    ++ (if e.isDeleted then "deleted " else "set ")
    ++ (match e.value with
        | some v => v.display
        | none => "<unset>")

/-- A history as text. -/
def historyText (es : List HistoryEntry) : String :=
  lines (if es.isEmpty then ["(no history)"] else es.map historyLine)

/-- The kind of an element, as it is written in text. -/
def kindText : ElementKind → String
  | .vertex => "Vertex"
  | .edge => "Edge"

/-- A status as text. -/
def statusText (s : ElementStatus) : String :=
  lines [
    "id: " ++ s.id.text,
    "kind: " ++ kindText s.kind,
    "visibility: " ++ labelText s.visibility,
    "deleted: " ++ boolText s.deleted,
    "hidden: " ++ boolText s.hidden,
    "hidden_visibilities: " ++ labelsText s.hiders,
    "first_timestamp: " ++ timeText s.firstTimestamp,
    "timestamp: " ++ timeText s.timestamp,
    "mutations: " ++ Decimal.intText s.mutations]

end Report

end Chronicle

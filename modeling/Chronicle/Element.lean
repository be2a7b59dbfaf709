import Chronicle.ElementId
import Chronicle.Log.Facts
import Chronicle.Log.Properties

/-!
# Elements

An element is an id, a kind and a log.  Its state at some moment, as a reader sees it, is rebuilt
from the log; a vertex or an edge is a state of the right kind.
-/

namespace Chronicle

/-- Whether an element is a vertex or an edge. -/
inductive ElementKind where
  | vertex
  | edge
  deriving DecidableEq, Inhabited

/-- A vertex or an edge with everything that was ever recorded of it. -/
structure Element where
  id : ElementId
  kind : ElementKind
  log : Log
  deriving DecidableEq

namespace Element

/-- An element of which nothing is recorded; the empty id is refused. -/
def create (id : String) (kind : ElementKind) : Except Error Element :=
  (ElementId.ofString id).map fun id => ⟨id, kind, .empty⟩

end Element

/-! ## States -/

/-- What an element is at some moment, to some reader. -/
structure ElementState where
  id : ElementId
  kind : ElementKind
  facts : ElementFacts
  /-- When the element was first there, whatever the moment looked at. -/
  firstTimestamp : Option Timestamp
  properties : List Property
  /-- The labels that hide the element by now, whatever the moment looked at. -/
  hiders : LabelSet
  deriving DecidableEq

/-- A vertex as it is read. -/
structure Vertex where
  id : ElementId
  conceptType : Option String
  visibility : Visibility
  timestamp : Option Timestamp
  properties : List Property
  hiders : LabelSet
  deriving DecidableEq

/-- The first property with this name. -/
def Vertex.property (v : Vertex) (name : String) : Option Property :=
  v.properties.find? fun p => p.identity.name == name

/-- An edge as it is read.  An edge always has a label. -/
structure Edge where
  id : ElementId
  label : String
  visibility : Visibility
  timestamp : Option Timestamp
  properties : List Property
  hiders : LabelSet
  deriving DecidableEq

/-- Makes a finished element of a state. -/
abbrev Materializer (α : Type) := ElementState → View → Except Error α

namespace ElementState

/-- The vertex of a state. -/
def toVertex : Materializer Vertex := fun s _ =>
  match s.kind with
  | .vertex =>
    .ok ⟨s.id, s.facts.conceptType, s.facts.visibility, s.facts.timestamp, s.properties, s.hiders⟩
  | .edge => .error .notAVertex

/-- The edge of a state; an edge without a readable label is refused. -/
def toEdge : Materializer Edge := fun s _ =>
  match s.kind, s.facts.edgeLabel with
  | .vertex, _ => .error .notAnEdge
  | .edge, none => .error .edgeWithoutLabel
  | .edge, some label =>
    .ok ⟨s.id, label, s.facts.visibility, s.facts.timestamp, s.properties, s.hiders⟩

end ElementState

namespace Element

/-- The state that the view shows; the first property that cannot be loaded is the error. -/
def state (e : Element) (v : View) (fetch : Load) : Except Error ElementState :=
  (e.log.allProperties v fetch).map fun properties =>
    { id := e.id
      kind := e.kind
      facts := e.log.facts v
      firstTimestamp := e.log.firstTimestamp
      properties
      hiders := e.log.hiders }

/-- Whether the moment looked at is before the element was first there. -/
def isBeforeStart (e : Element) (v : View) : Bool :=
  match v.asOf, e.log.firstTimestamp with
  | some asOf, some first => decide (asOf < first)
  | _, _ => false

/-- Whether the view finds the element there: begun and not deleted. -/
def isPresent (e : Element) (v : View) : Bool :=
  !e.isBeforeStart v && !e.log.isDeleted v.asOf v.reader

/-- The finished element that the view shows, if it is there. -/
def materialize {α : Type} (e : Element) (m : Materializer α) (v : View) (fetch : Load) :
    Except Error (Option α) :=
  if e.isPresent v then do
    let s ← e.state v fetch
    let a ← m s v
    return some a
  else return none

/-- Whether a read of the table may show the element at all: its label is readable, and it is
not hidden unless hidden things are asked for. -/
def isVisible (e : Element) (v : View) : Bool :=
  e.log.isReadable v.reader && (v.hints.includeHidden || !e.log.isHidden v.reader)

end Element

end Chronicle

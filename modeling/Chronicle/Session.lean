import Chronicle.Element
import Chronicle.Engine

/-!
# Working on an element

A session is an element together with the engine that serves it.  Writes take their time from the
engine's clock when none is given, append to the log and are counted; reads leave the element as
it is but are counted too, and so are the bytes that they load.
-/

namespace Chronicle

/-- An element and the engine that serves it. -/
structure Session where
  engine : Engine
  element : Element

namespace Session

/-! ## Writes -/

/-- Appends a batch, and says how many mutations it had. -/
def append (s : Session) (batch : List Mutation) : Nat × Session :=
  let (added, log) := s.element.log.append batch
  let engine := if 0 < added then s.engine.note (.appended added) else s.engine
  (added, ⟨engine, { s.element with log }⟩)

/-- Appends one mutation, made for the given time or for a reading of the clock. -/
def write (s : Session) (ts : Option Timestamp) (make : Timestamp → Mutation) : Session :=
  let (ts, engine) := s.engine.stamp ts
  ({ s with engine }.append [make ts]).2

/-- Says that the element is there. -/
def touch (s : Session) (ts : Option Timestamp) : Session := s.write ts Mutation.elementTimestamp

/-- Deletes the element; it can come back. -/
def softDelete (s : Session) (ts : Option Timestamp) : Session := s.write ts Mutation.softDelete

/-- Hides the element under a label. -/
def markHidden (s : Session) (v : Visibility) (ts : Option Timestamp) : Session :=
  s.write ts (Mutation.markHidden · v)

/-- Takes back the hiding of the element under a label. -/
def markVisible (s : Session) (v : Visibility) (ts : Option Timestamp) : Session :=
  s.write ts (Mutation.markVisible · v)

/-- Gives the element another label. -/
def alterVisibility (s : Session) (v : Visibility) (ts : Option Timestamp) : Session :=
  s.write ts (Mutation.alterVisibility · v)

/-- Gives the edge a label. -/
def alterEdgeLabel (s : Session) (label : String) (ts : Option Timestamp) : Session :=
  s.write ts (Mutation.alterEdgeLabel · label)

/-- Gives the vertex a concept type. -/
def alterConceptType (s : Session) (name : String) (ts : Option Timestamp) : Session :=
  s.write ts (Mutation.alterConceptType · name)

/-- Records an edit of a property. -/
def edit (s : Session) (i : PropertyIdentity) (e : PropertyEdit) (ts : Option Timestamp) :
    Session :=
  s.write ts fun ts => .property ⟨ts, i, e⟩

/-! ## Reads of properties -/

/-- Counts one fold per identity that a read gathers records for. -/
def noteFolds (s : Session) (v : View) (f : PropertyFilter) : Session :=
  { s with
    engine := s.engine.noteAll ((s.element.log.foldEach v f).map fun p => .folded p.isSome) }

/-- The properties that the view shows, with values loaded; only as many as are taken are
loaded.  The number is that of all properties. -/
def properties (s : Session) (v : View) (taken : Option Nat) :
    Nat × List (Except Error Property) × Session :=
  let all := s.element.log.properties v .any
  let pulled := match taken with
    | none => all
    | some n => all.take n
  let s' := s.noteFolds v .any
  (all.length, pulled.map fun p => p.resolve s.engine.loader.load,
    { s' with engine := s'.engine.chargeEach (pulled.filterMap Property.request?) })

/-- One property that the view shows, with its value loaded. -/
def property (s : Session) (v : View) (i : PropertyIdentity) :
    Except Error (Option Property) × Session :=
  let s' := s.noteFolds v (.only i)
  let requests := (s.element.log.properties v (.only i)).head?.toList.filterMap Property.request?
  (s.element.log.property v i s.engine.loader.load,
    { s' with engine := s'.engine.chargeEach requests })

/-- All properties that the view shows, with values loaded; the first failure is the answer. -/
def allProperties (s : Session) (v : View) : Except Error (List Property) × Session :=
  let s' := s.noteFolds v .any
  let requests := (s.element.log.properties v .any).filterMap Property.request?
  (s.element.log.allProperties v s.engine.loader.load,
    { s' with engine := s'.engine.chargeRun requests })

/-- The histories of the properties that the filter admits. -/
def history (s : Session) (f : PropertyFilter) (range : TimeRange) (reader : Reader) :
    Except Error (List HistoryEntry) × Session :=
  let scope : HistoryScope := ⟨range, reader, s.engine.marker⟩
  let engine := s.engine.chargeRun (scope.requests (s.element.log.recordsOf f))
  match s.element.log.history scope f s.engine.loader.load with
  | .ok entries => (.ok entries, { s with engine := engine.note (.historyRead entries.length) })
  | .error e => (.error e, { s with engine })

/-! ## Reads of the element -/

/-- The state that the view shows. -/
def state (s : Session) (v : View) : Except Error ElementState × Session :=
  (s.element.state v s.engine.loader.load, (s.allProperties v).2)

/-- The finished element that the view shows, if it is there. -/
def materialize {α : Type} (s : Session) (m : Materializer α) (v : View) :
    Except Error (Option α) × Session :=
  if s.element.isPresent v then
    let s' := (s.allProperties v).2
    match s.element.materialize m v s.engine.loader.load with
    | .ok (some a) => (.ok (some a), { s' with engine := s'.engine.note .materialized })
    | r => (r, s')
  else (.ok none, s)

/-! ## Hiding and deleting properties -/

/-- The first property that the filter admits, as it is stored, hidden or not. -/
def peek (s : Session) (f : PropertyFilter) (reader : Reader) :
    Except Error (Option Property) × Session :=
  (s.element.log.firstStored f reader, s.noteFolds ⟨.allIncludingHidden, none, reader⟩ f)

/-- Records an edit of a property, and gives the property as it was before.  If that cannot be
given, nothing is recorded. -/
def editAfterPeek (s : Session) (i : PropertyIdentity) (e : PropertyEdit) (ts : Option Timestamp)
    (reader : Reader) : Except Error (Option Property) × Session :=
  match s.peek (.only i) reader with
  | (.error cause, s) => (.error cause, s)
  | (.ok before, s) => (.ok before, s.edit i e ts)

/-- Hides a property under a label, and gives the property as it was before. -/
def hideProperty (s : Session) (i : PropertyIdentity) (label : Visibility)
    (ts : Option Timestamp) (reader : Reader) : Except Error (Option Property) × Session :=
  s.editAfterPeek i (.hide label) ts reader

/-- Takes back the hiding of a property under a label, and gives the property as it was before. -/
def unhideProperty (s : Session) (i : PropertyIdentity) (label : Visibility)
    (ts : Option Timestamp) (reader : Reader) : Except Error (Option Property) × Session :=
  s.editAfterPeek i (.unhide label) ts reader

/-- Removes every record of the first property that the filter admits and the reader sees, and
gives the property.  If there is none, nothing changes. -/
def deleteProperty (s : Session) (f : PropertyFilter) (reader : Reader) :
    Except Error (Option Property) × Session :=
  match s.peek f reader with
  | (.error cause, s) => (.error cause, s)
  | (.ok none, s) => (.ok none, s)
  | (.ok (some p), s) =>
    let (removed, log) := s.element.log.remove fun m => m.isOf p.identity
    (.ok (some p), ⟨s.engine.note (.removed removed), { s.element with log }⟩)

end Session

end Chronicle

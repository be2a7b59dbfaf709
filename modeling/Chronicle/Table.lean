import Chronicle.Session

/-!
# Tables

A table keeps elements under their ids and lends its engine to whoever works on one of them.  An
element is created when it is first asked for, with a record that it is there and one of its
label, both at one time.
-/

namespace Chronicle

/-- Elements under their ids, and the engine that they share. -/
structure Table where
  engine : Engine
  elements : OrderedMap ElementId Element

namespace Table

/-- A table without elements. -/
def empty (engine : Engine) : Table := ⟨engine, OrderedMap.empty⟩

/-- The element with this id. -/
def get? (t : Table) (id : String) : Option Element :=
  match ElementId.ofString id with
  | .ok id => t.elements.get? id
  | .error _ => none

/-- The table without the element, and the element. -/
def remove (t : Table) (id : String) : Option Element × Table :=
  match ElementId.ofString id with
  | .ok id => (t.elements.get? id, { t with elements := t.elements.erase id })
  | .error _ => (none, t)

/-- The ids in order. -/
def ids (t : Table) : List ElementId := t.elements.keys

/-- The number of elements. -/
def size (t : Table) : Nat := t.elements.size

/-- A session on the element with this id. -/
def session? (t : Table) (id : String) : Option Session :=
  (t.get? id).map fun e => ⟨t.engine, e⟩

/-- The table after the work of a session. -/
def commit (t : Table) (s : Session) : Table := ⟨s.engine, t.elements.insert s.element.id s.element⟩

/-- Does some work on the element with this id, if it is there. -/
def update (t : Table) (id : String) (work : Session → Session) : Table :=
  match t.session? id with
  | some s => t.commit (work s)
  | none => t

/-- A session on a new element: the two records that every element starts with. -/
def newborn (engine : Engine) (id : ElementId) (kind : ElementKind) (v : Visibility)
    (ts : Option Timestamp) : Session :=
  let (ts, engine) := engine.stamp ts
  let s : Session := ⟨engine, ⟨id, kind, .empty⟩⟩
  (s.append [Mutation.elementTimestamp ts, Mutation.alterVisibility ts v]).2

/-- The element with this id, created if it is not there yet.  An element that is there keeps its
kind and its log, and no clock is read for it. -/
def getOrCreate (t : Table) (id : String) (kind : ElementKind) (v : Visibility)
    (ts : Option Timestamp) : Except Error (Element × Table) := do
  let id ← ElementId.ofString id
  match t.elements.get? id with
  | some e => return (e, t)
  | none =>
    let s := newborn t.engine id kind v ts
    return (s.element, t.commit { s with engine := s.engine.note .elementCreated })

/-- The finished element that the view shows, if there is one and the view may see it. -/
def read {α : Type} (t : Table) (id : String) (m : Materializer α) (v : View) :
    Except Error (Option α) × Table :=
  match t.session? id with
  | none => (.ok none, t)
  | some s =>
    if s.element.isVisible v then
      let (r, s) := s.materialize m v
      (r, t.commit s)
    else (.ok none, t)

end Table

end Chronicle

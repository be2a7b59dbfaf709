import Chronicle.ElementId
import Chronicle.Mutation

/-!
# Loading stored values

A value that is a reference has to be loaded before it is returned.  Loading is a function of the
reference and of the time at which the value is read; if it fails, the error names the property.
-/

namespace Chronicle

/-- Fetches what a reference points at, as of a time. -/
abbrev Load := ValueRef → Timestamp → Except Error PropValue

/-- The load that finds nothing. -/
def Load.nothing : Load := fun _ _ => .error .notFound

/-- A use of a reference at a time. -/
structure LoadRequest where
  reference : ValueRef
  timestamp : Timestamp
  deriving DecidableEq

namespace PropValue

/-- The value itself, or what its reference points at; an error names the property. -/
def load (v : PropValue) (fetch : Load) (i : PropertyIdentity) (ts : Timestamp) :
    Except Error PropValue :=
  match v with
  | .ref r =>
    match fetch r ts with
    | .ok v => .ok v
    | .error cause => .error (.valueLoad i.key i.name ts cause)
  | v => .ok v

/-- The load that reading the value takes, if any. -/
def request? (v : PropValue) (ts : Timestamp) : Option LoadRequest :=
  v.reference?.map fun r => ⟨r, ts⟩

end PropValue

namespace Property

/-- The property with its value loaded, as of the property's own time. -/
def resolve (p : Property) (fetch : Load) : Except Error Property :=
  (p.value.load fetch p.identity p.timestamp).map fun v => { p with value := v }

/-- The load that resolving the property takes, if any. -/
def request? (p : Property) : Option LoadRequest := p.value.request? p.timestamp

/-- The property as a read hands it out: with its value loaded, or as it is stored if nothing is to
be loaded. -/
def pulled (p : Property) : Option Load → Except Error Property
  | some fetch => p.resolve fetch
  | none => .ok p

end Property

namespace PropertyRecord

/-- The record with the value that it sets loaded, as of the record's time. -/
def load (r : PropertyRecord) (fetch : Load) : Except Error PropertyRecord :=
  match r.edit with
  | .setValue v m =>
    (v.load fetch r.identity r.timestamp).map fun v => { r with edit := .setValue v m }
  | _ => .ok r

/-- The load that the record's value takes, if any. -/
def request? (r : PropertyRecord) : Option LoadRequest :=
  match r.edit with
  | .setValue v _ => v.request? r.timestamp
  | _ => none

end PropertyRecord

/-- The loads that are really made when a run stops at its first failure. -/
def Load.attempted (fetch : Load) : List LoadRequest → List LoadRequest
  | [] => []
  | q :: rest =>
    match fetch q.reference q.timestamp with
    | .ok _ => q :: attempted fetch rest
    | .error _ => [q]

end Chronicle

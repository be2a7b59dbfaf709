import Chronicle.Script
import Chronicle.Table

/-!
# Replaying scripts

Replaying a script creates its elements in a table and takes their steps one after the other.  The
first failure ends the replay, and what was done before it stays done.
-/

namespace Chronicle

namespace ScriptStep

/-- What is left of a step once it is taken: whether it failed, and the session after it. -/
def outcome {α : Type} : Except Error α × Session → Except Error Unit × Session
  | (result, s) => (result.map fun _ => (), s)

/-- Takes one step on an element; properties are looked at as the reader. -/
def apply (step : ScriptStep) (reader : Reader) (s : Session) : Except Error Unit × Session :=
  match step with
  | .touch ts => (.ok (), s.touch ts)
  | .softDelete ts => (.ok (), s.softDelete ts)
  | .markHidden v ts => (.ok (), s.markHidden v ts)
  | .markVisible v ts => (.ok (), s.markVisible v ts)
  | .alterVisibility v ts => (.ok (), s.alterVisibility v ts)
  | .alterEdgeLabel label ts => (.ok (), s.alterEdgeLabel label ts)
  | .alterConceptType name ts => (.ok (), s.alterConceptType name ts)
  | .setValue i value metadata ts => (.ok (), s.edit i (.setValue value metadata) ts)
  | .annotate i metadata ts => (.ok (), s.edit i (.annotate metadata) ts)
  | .softDeleteProperty i ts => (.ok (), s.edit i .softDelete ts)
  | .hideProperty i label ts => outcome (s.hideProperty i label ts reader)
  | .unhideProperty i label ts => outcome (s.unhideProperty i label ts reader)
  | .deleteProperty key name v => outcome (s.deleteProperty ⟨some key, some name, v⟩ reader)

/-- Takes steps on an element, up to the first that fails. -/
def applyAll (reader : Reader) (s : Session) : List ScriptStep → Except Error Unit × Session
  | [] => (.ok (), s)
  | step :: rest =>
    match step.apply reader s with
    | (.error e, s) => (.error e, s)
    | (.ok (), s) => applyAll reader s rest

end ScriptStep

/-- How many elements and steps were replayed. -/
structure ReplaySummary where
  elements : Nat
  steps : Nat
  deriving DecidableEq, Inhabited

namespace Table

/-- Replays one element, as a reader who may read everything. -/
def replayElement (t : Table) (item : ScriptElement) : Except Error Unit × Table :=
  match t.getOrCreate item.id item.kind item.visibility item.timestamp with
  | .error e => (.error e, t)
  | .ok (e, t) =>
    let (result, s) := ScriptStep.applyAll .all ⟨t.engine, e⟩ item.steps
    (result, t.commit s)

/-- Replays elements after those already counted. -/
def replayFrom (done : ReplaySummary) (t : Table) :
    List ScriptElement → Except Error ReplaySummary × Table
  | [] => (.ok done, t)
  | item :: rest =>
    match t.replayElement item with
    | (.error e, t) => (.error e, t)
    | (.ok (), t) => replayFrom ⟨done.elements + 1, done.steps + item.steps.length⟩ t rest

/-- Replays a script. -/
def replay (t : Table) (script : Script) : Except Error ReplaySummary × Table :=
  replayFrom ⟨0, 0⟩ t script.elements

end Table

end Chronicle

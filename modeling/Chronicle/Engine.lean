import Chronicle.BlobStore
import Chronicle.Counters

/-!
# Engines

An engine is what elements share: a clock that stamps records, a place to load large values from,
counters, and settings.
-/

namespace Chronicle

/-- Where an engine loads large values from. -/
inductive Loader where
  /-- Nowhere: nothing is found. -/
  | nothing
  /-- A blob store. -/
  | blobs (store : BlobStore)
  /-- Anywhere else, where nothing is counted. -/
  | elsewhere (fetch : Load)

namespace Loader

/-- Fetches a value. -/
def load : Loader → Load
  | .nothing => Load.nothing
  | .blobs store => store.load
  | .elsewhere fetch => fetch

/-- Counts what loading reads. -/
def charge (l : Loader) (requests : List LoadRequest) : Loader :=
  match l with
  | .nothing => .nothing
  | .blobs store => .blobs (requests.foldl BlobStore.charge store)
  | .elsewhere fetch => .elsewhere fetch

end Loader

/-- What the elements of a table share. -/
structure Engine where
  clock : Clock
  loader : Loader
  /-- The counters, if anything is counted. -/
  counters : Option Counters
  /-- Labels that mention this text stay out of histories. -/
  marker : String
  /-- How many mutations a log is expected to hold. -/
  logCapacity : UInt64

namespace Engine

/-- Reads the clock. -/
def now (g : Engine) : Timestamp × Engine := (g.clock.now.1, { g with clock := g.clock.now.2 })

/-- The given time, or else a reading of the clock. -/
def stamp (g : Engine) : Option Timestamp → Timestamp × Engine
  | some ts => (ts, g)
  | none => g.now

/-- Counts an event. -/
def note (g : Engine) (e : Event) : Engine := { g with counters := g.counters.map (·.record e) }

/-- Counts events. -/
def noteAll (g : Engine) (events : List Event) : Engine := events.foldl note g

/-- Counts the loads of a run that stops at its first failure. -/
def chargeRun (g : Engine) (requests : List LoadRequest) : Engine :=
  { g with loader := g.loader.charge (g.loader.load.attempted requests) }

/-- Counts loads that are made whatever comes of each. -/
def chargeEach (g : Engine) (requests : List LoadRequest) : Engine :=
  { g with loader := g.loader.charge requests }

end Engine

end Chronicle

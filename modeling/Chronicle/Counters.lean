/-!
# Counters

What an engine does is reported as events; the counters add them up.
-/

namespace Chronicle

/-- Something that an engine did. -/
inductive Event where
  /-- An element was registered in a table. -/
  | elementCreated
  /-- A batch that was not empty was appended to a log. -/
  | appended (count : Nat)
  /-- Mutations were removed from a log. -/
  | removed (count : Nat)
  /-- The records of a property were folded, into a property or into nothing. -/
  | folded (present : Bool)
  /-- A history was read. -/
  | historyRead (entries : Nat)
  /-- An element was finished. -/
  | materialized
  deriving DecidableEq

/-- The sums of all events. -/
structure Counters where
  elementsCreated : Nat
  mutationsAppended : Nat
  appendCalls : Nat
  mutationsRemoved : Nat
  propertiesPresent : Nat
  propertiesAbsent : Nat
  historyReads : Nat
  historyEntries : Nat
  elementsMaterialized : Nat
  deriving DecidableEq, Inhabited

namespace Counters

/-- Nothing has happened. -/
def zero : Counters := ⟨0, 0, 0, 0, 0, 0, 0, 0, 0⟩

/-- Adds one event. -/
def record (c : Counters) : Event → Counters
  | .elementCreated => { c with elementsCreated := c.elementsCreated + 1 }
  | .appended n =>
    { c with appendCalls := c.appendCalls + 1, mutationsAppended := c.mutationsAppended + n }
  | .removed n => { c with mutationsRemoved := c.mutationsRemoved + n }
  | .folded true => { c with propertiesPresent := c.propertiesPresent + 1 }
  | .folded false => { c with propertiesAbsent := c.propertiesAbsent + 1 }
  | .historyRead n =>
    { c with historyReads := c.historyReads + 1, historyEntries := c.historyEntries + n }
  | .materialized => { c with elementsMaterialized := c.elementsMaterialized + 1 }

end Counters

end Chronicle

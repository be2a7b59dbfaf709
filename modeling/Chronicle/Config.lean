import Chronicle.Engine
import Chronicle.Error
import Chronicle.Toml

/-!
# Configuration

The settings of an engine, read from a TOML document and written to one.  Every setting may be
left out; nothing else may be present.  The clock is named by a string or by a table that is empty
under the name.
-/

namespace Chronicle

/-- Which clock an engine has. -/
inductive ClockKind where
  | system
  | manual
  deriving DecidableEq, Inhabited

namespace ClockKind

/-- The name of the kind. -/
def name : ClockKind → String
  | .system => "system"
  | .manual => "manual"

/-- The kind of this name. -/
def ofName? (s : String) : Option ClockKind :=
  if s = "system" then some .system else if s = "manual" then some .manual else none

end ClockKind

/-- The settings of an engine. -/
structure Config where
  /-- Labels that mention this text stay out of histories. -/
  marker : String
  /-- How many mutations a log is expected to hold. -/
  logCapacity : UInt64
  clock : ClockKind
  /-- The first reading of a manual clock. -/
  manualClockStart : Timestamp
  deriving DecidableEq

namespace Config

/-- The settings where nothing is said. -/
def default : Config := ⟨"WORKSPACE", 16, .system, 1⟩

instance : Inhabited Config := ⟨default⟩

/-- The clock of an engine with these settings, when the wall clock shows `wall`. -/
def initialClock (c : Config) (wall : Timestamp) : Clock :=
  match c.clock with
  | .system => .system .fresh wall
  | .manual => .manual (.ticking c.manualClockStart)

/-- An engine with these settings. -/
def engine (c : Config) (wall : Timestamp) (loader : Loader) (counters : Option Counters) :
    Engine :=
  { clock := c.initialClock wall
    loader
    counters
    marker := c.marker
    logCapacity := c.logCapacity }

/-! ## Reading -/

/-- A value and where it stands: under a header, at a path. -/
structure Setting where
  header : Toml.Path
  path : Toml.Path
  value : Toml.Value

namespace Setting

/-- The settings of a document, each under the header before it. -/
def ofStatements (header : Toml.Path) : List Toml.Statement → List Setting
  | [] => []
  | .header h :: rest => ofStatements h rest
  | .entry path value :: rest => ⟨header, path, value⟩ :: ofStatements header rest

/-- Whether the setting is about the clock. -/
def isClock (s : Setting) : Bool := (s.header ++ s.path).head? == some "clock"

/-- Whether the setting is one of those with a simple value. -/
def isSimple (s : Setting) : Bool :=
  s.header.isEmpty && ["workspace_marker", "log_capacity", "manual_clock_start"].any (s.path == [·])

end Setting

/-- Whether a value holds nothing. -/
def holdsNothing : Toml.Value → Bool
  | .emptyArray | .table [] => true
  | _ => false

/-- The kind of clock that a name says, if the value under the name holds nothing. -/
def namedClock? (name : String) (value : Toml.Value) : Option ClockKind :=
  if holdsNothing value then ClockKind.ofName? name else none

/-- The kind of clock that headers and settings about the clock say. -/
def clock? (headers : List Toml.Path) (settings : List Setting) : Option ClockKind :=
  match headers, settings with
  -- nothing is said
  | [], [] => some .system
  -- a string
  | [], [⟨[], [_], .string name⟩] => ClockKind.ofName? name
  -- an inline table with one entry
  | [], [⟨[], [_], .table [([name], value)]⟩] => namedClock? name value
  -- one key with a point
  | [], [⟨[], [_, name], value⟩] => namedClock? name value
  -- one entry under the header of the clock
  | [[_]], [⟨[_], [name], value⟩] => namedClock? name value
  -- the header of an empty table, before or after that of the clock
  | [[_, name]], [] | [[_], [_, name]], [] | [[_, name], [_]], [] => ClockKind.ofName? name
  | _, _ => none

/-- The values given to a simple setting. -/
def valuesOf (key : String) (settings : List Setting) : List Toml.Value :=
  (settings.filter fun s => s.path == [key]).map (·.value)

/-- The marker that the document gives. -/
def marker? : List Toml.Value → Option String
  | [] => some default.marker
  | [.string s] => some s
  | _ => none

/-- The capacity that the document gives. -/
def logCapacity? : List Toml.Value → Option UInt64
  | [] => some default.logCapacity
  | [.integer i] => Word.uint64? i.toInt
  | _ => none

/-- The start of the clock that the document gives. -/
def manualClockStart? : List Toml.Value → Option Timestamp
  | [] => some default.manualClockStart
  | [.integer i] => some i
  | _ => none

/-- The headers of a document. -/
def headersOf (statements : List Toml.Statement) : List Toml.Path :=
  statements.filterMap fun
    | .header h => some h
    | .entry .. => none

/-- The configuration that a document gives. -/
def ofStatements? (statements : List Toml.Statement) : Option Config := do
  let headers := headersOf statements
  let (clock, simple) := (Setting.ofStatements [] statements).partition Setting.isClock
  if headers.all (fun h => h.head? == some "clock") && simple.all Setting.isSimple then
    let marker ← marker? (valuesOf "workspace_marker" simple)
    let logCapacity ← logCapacity? (valuesOf "log_capacity" simple)
    let clock ← clock? headers clock
    let manualClockStart ← manualClockStart? (valuesOf "manual_clock_start" simple)
    return ⟨marker, logCapacity, clock, manualClockStart⟩
  else none

/-- The configuration that a text gives. -/
def parse (text : String) : Except Error Config :=
  match (Toml.parse? text).bind ofStatements? with
  | some c => .ok c
  | none => .error .unreadableConfig

/-! ## Writing -/

/-- The characters of a configuration: one setting a line. -/
def chars (c : Config) : List Char :=
  Toml.entryLine "workspace_marker" (Toml.Quoted.encode c.marker.toList)
    ++ Toml.entryLine "log_capacity" (Decimal.natChars c.logCapacity.toNat)
    ++ Toml.entryLine "clock" (Toml.Quoted.encode c.clock.name.toList)
    ++ Toml.entryLine "manual_clock_start" (Decimal.Numeral.ofInt c.manualClockStart.toInt).chars

/-- The text of a configuration.  A capacity beyond the integers of the format is refused. -/
def render (c : Config) : Except Error String :=
  if (Word.int64? c.logCapacity.toNat).isSome then .ok (String.ofList c.chars)
  else .error .unwritableConfig

end Config

end Chronicle

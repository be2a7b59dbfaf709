import Chronicle.CommandLine
import Chronicle.Config
import Chronicle.Replay
import Chronicle.Report

/-!
# Inspections

An inspection replays a script into a fresh table and reports on one element.  Given the contents
of the files that the invocation names, it is a pure function: the configuration is looked at
first, then the script, then the element.
-/

namespace Chronicle

/-- Why a file could not be read as text. -/
inductive FileError where
  | missing
  | notText
  /-- Anything else, in the words of the system. -/
  | other (reason : String)
  deriving DecidableEq

/-- The wording of a file error. -/
def FileError.message : FileError → String
  | .missing => "No such file or directory (os error 2)"
  | .notText => "stream did not contain valid UTF-8"
  | .other reason => reason

/-- What a file holds, or why it could not be read. -/
abbrev FileContent := Except FileError String

/-- The text of some bytes. -/
def FileContent.ofBytes (bytes : Bytes) : FileContent :=
  match bytes.text? with
  | some s => .ok s
  | none => .error .notText

/-- Why an inspection failed. -/
inductive InspectionError where
  | configFile (e : FileError)
  | scriptFile (e : FileError)
  | badScript
  | noSuchElement (id : String)
  | engine (e : Error)
  deriving DecidableEq

namespace InspectionError

/-- The wording of an error. -/
def message : InspectionError → String
  | .configFile e => "IO: " ++ e.message
  | .scriptFile e => e.message
  | .badScript => "script is not valid"
  | .noSuchElement id => "element \x60" ++ id ++ "\x60 not found in script"
  | .engine e => e.message

/-- Whether the wording is fixed; what is wrong inside a document may be put in other words. -/
def isFixed : InspectionError → Bool
  | .badScript => false
  | .engine e => e.kind != .config
  | _ => true

end InspectionError

namespace Inspection

/-- The table after replaying the script in a file. -/
def load (config : Config) (wall : Timestamp) (script : FileContent) :
    Except InspectionError Table := do
  let text ← script.mapError .scriptFile
  match Script.parse? text with
  | none => throw .badScript
  | some s =>
    match (Table.empty (config.engine wall .nothing none)).replay s with
    | (.ok _, t) => return t
    | (.error e, _) => throw (.engine e)

/-- The configuration in a file, or the default one. -/
def configuration (config : Option FileContent) : Except InspectionError Config :=
  match config with
  | none => .ok .default
  | some content => do
    let text ← content.mapError .configFile
    (Config.parse text).mapError .engine

/-- A report as text of a format. -/
def written (format : Format) (j : Json) (text : String) : String :=
  match format with
  | .json => j.pretty ++ "\n"
  | .text => text

/-- The report on an element. -/
def report (i : Invocation) (s : Session) : Except Error String :=
  match i.report with
  | .properties asOf includeHidden => do
    let hints := if includeHidden then FetchHints.allIncludingHidden else .all
    let ps ← (s.allProperties ⟨hints, asOf, i.reader⟩).1
    return written i.format (.array (ps.map Property.toJson)) (Report.propertiesText ps)
  | .history filter range => do
    let es ← (s.history filter range i.reader).1
    return written i.format (.array (es.map HistoryEntry.toJson)) (Report.historyText es)
  | .status asOf =>
    let status := s.element.status asOf i.reader
    return written i.format status.toJson (Report.statusText status)

/-- What an invocation prints, given what its files hold and what the wall clock shows. -/
def run (i : Invocation) (config : Option FileContent) (script : FileContent) (wall : Timestamp) :
    Except InspectionError String := do
  let config ← configuration config
  let table ← load config wall script
  match table.session? i.id with
  | none => throw (.noSuchElement i.id)
  | some s => (report i s).mapError .engine

/-- The name and version of the program. -/
def versionText : String := "strata-inspect 0.1.0\n"

/-- How the program is called. -/
def usageText : String :=
  Report.lines [
    "Replay a mutation script and inspect the resulting element state",
    "",
    "Usage: strata-inspect [--config FILE] [--format text|json] COMMAND SCRIPT ID",
    "",
    "  properties  [--at TS] [--include-hidden]",
    "  history     [--key KEY] [--name NAME] [--visibility LABEL] [--start TS] [--end TS]",
    "  status      [--at TS]",
    "",
    "Every command takes [--auth LABEL,LABEL] or [--all-auths]."]

end Inspection

end Chronicle

import Chronicle.Inspection
import Std.Time.DateTime.Timestamp

/-!
# The program

Reads the arguments, the files that they name and the wall clock, and prints the inspection.
-/

namespace Chronicle

/-- The text of a file. -/
def readContent (path : String) : IO FileContent := do
  try
    return FileContent.ofBytes (← IO.FS.readBinFile path).data.toList
  catch
    | .noFileOrDirectory .. => return .error .missing
    | e => return .error (.other (toString e))

/-- What the wall clock shows, in milliseconds. -/
def wallMillis : IO Timestamp := do
  let now ← Std.Time.Timestamp.now
  return Int64.ofInt now.toMillisecondsSinceUnixEpoch.val

/-- Prints the inspection of an invocation. -/
def inspect (i : Invocation) : IO UInt32 := do
  let config ← i.config.mapM readContent
  let script ← readContent i.script
  match Inspection.run i config script (← wallMillis) with
  | .ok text =>
    IO.print text
    return 0
  | .error e =>
    IO.eprintln ("error: " ++ e.message)
    return 1

end Chronicle

open Chronicle in
def main (arguments : List String) : IO UInt32 := do
  match CommandLine.parse arguments with
  | .ok i => inspect i
  | .error .version =>
    IO.print Inspection.versionText
    return 0
  | .error .help =>
    IO.print Inspection.usageText
    return 0
  | .error .usage =>
    IO.eprint Inspection.usageText
    return 2

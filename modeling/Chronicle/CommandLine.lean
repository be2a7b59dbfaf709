import Chronicle.Decimal.Numeral
import Chronicle.Property
import Chronicle.Reader
import Chronicle.TimeRange
import Chronicle.Word

/-!
# The command line

An invocation names a report, a script and an element, and says who reads.  Arguments are taken
one by one: an option is known by its full name, its value follows it or an equals sign, and two
dashes end the options.  `CommandLine.parse` gives the invocation, or why there is none.
-/

namespace Chronicle

/-- How a report is written. -/
inductive Format where
  | text
  | json
  deriving DecidableEq, Inhabited

/-- Which report is asked for. -/
inductive ReportRequest where
  | properties (asOf : Option Timestamp) (includeHidden : Bool)
  | history (filter : PropertyFilter) (range : TimeRange)
  | status (asOf : Option Timestamp)
  deriving DecidableEq

/-- A complete command line. -/
structure Invocation where
  /-- The file with the configuration. -/
  config : Option String
  format : Format
  /-- The file with the script. -/
  script : String
  id : String
  /-- The labels of the reader; `none` reads everything. -/
  labels : Option (List String)
  report : ReportRequest
  deriving DecidableEq

/-- The reader of an invocation. -/
def Invocation.reader (i : Invocation) : Reader :=
  match i.labels with
  | none => .all
  | some labels => .holding (.ofLabels labels)

namespace CommandLine

/-- Why there is no invocation. -/
inductive Stop where
  /-- The arguments do not make sense. -/
  | usage
  /-- The version is asked for. -/
  | version
  /-- Help is asked for. -/
  | help
  deriving DecidableEq

/-- The commands. -/
inductive Command where
  | properties
  | history
  | status
  deriving DecidableEq

/-- The command of this name. -/
def Command.ofName? (s : String) : Option Command :=
  if s = "properties" then some .properties
  else if s = "history" then some .history
  else if s = "status" then some .status
  else none

/-! ## Options -/

/-- The options. -/
inductive Opt where
  | config
  | format
  | asOf
  | includeHidden
  | key
  | name
  | visibility
  | start
  | stop
  | auth
  | allAuths
  deriving DecidableEq

namespace Opt

/-- The option of this name. -/
def ofName? (s : String) : Option Opt :=
  if s = "config" then some .config
  else if s = "format" then some .format
  else if s = "at" then some .asOf
  else if s = "include-hidden" then some .includeHidden
  else if s = "key" then some .key
  else if s = "name" then some .name
  else if s = "visibility" then some .visibility
  else if s = "start" then some .start
  else if s = "end" then some .stop
  else if s = "auth" then some .auth
  else if s = "all-auths" then some .allAuths
  else none

/-- Whether the option has no value. -/
def isFlag : Opt → Bool
  | .includeHidden | .allAuths => true
  | _ => false

/-- Whether the option may come several times. -/
def isRepeatable : Opt → Bool
  | .auth => true
  | _ => false

/-- Whether the option belongs to a command; `none` stands for the place before the command. -/
def isAllowed (o : Opt) (c : Option Command) : Bool :=
  match o, c with
  | .config, _ | .format, _ => true
  | _, none => false
  | .auth, _ | .allAuths, _ => true
  | .asOf, some c => c == .properties || c == .status
  | .includeHidden, some c => c == .properties
  | .key, some c | .name, some c | .visibility, some c => c == .history
  | .start, some c | .stop, some c => c == .history

end Opt

/-! ## Values -/

/-- A signed 64-bit number: digits after an optional sign. -/
def int64? (s : String) : Option Int64 :=
  let (negative, cs) := match s.toList with
    | '-' :: rest => (true, rest)
    | '+' :: rest => (false, rest)
    | cs => (false, cs)
  match cs.mapM Decimal.Digit.ofChar? with
  | none | some [] => none
  | some ds =>
    let n : Int := Decimal.ofDigits ds
    Word.int64? (if negative then -n else n)

/-- The pieces of a text between commas. -/
def splitCommas (cs : List Char) : List (List Char) :=
  match cs with
  | [] => [[]]
  | ',' :: rest => [] :: splitCommas rest
  | c :: rest =>
    match splitCommas rest with
    | [] => [[c]]
    | piece :: pieces => (c :: piece) :: pieces

/-- The format of this name. -/
def format? (s : String) : Option Format :=
  if s = "text" then some .text else if s = "json" then some .json else none

/-- Whether the text can be the value of an option. -/
def isValue (o : Opt) (s : String) : Bool :=
  match o with
  | .config => s != ""
  | .format => (format? s).isSome
  | .asOf | .start | .stop => (int64? s).isSome
  | _ => true

/-! ## Taking arguments -/

/-- What the arguments so far say. -/
structure Draft where
  command : Option Command
  /-- The options before the command, with their values. -/
  before : List (Opt × String)
  /-- The options after the command, with their values. -/
  after : List (Opt × String)
  positionals : List String
  /-- An option that waits for its value. -/
  pending : Option Opt
  /-- Whether two dashes have ended the options. -/
  closed : Bool

namespace Draft

/-- Nothing has been said. -/
def start : Draft := ⟨none, [], [], [], none, false⟩

/-- The options at the present place. -/
def here (d : Draft) : List (Opt × String) := if d.command.isNone then d.before else d.after

/-- Gives an option a value, if it may have it here. -/
def give (d : Draft) (o : Opt) (value : String) : Except Stop Draft :=
  if isValue o value && (o.isRepeatable || !d.here.any (·.1 == o)) then
    if d.command.isNone then .ok { d with before := d.before ++ [(o, value)], pending := none }
    else .ok { d with after := d.after ++ [(o, value)], pending := none }
  else .error .usage

/-- Takes an option by its name, with the value after its equals sign if there is one. -/
def takeLong (d : Draft) (name : String) (value : Option String) : Except Stop Draft :=
  match Opt.ofName? name with
  | some o =>
    if o.isAllowed d.command then
      match o.isFlag, value with
      | true, none => d.give o ""
      | true, some _ => .error .usage
      | false, some v => d.give o v
      | false, none => .ok { d with pending := some o }
    else .error .usage
  | none =>
    if name = "help" ∧ value = none then .error .help
    else if name = "version" ∧ value = none ∧ d.command.isNone then .error .version
    else .error .usage

/-- Takes options by their letters. -/
def takeShort (d : Draft) (letter : Char) : Except Stop Draft :=
  if letter = 'h' then .error .help
  else if letter = 'V' ∧ d.command.isNone then .error .version
  else .error .usage

/-- Takes a word: the command, or a positional argument of it. -/
def takeWord (d : Draft) (s : String) : Except Stop Draft :=
  match d.command with
  | none =>
    match d.closed, Command.ofName? s with
    | false, some c => .ok { d with command := some c }
    | _, _ => .error .usage
  | some _ =>
    match d.positionals with
    | [] => if s = "" then .error .usage else .ok { d with positionals := [s] }
    | [script] => .ok { d with positionals := [script, s] }
    | _ => .error .usage

/-- Takes one argument. -/
def take (d : Draft) (s : String) : Except Stop Draft :=
  if d.closed then d.takeWord s
  else
    match d.pending, s.toList with
    -- a dash alone is a value, with anything after it it is none
    | some o, ['-'] => d.give o s
    | some _, '-' :: _ => .error .usage
    | some o, _ => d.give o s
    | none, ['-', '-'] => .ok { d with closed := true }
    | none, '-' :: '-' :: cs =>
      let name := String.ofList (cs.takeWhile (· ≠ '='))
      match cs.dropWhile (· ≠ '=') with
      | '=' :: value => d.takeLong name (some (String.ofList value))
      | _ => d.takeLong name none
    | none, '-' :: letter :: _ => d.takeShort letter
    | none, _ => d.takeWord s

/-! ## Completion -/

/-- The value of an option after the command. -/
def value? (d : Draft) (o : Opt) : Option String := (d.after.find? (·.1 == o)).map (·.2)

/-- Whether a flag is given. -/
def has (d : Draft) (o : Opt) : Bool := d.after.any (·.1 == o)

/-- The value of an option that may also stand before the command; the later place counts. -/
def global? (d : Draft) (o : Opt) : Option String :=
  (d.value? o).or ((d.before.find? (·.1 == o)).map (·.2))

/-- The labels that the options give. -/
def givenLabels (d : Draft) : List String :=
  (d.after.filter (·.1 == .auth)).flatMap fun (_, v) =>
    (splitCommas v.toList).map String.ofList

/-- The report that the options of a command ask for. -/
def report (d : Draft) : Command → ReportRequest
  | .properties => .properties ((d.value? .asOf).bind int64?) (d.has .includeHidden)
  | .history =>
    .history ⟨d.value? .key, d.value? .name, (d.value? .visibility).map fun v => ⟨v⟩⟩
      ⟨(d.value? .start).bind int64?, (d.value? .stop).bind int64?⟩
  | .status => .status ((d.value? .asOf).bind int64?)

/-- The invocation, if nothing is missing and nothing contradicts. -/
def finish (d : Draft) : Except Stop Invocation :=
  match d.command, d.positionals, d.pending with
  | some c, [script, id], none =>
    if d.has .allAuths && d.has .auth then .error .usage
    else
      .ok {
        config := d.global? .config
        format := ((d.global? .format).bind format?).getD .text
        script
        id
        labels := if d.has .allAuths then none else some d.givenLabels
        report := d.report c }
  | _, _, _ => .error .usage

end Draft

/-- The invocation that some arguments make. -/
def parse (arguments : List String) : Except Stop Invocation :=
  arguments.foldlM Draft.take .start >>= Draft.finish

end CommandLine

end Chronicle

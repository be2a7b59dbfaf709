import Chronicle.Toml.Quoted
import Chronicle.Word

/-!
# TOML documents

A document is a list of statements: headers that open a table, and entries that give a value to a
key.  Values are strings, integers, empty arrays and inline tables; documents with other values
are refused.
-/

namespace Chronicle.Toml

open Text

/-- The keys on the way to a value. -/
abbrev Path := List String

/-- A value of an entry. -/
inductive Value where
  | string (s : String)
  | integer (i : Int64)
  | emptyArray
  | table (entries : List (Path × Value))
  deriving Inhabited

/-- A statement of a document. -/
inductive Statement where
  | header (path : Path)
  | entry (path : Path) (value : Value)
  deriving Inhabited

/-! ## Integers -/

/-- The digit that a character writes in a base. -/
def digitIn? (base : Nat) (c : Char) : Option Nat := (hexValue? c).filter (· < base)

/-- Reads digits after the value of those before; single underscores may stand between digits. -/
def digitsFrom? (base n : Nat) : List Char → Option (Nat × List Char)
  | '_' :: c :: rest =>
    match digitIn? base c with
    | some d => digitsFrom? base (base * n + d) rest
    | none => none
  | ['_'] => none
  | c :: rest =>
    match digitIn? base c with
    | some d => digitsFrom? base (base * n + d) rest
    | none => some (n, c :: rest)
  | [] => some (n, [])

/-- Reads a natural number in a base. -/
def natural? (base : Nat) : List Char → Option (Nat × List Char)
  | [] => none
  | c :: rest =>
    match digitIn? base c with
    | some d => digitsFrom? base d rest
    | none => none

/-- Reads a decimal number: no zero comes before another digit. -/
def decimal? : List Char → Option (Nat × List Char)
  | '0' :: rest =>
    match rest with
    | c :: _ => if (digitIn? 10 c).isSome || c = '_' then none else some (0, rest)
    | [] => some (0, [])
  | cs => natural? 10 cs

/-- Reads a signed 64-bit integer: decimal with an optional sign, or hexadecimal, octal or binary
without. -/
def integer? (cs : List Char) : Option (Int64 × List Char) := do
  let (i, rest) ← (match cs with
    | '0' :: 'x' :: rest => (natural? 16 rest).map fun (n, rest) => ((n : Int), rest)
    | '0' :: 'o' :: rest => (natural? 8 rest).map fun (n, rest) => ((n : Int), rest)
    | '0' :: 'b' :: rest => (natural? 2 rest).map fun (n, rest) => ((n : Int), rest)
    | '-' :: rest => (decimal? rest).map fun (n, rest) => (-(n : Int), rest)
    | '+' :: rest => (decimal? rest).map fun (n, rest) => ((n : Int), rest)
    | cs => (decimal? cs).map fun (n, rest) => ((n : Int), rest))
  let i ← Word.int64? i
  return (i, rest)

/-! ## Keys -/

/-- The text without spaces and tabs at its start. -/
def dropBlanks (cs : List Char) : List Char := cs.dropWhile fun c => c = ' ' || c = '\t'

/-- Whether a character may stand in a key that is not quoted. -/
def isBare (c : Char) : Bool :=
  let n := c.toNat
  (48 ≤ n && n ≤ 57) || (65 ≤ n && n ≤ 90) || (97 ≤ n && n ≤ 122) || c = '_' || c = '-'

/-- Reads one key: bare, or a string on one line. -/
def key? : List Char → Option (String × List Char)
  | '"' :: rest =>
    (Quoted.basic? (rest.length + 1) rest).map fun (s, rest) => (String.ofList s, rest)
  | '\'' :: rest => (Quoted.literal? rest).map fun (s, rest) => (String.ofList s, rest)
  | cs =>
    match cs.takeWhile isBare with
    | [] => none
    | k => some (String.ofList k, cs.dropWhile isBare)

/-- Reads keys with points between them; the first argument bounds their number. -/
def path? : Nat → List Char → Option (Path × List Char)
  | 0, _ => none
  | fuel + 1, cs =>
    match key? cs with
    | none => none
    | some (k, rest) =>
      match dropBlanks rest with
      | '.' :: rest => (path? fuel (dropBlanks rest)).map fun (ks, rest) => (k :: ks, rest)
      | rest => some ([k], rest)

/-! ## Values -/

/-- The text after a comment, if one starts here. -/
def dropComment : List Char → List Char
  | '#' :: rest => rest.dropWhile Quoted.isPlain
  | cs => cs

/-- White space, ends of lines and comments dropped; the first argument bounds the steps. -/
def dropLayout : Nat → List Char → List Char
  | 0, cs => cs
  | fuel + 1, cs =>
    let rest := dropComment (dropBlanks cs)
    match Quoted.newLine? rest with
    | some rest => dropLayout fuel rest
    | none => rest

mutual

/-- Reads a value; the first argument bounds the steps. -/
def value? : Nat → List Char → Option (Value × List Char)
  | 0, _ => none
  | fuel + 1, cs =>
    match cs with
    | '[' :: rest =>
      match dropLayout rest.length rest with
      | ']' :: rest => some (.emptyArray, rest)
      | _ => none
    | '{' :: rest =>
      match dropBlanks rest with
      | '}' :: rest => some (.table [], rest)
      | rest => (entries? fuel rest).map fun (es, rest) => (.table es, rest)
    | c :: _ =>
      if c = '"' || c = '\'' then
        (Quoted.read? cs).map fun (s, rest) => (.string (String.ofList s), rest)
      else (integer? cs).map fun (i, rest) => (.integer i, rest)
    | [] => none

/-- Reads one entry. -/
def keyValue? : Nat → List Char → Option ((Path × Value) × List Char)
  | 0, _ => none
  | fuel + 1, cs =>
    match path? (cs.length + 1) cs with
    | some (path, '=' :: rest) =>
      (value? fuel (dropBlanks rest)).map fun (v, rest) => ((path, v), rest)
    | _ => none

/-- Reads the entries of an inline table up to its closing brace. -/
def entries? : Nat → List Char → Option (List (Path × Value) × List Char)
  | 0, _ => none
  | fuel + 1, cs =>
    match keyValue? fuel cs with
    | none => none
    | some (e, rest) =>
      match dropBlanks rest with
      | '}' :: rest => some ([e], rest)
      | ',' :: rest => (entries? fuel (dropBlanks rest)).map fun (es, rest) => (e :: es, rest)
      | _ => none

end

/-! ## Documents -/

/-- Reads a header whose opening bracket is gone. -/
def header? (cs : List Char) : Option (Path × List Char) :=
  match path? (cs.length + 1) (dropBlanks cs) with
  | some (path, ']' :: rest) => some (path, rest)
  | _ => none

/-- Reads the statement of a line that is not blank. -/
def statement? : List Char → Option (Statement × List Char)
  | '[' :: rest => (header? rest).map fun (path, rest) => (.header path, rest)
  | cs => (keyValue? (cs.length + 2) cs).map fun ((path, v), rest) => (.entry path v, rest)

/-- The text after the end of a line, which blanks and a comment may precede. -/
def endLine? (cs : List Char) : Option (List Char) :=
  match dropComment (dropBlanks cs) with
  | [] => some []
  | rest => Quoted.newLine? rest

/-- Reads statements, each on a line of its own; the first argument bounds the lines. -/
def statements? : Nat → List Char → Option (List Statement)
  | 0, _ => none
  | fuel + 1, cs =>
    match dropBlanks cs with
    | [] => some []
    | cs =>
      match endLine? cs with
      | some rest => statements? fuel rest
      | none =>
        match statement? cs with
        | none => none
        | some (s, rest) =>
          match endLine? rest with
          | none => none
          | some rest => (statements? fuel rest).map (s :: ·)

/-- The statements of a document; a byte order mark may come first. -/
def parse? (text : String) : Option (List Statement) :=
  let cs := match text.toList with
    | '\uFEFF' :: rest => rest
    | cs => cs
  statements? (cs.length + 2) cs

/-- The text of one entry with a bare key, on a line of its own. -/
def entryLine (key : String) (value : List Char) : List Char :=
  key.toList ++ ' ' :: '=' :: ' ' :: value ++ ['\n']

end Chronicle.Toml

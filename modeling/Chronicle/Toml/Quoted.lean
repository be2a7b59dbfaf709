import Chronicle.Text

/-!
# TOML strings

Four forms: basic strings with escapes, literal strings without, and both over several lines.
Writing uses the basic form.  A reader takes the characters of a text and gives what it read and
the characters that follow.
-/

namespace Chronicle.Toml.Quoted

open Text

/-! ## Characters -/

/-- Whether a character may stand for itself: a tab, or anything but a control character. -/
def isPlain (c : Char) : Bool := c = '\t' || (32 ≤ c.toNat && c.toNat ≠ 127)

/-- The end of a line, as line feed or as carriage return and line feed. -/
def newLine? : List Char → Option (List Char)
  | '\n' :: rest => some rest
  | '\r' :: '\n' :: rest => some rest
  | _ => none

/-- The text without an end of line at its start. -/
def dropNewLine (cs : List Char) : List Char := (newLine? cs).getD cs

/-- Reads hexadecimal digits, as many as the first argument, after the value of those before. -/
def hexDigits? : Nat → Nat → List Char → Option (Nat × List Char)
  | 0, n, cs => some (n, cs)
  | count + 1, n, c :: rest =>
    match hexValue? c with
    | some d => hexDigits? count (16 * n + d) rest
    | none => none
  | _ + 1, _, [] => none

/-- Whether a number is that of a character. -/
def isScalar (n : Nat) : Bool := n < 0xD800 || (0xE000 ≤ n && n < 0x110000)

/-- Reads the number of a character. -/
def scalar? (count : Nat) (cs : List Char) : Option (Char × List Char) :=
  match hexDigits? count 0 cs with
  | some (n, rest) => if isScalar n then some (Char.ofNat n, rest) else none
  | none => none

/-- Reads an escape whose backslash is gone. -/
def escaped? : List Char → Option (Char × List Char)
  | 'b' :: rest => some (Char.ofNat 8, rest)
  | 't' :: rest => some ('\t', rest)
  | 'n' :: rest => some ('\n', rest)
  | 'f' :: rest => some (Char.ofNat 12, rest)
  | 'r' :: rest => some ('\r', rest)
  | '"' :: rest => some ('"', rest)
  | '\\' :: rest => some ('\\', rest)
  | 'u' :: rest => scalar? 4 rest
  | 'U' :: rest => scalar? 8 rest
  | _ => none

/-! ## Strings on one line -/

/-- Reads a basic string up to its closing quote; the first argument bounds its length. -/
def basic? : Nat → List Char → Option (List Char × List Char)
  | 0, _ => none
  | _ + 1, [] => none
  | fuel + 1, c :: rest =>
    if c = '"' then some ([], rest)
    else if c = '\\' then
      match escaped? rest with
      | some (e, rest) => (basic? fuel rest).map fun (s, rest) => (e :: s, rest)
      | none => none
    else if isPlain c then (basic? fuel rest).map fun (s, rest) => (c :: s, rest)
    else none

/-- Reads a literal string up to its closing quote. -/
def literal? : List Char → Option (List Char × List Char)
  | [] => none
  | c :: rest =>
    if c = '\'' then some ([], rest)
    else if isPlain c then (literal? rest).map fun (s, rest) => (c :: s, rest)
    else none

/-! ## Strings over several lines -/

/-- How many of the next characters are the quote. -/
def run (quote : Char) (cs : List Char) : Nat := (cs.takeWhile (· = quote)).length

/-- White space and ends of lines at the start of a text dropped; the first argument bounds the
steps. -/
def dropBlankLines : Nat → List Char → List Char
  | 0, cs => cs
  | fuel + 1, cs =>
    match cs with
    | ' ' :: rest | '\t' :: rest => dropBlankLines fuel rest
    | cs =>
      match newLine? cs with
      | some rest => dropBlankLines fuel rest
      | none => cs

/-- What follows a backslash that ends its line: the next line that is not blank. -/
def continued? (cs : List Char) : Option (List Char) :=
  (newLine? (cs.dropWhile fun c => c = ' ' || c = '\t')).map fun rest =>
    dropBlankLines rest.length rest

/-- Reads a string up to its three closing quotes, before which two more quotes may stand.  Only
in a basic string has the backslash a meaning. -/
def lines? (quote : Char) (isBasic : Bool) : Nat → List Char → Option (List Char × List Char)
  | 0, _ => none
  | fuel + 1, cs =>
    let quotes := run quote cs
    if 3 ≤ quotes then
      -- of four or five quotes the last three close the string
      let inner := min quotes 5 - 3
      some (List.replicate inner quote, cs.drop (inner + 3))
    else
      match newLine? cs with
      | some rest => (lines? quote isBasic fuel rest).map fun (s, rest) => ('\n' :: s, rest)
      | none =>
        match cs with
        | [] => none
        | c :: rest =>
          if isBasic && c = '\\' then
            match continued? rest with
            | some rest => lines? quote isBasic fuel rest
            | none =>
              match escaped? rest with
              | some (e, rest) =>
                (lines? quote isBasic fuel rest).map fun (s, rest) => (e :: s, rest)
              | none => none
          else if isPlain c then
            (lines? quote isBasic fuel rest).map fun (s, rest) => (c :: s, rest)
          else none

/-! ## All forms -/

/-- Reads a string of any form. -/
def read? : List Char → Option (List Char × List Char)
  | '"' :: '"' :: '"' :: rest => lines? '"' true (rest.length + 1) (dropNewLine rest)
  | '\'' :: '\'' :: '\'' :: rest => lines? '\'' false (rest.length + 1) (dropNewLine rest)
  | '"' :: rest => basic? (rest.length + 1) rest
  | '\'' :: rest => literal? rest
  | _ => none

/-! ## Writing -/

/-- The characters that write `c` in a basic string; control characters without a letter of their
own are written in upper-case hexadecimal. -/
def escape (c : Char) : List Char :=
  if c = '"' then ['\\', '"']
  else if c = '\\' then ['\\', '\\']
  else if c.toNat = 8 then ['\\', 'b']
  else if c = '\t' then ['\\', 't']
  else if c = '\n' then ['\\', 'n']
  else if c.toNat = 12 then ['\\', 'f']
  else if c = '\r' then ['\\', 'r']
  else if c.toNat < 32 ∨ c.toNat = 127 then
    ['\\', 'u', '0', '0', upperHexDigit (c.toNat / 16), upperHexDigit (c.toNat % 16)]
  else [c]

/-- The text as a basic string. -/
def encode (s : List Char) : List Char := '"' :: (s.flatMap escape ++ ['"'])

end Chronicle.Toml.Quoted

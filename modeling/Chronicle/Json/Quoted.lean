import Chronicle.Text

/-!
# Quoted texts

A JSON text stands between quotes; quotes, backslashes and control characters inside it are
escaped.  Reading also admits the escapes that writing does not use, among them code units written
in hexadecimal, two of which make up a character beyond the first plane.  Reading goes in two
steps: `pieces?` finds the closing quote and undoes the escapes, `assemble?` pairs up code units.
-/

namespace Chronicle.Json.Quoted

open Text

/-! ## Writing -/

/-- The characters that write `c` inside quotes. -/
def escape (c : Char) : List Char :=
  if c = '"' then ['\\', '"']
  else if c = '\\' then ['\\', '\\']
  else if c.toNat = 8 then ['\\', 'b']
  else if c = '\t' then ['\\', 't']
  else if c = '\n' then ['\\', 'n']
  else if c.toNat = 12 then ['\\', 'f']
  else if c = '\r' then ['\\', 'r']
  else if c.toNat < 32 then
    ['\\', 'u', '0', '0', hexDigit (c.toNat / 16), hexDigit (c.toNat % 16)]
  else [c]

/-- The text between its quotes. -/
def encode (s : List Char) : List Char := '"' :: (s.flatMap escape ++ ['"'])

/-! ## Reading -/

/-- A character as it stands, or a code unit written in hexadecimal. -/
inductive Piece where
  | char (c : Char)
  | codeUnit (n : Nat)
  deriving DecidableEq

/-- The character that a one-letter escape stands for. -/
def unescape? (c : Char) : Option Char :=
  if c = '"' then some '"'
  else if c = '\\' then some '\\'
  else if c = '/' then some '/'
  else if c = 'b' then some (Char.ofNat 8)
  else if c = 't' then some '\t'
  else if c = 'n' then some '\n'
  else if c = 'f' then some (Char.ofNat 12)
  else if c = 'r' then some '\r'
  else none

/-- The pieces up to the closing quote, and what follows it.  Raw control characters and unknown
escapes are refused. -/
def pieces? : List Char → Option (List Piece × List Char)
  | [] => none
  | '"' :: rest => some ([], rest)
  | '\\' :: 'u' :: a :: b :: c :: d :: rest =>
    match hexValue4? a b c d, pieces? rest with
    | some n, some (ps, rest) => some (.codeUnit n :: ps, rest)
    | _, _ => none
  | '\\' :: e :: rest =>
    match unescape? e, pieces? rest with
    | some c, some (ps, rest) => some (.char c :: ps, rest)
    | _, _ => none
  | c :: rest =>
    if c.toNat < 32 ∨ c = '\\' then none
    else
      match pieces? rest with
      | some (ps, rest) => some (.char c :: ps, rest)
      | none => none

/-- Whether a code unit is the first half of a pair. -/
def isHigh (n : Nat) : Bool := 0xD800 ≤ n && n < 0xDC00

/-- Whether a code unit is the second half of a pair. -/
def isLow (n : Nat) : Bool := 0xDC00 ≤ n && n < 0xE000

/-- The characters that the pieces make up, unless half of a pair stands alone. -/
def assemble? : List Piece → Option (List Char)
  | [] => some []
  | .char c :: rest => (assemble? rest).map (c :: ·)
  | .codeUnit h :: .codeUnit l :: rest =>
    if isHigh h then
      if isLow l then
        (assemble? rest).map (Char.ofNat (0x10000 + (h - 0xD800) * 0x400 + (l - 0xDC00)) :: ·)
      else none
    else if isLow h then none
    else (assemble? (.codeUnit l :: rest)).map (Char.ofNat h :: ·)
  | .codeUnit h :: rest =>
    if isHigh h || isLow h then none else (assemble? rest).map (Char.ofNat h :: ·)

/-- Reads a text whose opening quote is gone: the text, or nothing if its escapes name half of a
pair, and what follows the closing quote. -/
def decode? (cs : List Char) : Option (Option (List Char) × List Char) :=
  (pieces? cs).map fun (ps, rest) => (assemble? ps, rest)

end Chronicle.Json.Quoted

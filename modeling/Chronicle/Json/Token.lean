import Chronicle.Decimal.Numeral
import Chronicle.Json.Quoted

/-!
# JSON tokens

A JSON text is a sequence of tokens with white space between them.  `Token.scan` splits a text
into tokens and refuses whatever is not one.
-/

namespace Chronicle.Json

open Decimal

/-- A mark, a word, a number or a text. -/
inductive Token where
  | leftBracket
  | rightBracket
  | leftBrace
  | rightBrace
  | comma
  | colon
  | null
  | bool (b : Bool)
  | number (n : Numeral)
  | string (s : String)
  /-- A text whose escapes name half of a surrogate pair, so that it is no text at all. -/
  | broken
  deriving DecidableEq

namespace Token

/-! ## Writing -/

/-- The characters of a token. -/
def chars : Token → List Char
  | .leftBracket => ['[']
  | .rightBracket => [']']
  | .leftBrace => ['{']
  | .rightBrace => ['}']
  | .comma => [',']
  | .colon => [':']
  | .null => ['n', 'u', 'l', 'l']
  | .bool true => ['t', 'r', 'u', 'e']
  | .bool false => ['f', 'a', 'l', 's', 'e']
  | .number n => n.chars
  | .string s => Quoted.encode s.toList
  | .broken => []

/-! ## Reading numbers -/

/-- The digits that a text starts with, and what follows them. -/
def spanDigits : List Char → List Digit × List Char
  | [] => ([], [])
  | c :: rest =>
    match Digit.ofChar? c with
    | some d => (d :: (spanDigits rest).1, (spanDigits rest).2)
    | none => ([], c :: rest)

/-- Reads a whole part: digits without leading zeros. -/
def readWhole? (cs : List Char) : Option (Nat × List Char) :=
  match spanDigits cs with
  | ([], _) => none
  | (d :: e :: ds, rest) => if d.val = 0 then none else some (ofDigits (d :: e :: ds), rest)
  | ([d], rest) => some (d.val, rest)

/-- Reads the digits after a point, if there is a point. -/
def readFraction? : List Char → Option (List Digit × List Char)
  | '.' :: rest =>
    match spanDigits rest with
    | ([], _) => none
    | (ds, rest) => some (ds, rest)
  | cs => some ([], cs)

/-- The sign that a text may start with, and what follows it. -/
def spanSign : List Char → Bool × List Char
  | '-' :: rest => (true, rest)
  | '+' :: rest => (false, rest)
  | cs => (false, cs)

/-- Reads an exponent, if there is its mark. -/
def readExponent? : List Char → Option (Option Int × List Char)
  | c :: rest =>
    if c = 'e' ∨ c = 'E' then
      let (negative, rest) := spanSign rest
      match spanDigits rest with
      | ([], _) => none
      | (ds, rest) =>
        some (some (if negative then -(ofDigits ds : Int) else ofDigits ds), rest)
    else some (none, c :: rest)
  | [] => some (none, [])

/-- Reads a number. -/
def readNumber? (cs : List Char) : Option (Numeral × List Char) := do
  let (negative, cs) := match cs with
    | '-' :: rest => (true, rest)
    | cs => (false, cs)
  let (whole, cs) ← readWhole? cs
  let (fraction, cs) ← readFraction? cs
  let (exponent, cs) ← readExponent? cs
  return (⟨negative, whole, fraction, exponent⟩, cs)

/-! ## Scanning -/

/-- The four characters that may stand between tokens. -/
def isBlank (c : Char) : Bool := c = ' ' || c = '\t' || c = '\n' || c = '\r'

/-- Reads one token at the start of a text. -/
def read? : List Char → Option (Token × List Char)
  | '[' :: rest => some (.leftBracket, rest)
  | ']' :: rest => some (.rightBracket, rest)
  | '{' :: rest => some (.leftBrace, rest)
  | '}' :: rest => some (.rightBrace, rest)
  | ',' :: rest => some (.comma, rest)
  | ':' :: rest => some (.colon, rest)
  | 'n' :: 'u' :: 'l' :: 'l' :: rest => some (.null, rest)
  | 't' :: 'r' :: 'u' :: 'e' :: rest => some (.bool true, rest)
  | 'f' :: 'a' :: 'l' :: 's' :: 'e' :: rest => some (.bool false, rest)
  | '"' :: rest =>
    match Quoted.decode? rest with
    | some (some s, rest) => some (.string (String.ofList s), rest)
    | some (none, rest) => some (.broken, rest)
    | none => none
  | cs => (readNumber? cs).map fun (n, rest) => (.number n, rest)

/-- The tokens of a text of fewer characters than the first argument. -/
def scanWithin : Nat → List Char → Option (List Token)
  | 0, _ => none
  | _ + 1, [] => some []
  | fuel + 1, c :: rest =>
    if isBlank c then scanWithin fuel rest
    else
      match read? (c :: rest) with
      | none => none
      | some (t, rest) => (scanWithin fuel rest).map (t :: ·)

/-- The tokens of a text. -/
def scan (cs : List Char) : Option (List Token) := scanWithin (cs.length + 1) cs

end Token

end Chronicle.Json

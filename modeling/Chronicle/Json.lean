import Chronicle.Json.Token

/-!
# JSON values

A JSON value is read from a text and written back, compactly or laid out with two spaces per
level.  Objects keep their members in the order of the text, repeated keys included: what to do
about them is for whoever reads the object.
-/

namespace Chronicle

/-- A JSON value. -/
inductive Json where
  | null
  | bool (b : Bool)
  | number (n : Decimal.Numeral)
  | string (s : String)
  | array (items : List Json)
  | object (members : List (String × Json))
  /-- A value that the grammar admits and that means nothing: a text with half of a surrogate
  pair, or an object with such a key. -/
  | unusable
  deriving Inhabited

namespace Json

/-! ## Writing -/

mutual

/-- The tokens of a value. -/
def tokens : Json → List Token
  | .null => [.null]
  | .bool b => [.bool b]
  | .number n => [.number n]
  | .string s => [.string s]
  | .array items => .leftBracket :: (itemTokens items ++ [.rightBracket])
  | .object members => .leftBrace :: (memberTokens members ++ [.rightBrace])
  | .unusable => [.broken]
termination_by structural j => j

/-- The tokens of the items of an array. -/
def itemTokens : List Json → List Token
  | [] => []
  | [j] => j.tokens
  | j :: next :: rest => j.tokens ++ .comma :: itemTokens (next :: rest)
termination_by structural l => l

/-- The tokens of the members of an object. -/
def memberTokens : List (String × Json) → List Token
  | [] => []
  | [(k, j)] => .string k :: .colon :: j.tokens
  | (k, j) :: next :: rest =>
    .string k :: .colon :: (j.tokens ++ .comma :: memberTokens (next :: rest))
termination_by structural l => l

end

/-- The value as text, without white space. -/
def compact (j : Json) : String := String.ofList (j.tokens.flatMap Token.chars)

/-- A new line at a level. -/
def newLine (level : Nat) : List Char := '\n' :: List.replicate (2 * level) ' '

mutual

/-- The characters of a value laid out at a level. -/
def laidOut (level : Nat) : Json → List Char
  | .array [] => ['[', ']']
  | .object [] => ['{', '}']
  | .array (j :: rest) =>
    '[' :: (newLine (level + 1) ++ laidOutItems (level + 1) (j :: rest) ++ newLine level ++ [']'])
  | .object (m :: rest) =>
    '{' :: (newLine (level + 1) ++ laidOutMembers (level + 1) (m :: rest) ++ newLine level ++ ['}'])
  | .null => Token.null.chars
  | .bool b => (Token.bool b).chars
  | .number n => n.chars
  | .string s => Quoted.encode s.toList
  | .unusable => []
termination_by structural j => j

/-- The characters of the items of an array, each on a line of its own. -/
def laidOutItems (level : Nat) : List Json → List Char
  | [] => []
  | [j] => j.laidOut level
  | j :: next :: rest =>
    j.laidOut level ++ ',' :: newLine level ++ laidOutItems level (next :: rest)
termination_by structural l => l

/-- The characters of the members of an object, each on a line of its own. -/
def laidOutMembers (level : Nat) : List (String × Json) → List Char
  | [] => []
  | [(k, j)] => Quoted.encode k.toList ++ ':' :: ' ' :: j.laidOut level
  | (k, j) :: next :: rest =>
    Quoted.encode k.toList ++ ':' :: ' ' :: j.laidOut level ++ ',' :: newLine level
      ++ laidOutMembers level (next :: rest)
termination_by structural l => l

end

/-- The value as text, one member or item a line. -/
def pretty (j : Json) : String := String.ofList (j.laidOut 0)

/-! ## Reading -/

/-- An object, or a value that means nothing if one of its keys is no text. -/
def ofMembers : Option (List (String × Json)) → Json
  | some members => .object members
  | none => .unusable

mutual

/-- Reads a value at the start of some tokens; the first argument bounds the steps. -/
def read? : Nat → List Token → Option (Json × List Token)
  | 0, _ => none
  | fuel + 1, tokens =>
    match tokens with
    | .null :: rest => some (.null, rest)
    | .bool b :: rest => some (.bool b, rest)
    | .number n :: rest => some (.number n, rest)
    | .string s :: rest => some (.string s, rest)
    | .broken :: rest => some (.unusable, rest)
    | .leftBracket :: .rightBracket :: rest => some (.array [], rest)
    | .leftBracket :: rest =>
      match readItems? fuel rest with
      | some (items, rest) => some (.array items, rest)
      | none => none
    | .leftBrace :: .rightBrace :: rest => some (.object [], rest)
    | .leftBrace :: rest =>
      match readMembers? fuel rest with
      | some (members, rest) => some (ofMembers members, rest)
      | none => none
    | _ => none

/-- Reads the items of an array that is not empty, and the bracket that closes it. -/
def readItems? : Nat → List Token → Option (List Json × List Token)
  | 0, _ => none
  | fuel + 1, tokens =>
    match read? fuel tokens with
    | some (j, .rightBracket :: rest) => some ([j], rest)
    | some (j, .comma :: rest) =>
      match readItems? fuel rest with
      | some (items, rest) => some (j :: items, rest)
      | none => none
    | _ => none

/-- Reads the members of an object that is not empty, and the brace that closes it. -/
def readMembers? : Nat → List Token → Option (Option (List (String × Json)) × List Token)
  | 0, _ => none
  | fuel + 1, tokens =>
    let key : Option (Option String × List Token) :=
      match tokens with
      | .string k :: .colon :: rest => some (some k, rest)
      | .broken :: .colon :: rest => some (none, rest)
      | _ => none
    match key with
    | none => none
    | some (k, rest) =>
      match read? fuel rest with
      | some (j, .rightBrace :: rest) => some (k.map fun k => [(k, j)], rest)
      | some (j, .comma :: rest) =>
        match readMembers? fuel rest with
        | some (members, rest) =>
          some (members.bind fun ms => k.map fun k => (k, j) :: ms, rest)
        | none => none
      | _ => none

end

/-- The value that some tokens write. -/
def ofTokens? (tokens : List Token) : Option Json :=
  match read? (2 * tokens.length + 2) tokens with
  | some (j, []) => some j
  | _ => none

/-- The value that a text writes. -/
def parse? (text : String) : Option Json := (Token.scan text.toList).bind ofTokens?

end Json

end Chronicle

import Chronicle.Json
import Chronicle.Decimal.Reading
import Chronicle.Word

/-!
# Reading records from JSON

A record is written as an object with its declared fields, or as an array of their values in the
order of declaration, the last of which may be left out.  No declared field may come twice;
whether others may be present is for the record to say.
-/

namespace Chronicle.Json

/-! ## Scalars -/

/-- The integer that a number writes without point or exponent. -/
def int? : Json → Option Int
  | .number n => n.toInt?
  | _ => none

/-- A signed 64-bit number. -/
def int64? (j : Json) : Option Int64 := j.int?.bind Word.int64?

/-- An unsigned 64-bit number. -/
def uint64? (j : Json) : Option UInt64 := j.int?.bind Word.uint64?

/-- An unsigned 32-bit number. -/
def uint32? (j : Json) : Option UInt32 := j.int?.bind Word.uint32?

/-- A byte. -/
def uint8? (j : Json) : Option UInt8 := j.int?.bind Word.uint8?

/-- A double. -/
def float? : Json → Option Float
  | .number n => n.toFloat?
  | _ => none

/-- A truth value. -/
def bool? : Json → Option Bool
  | .bool b => some b
  | _ => none

/-- A text. -/
def string? : Json → Option String
  | .string s => some s
  | _ => none

/-- The items of an array. -/
def array? : Json → Option (List Json)
  | .array items => some items
  | _ => none

/-- The number of an integer. -/
def ofInt (i : Int) : Json := .number (.ofInt i)

/-- An array of texts. -/
def ofStrings (texts : List String) : Json := .array (texts.map .string)

/-- `null` for nothing. -/
def ofOption {α : Type} (write : α → Json) : Option α → Json
  | some a => write a
  | none => .null

/-! ## Records -/

/-- What is done about members of an object that are not declared. -/
inductive Undeclared where
  | refused
  | ignored
  deriving DecidableEq

/-- The first member with this key. -/
def member? (members : List (String × Json)) (key : String) : Option Json :=
  (members.find? fun m => m.1 == key).map (·.2)

/-- How many members have this key. -/
def occurrences (members : List (String × Json)) (key : String) : Nat :=
  members.countP fun m => m.1 == key

/-- The values of the declared fields among the members of an object. -/
def memberFields? (declared : List String) (undeclared : Undeclared)
    (members : List (String × Json)) : Option (List (Option Json)) :=
  if declared.all (fun key => occurrences members key ≤ 1)
      && (undeclared == .ignored || members.all fun m => declared.contains m.1) then
    some (declared.map (member? members))
  else none

/-- The values of the declared fields in an array. -/
def itemFields? (declared : List String) (items : List Json) : Option (List (Option Json)) :=
  if items.length ≤ declared.length then
    some (items.map some ++ List.replicate (declared.length - items.length) none)
  else none

/-- The values of the declared fields of a record, `none` for one that is left out. -/
def fields? (declared : List String) (undeclared : Undeclared) :
    Json → Option (List (Option Json))
  | .object members => memberFields? declared undeclared members
  | .array items => itemFields? declared items
  | _ => none

/-- A field that has a value when it is left out. -/
def withDefault {α : Type} (default : α) (read : Json → Option α) : Option Json → Option α
  | none => some default
  | some j => read j

/-- A field that may be `null`. -/
def nullable {α : Type} (read : Json → Option α) : Json → Option (Option α)
  | .null => some none
  | j => (read j).map some

/-! ## Sound values -/

/-- Whether the number is a 64-bit integer or a double. -/
def isRepresentable (n : Decimal.Numeral) : Bool :=
  (n.toInt?.any fun i => (Word.int64? i).isSome || (Word.uint64? i).isSome) || n.toFloat?.isSome

mutual

/-- Whether everything in a value means something, and arrays and objects are nested no deeper
than the first argument. -/
def isSound : Nat → Json → Bool
  | _, .null | _, .bool _ | _, .string _ => true
  | _, .number n => isRepresentable n
  | _, .unusable => false
  | depth, .array items => 0 < depth && areSound (depth - 1) items
  | depth, .object members => 0 < depth && areSoundMembers (depth - 1) members
termination_by structural _ j => j

/-- Whether all items are sound. -/
def areSound : Nat → List Json → Bool
  | _, [] => true
  | depth, j :: rest => isSound depth j && areSound depth rest
termination_by structural _ l => l

/-- Whether the values of all members are sound. -/
def areSoundMembers : Nat → List (String × Json) → Bool
  | _, [] => true
  | depth, (_, j) :: rest => isSound depth j && areSoundMembers depth rest
termination_by structural _ l => l

end

end Chronicle.Json

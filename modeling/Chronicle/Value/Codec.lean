import Chronicle.Json.Fields
import Chronicle.Metadata

/-!
# Values and metadata as JSON

A value is written as an object with one member, whose key says of what type it is; the null value
is the text `null`.  Metadata is an object of entries in name order.
-/

namespace Chronicle

/-! ## Values -/

namespace ValueRef

/-- The fields of a reference. -/
def fieldNames : List String := ["id", "len", "checksum", "text"]

/-- The reference as JSON. -/
def toJson (r : ValueRef) : Json :=
  .object [
    ("id", .ofInt r.id.toNat),
    ("len", .ofInt r.len.toNat),
    ("checksum", .ofInt r.checksum.toNat),
    ("text", .bool r.text)]

/-- Reads a reference; without `text` it is one to bytes. -/
def ofJson? (j : Json) : Option ValueRef :=
  match j.fields? fieldNames .ignored with
  | some [some id, some len, some checksum, text] => do
    let id ← id.uint64?
    let len ← len.uint32?
    let checksum ← checksum.uint32?
    let text ← Json.withDefault false Json.bool? text
    return ⟨id, len, checksum, text⟩
  | _ => none

end ValueRef

namespace PropValue

/-- A double as JSON; what is no number is `null`. -/
def floatJson (x : Float) : Json := .ofOption .number (Decimal.jsonLayout.ofFloat? x)

/-- The value as JSON. -/
def toJson : PropValue → Json
  | .null => .string "null"
  | .bool b => .object [("bool", .bool b)]
  | .int i => .object [("int", .ofInt i.toInt)]
  | .float x => .object [("float", floatJson x)]
  | .str s => .object [("str", .string s)]
  | .bytes b => .object [("bytes", .array (b.map fun n => .ofInt n.toNat))]
  | .date d => .object [("date", .ofInt d.toInt)]
  | .dateTime t => .object [("date_time", .ofInt t.toInt)]
  | .ref r => .object [("ref", r.toJson)]

/-- Reads bytes as numbers in an array. -/
def bytesOfJson? (j : Json) : Option Bytes := j.array?.bind (·.mapM Json.uint8?)

/-- Reads the payload of a value of a type. -/
def ofTagged? (isNothing : Json → Bool) (type : String) (j : Json) : Option PropValue :=
  match type with
  | "null" => if isNothing j then some .null else none
  | "bool" => j.bool?.map .bool
  | "int" => j.int64?.map .int
  | "float" => j.float?.map .float
  | "str" => j.string?.map .str
  | "bytes" => (bytesOfJson? j).map .bytes
  | "date" => j.int64?.map .date
  | "date_time" => j.int64?.map .dateTime
  | "ref" => (ValueRef.ofJson? j).map .ref
  | _ => none

/-- Reads a value.  `isNothing` says what the null value may have for a payload. -/
def ofJson? (isNothing : Json → Bool) : Json → Option PropValue
  | .string "null" => some .null
  | .object [(type, j)] => ofTagged? isNothing type j
  | _ => none

/-- `null` is the only payload of the null value. -/
def onlyNull : Json → Bool
  | .null => true
  | _ => false

/-- The null value may also have an empty object for a payload. -/
def nullOrEmpty : Json → Bool
  | .null | .object [] => true
  | _ => false

end PropValue

/-! ## Metadata -/

namespace MetadataEntry

/-- The fields of an entry. -/
def fieldNames : List String := ["value", "visibility"]

/-- The entry as JSON. -/
def toJson (e : MetadataEntry) : Json :=
  .object [("value", e.value.toJson), ("visibility", .string e.visibility.label)]

/-- Reads an entry; without a label everyone may read it. -/
def ofJson? (isNothing : Json → Bool) (j : Json) : Option MetadataEntry :=
  match j.fields? fieldNames .ignored with
  | some [some value, visibility] => do
    let value ← PropValue.ofJson? isNothing value
    let label ← Json.withDefault "" Json.string? visibility
    return ⟨value, ⟨label⟩⟩
  | _ => none

end MetadataEntry

namespace Metadata

/-- The metadata as JSON. -/
def toJson (m : Metadata) : Json := .object (m.entries.map fun (name, e) => (name, e.toJson))

/-- Reads metadata; of several entries with one name the last counts. -/
def ofJson? (isNothing : Json → Bool) : Json → Option Metadata
  | .object members => do
    let entries ← members.mapM fun (name, j) =>
      (MetadataEntry.ofJson? isNothing j).map fun e => (name, e)
    return OrderedMap.ofList entries
  | _ => none

end Metadata

/-! ## Texts -/

/-- Reads a value from a JSON text. -/
def PropValue.parse? (text : String) : Option PropValue :=
  (Json.parse? text).bind (PropValue.ofJson? PropValue.onlyNull)

/-- Reads metadata from a JSON text. -/
def Metadata.parse? (text : String) : Option Metadata :=
  (Json.parse? text).bind (Metadata.ofJson? PropValue.onlyNull)

end Chronicle

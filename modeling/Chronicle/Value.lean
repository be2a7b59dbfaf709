import Chronicle.Bytes
import Chronicle.Decimal.Layout

/-!
# Values

A property's value is a scalar, some bytes, or a reference to a value kept in a blob store.
References are one level deep: what is stored in a blob is text or bytes.
-/

namespace Chronicle

/-- Points at a stored blob and says what it must look like. -/
structure ValueRef where
  id : UInt64
  len : UInt32
  checksum : UInt32
  /-- Whether the blob is text rather than bytes. -/
  text : Bool
  deriving DecidableEq, Inhabited

/-- The value of a property or of a metadata entry. -/
inductive PropValue where
  | null
  | bool (b : Bool)
  | int (i : Int64)
  | float (x : Float)
  | str (s : String)
  | bytes (b : Bytes)
  | date (days : Int64)
  | dateTime (millis : Int64)
  | ref (r : ValueRef)
  deriving DecidableEq, Inhabited

namespace PropValue

/-- The reference, if the value is kept in a blob. -/
def reference? : PropValue → Option ValueRef
  | .ref r => some r
  | _ => none

/-- Equality as numbers compare: `NaN` differs from itself, and the two zeros are equal. -/
def equals : PropValue → PropValue → Bool
  | .float x, .float y => x == y
  | v, w => decide (v = w)

/-- The text of a value shown to people. -/
def display : PropValue → String
  | .null => "null"
  | .bool b => if b then "true" else "false"
  | .int i => Decimal.intText i.toInt
  | .float x => Decimal.floatText x
  | .str s => s
  | .bytes b => "bytes(len=" ++ Decimal.intText b.length ++ ")"
  | .date d => "date(" ++ Decimal.intText d.toInt ++ ")"
  | .dateTime t => "datetime(" ++ Decimal.intText t.toInt ++ ")"
  | .ref r =>
    "ref(id=" ++ Decimal.intText r.id.toNat ++ ", len=" ++ Decimal.intText r.len.toNat ++ ")"

end PropValue

end Chronicle

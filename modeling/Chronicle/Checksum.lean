import Chronicle.Bytes

/-!
# Checksums of blobs

CRC-32 with the reflected polynomial `0xEDB88320`, register and result inverted.  The register is
moved one bit at a time, eight times per byte.  A blob's checksum starts with its id, so equal
bytes under different ids are told apart.
-/

namespace Chronicle

/-- The register of a running checksum. -/
structure Checksum where
  register : UInt32
  deriving DecidableEq, Inhabited

namespace Checksum

/-- The reflected generator polynomial. -/
def polynomial : UInt32 := 0xEDB88320

/-- Moves the register on by one bit. -/
def bitStep (r : UInt32) : UInt32 :=
  if r &&& 1 = 1 then (r >>> 1) ^^^ polynomial else r >>> 1

/-- Moves the register on by one byte. -/
def byteStep (r : UInt32) (b : UInt8) : UInt32 :=
  bitStep <| bitStep <| bitStep <| bitStep <| bitStep <| bitStep <| bitStep <| bitStep <|
    r ^^^ b.toUInt32

/-- The checksum of nothing yet. -/
def start : Checksum := ⟨0xFFFFFFFF⟩

/-- Takes in more bytes. -/
def update (c : Checksum) (bytes : Bytes) : Checksum := ⟨bytes.foldl byteStep c.register⟩

/-- The checksum of the bytes taken in so far. -/
def value (c : Checksum) : UInt32 := c.register ^^^ 0xFFFFFFFF

/-- The eight bytes of a number, the most significant first. -/
def bigEndian (n : UInt64) : Bytes :=
  ([56, 48, 40, 32, 24, 16, 8, 0] : List UInt64).map fun shift => (n >>> shift).toUInt8

/-- The checksum of a blob: its id's bytes, then its own. -/
def ofBlob (id : UInt64) (payload : Bytes) : UInt32 :=
  ((start.update (bigEndian id)).update payload).value

end Checksum

end Chronicle

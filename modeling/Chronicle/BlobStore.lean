import Chronicle.Checksum
import Chronicle.Property.Loading

/-!
# Stores of large values

A blob store keeps payloads under ids that are handed out once.  A reference is good for a blob
that is there, was written in time, and has the length and checksum that the reference names; then
its bytes are read, and counted, and given back as bytes or as text.
-/

namespace Chronicle

/-- A stored payload and when it was written. -/
structure Blob where
  writtenAt : Timestamp
  bytes : Bytes
  deriving DecidableEq

/-- Payloads under their ids, the next id, and what has been written and read. -/
structure BlobStore where
  blobs : OrderedMap UInt64 Blob
  nextId : UInt64
  blobsWritten : Nat
  bytesWritten : Nat
  bytesRead : Nat

namespace BlobStore

/-- A store in which nothing has been put. -/
def fresh : BlobStore := ⟨OrderedMap.empty, 1, 0, 0, 0⟩

instance : Inhabited BlobStore := ⟨fresh⟩

/-- The longest payload whose length a reference can hold. -/
def longestPayload : Nat := UInt32.size - 1

/-- The reference to a payload stored under an id. -/
def reference (id : UInt64) (payload : Bytes) (text : Bool) : ValueRef :=
  ⟨id, payload.length.toUInt32, Checksum.ofBlob id payload, text⟩

/-- Stores a payload under the next id. -/
def put (s : BlobStore) (payload : Bytes) (ts : Timestamp) (text : Bool) :
    Except Error (ValueRef × BlobStore) :=
  if longestPayload < payload.length then .error .payloadTooLong
  else
    .ok (reference s.nextId payload text,
      { s with
        blobs := s.blobs.insert s.nextId ⟨ts, payload⟩
        nextId := s.nextId + 1
        blobsWritten := s.blobsWritten + 1
        bytesWritten := s.bytesWritten + payload.length })

/-- Stores bytes. -/
def putBytes (s : BlobStore) (payload : Bytes) (ts : Timestamp) :
    Except Error (ValueRef × BlobStore) := s.put payload ts false

/-- Stores a text as its UTF-8 bytes. -/
def putText (s : BlobStore) (content : String) (ts : Timestamp) :
    Except Error (ValueRef × BlobStore) := s.put (.ofText content) ts true

/-- Drops a blob, and says whether it was there. -/
def remove (s : BlobStore) (id : UInt64) : Bool × BlobStore :=
  (s.blobs.contains id, { s with blobs := s.blobs.erase id })

/-- The bytes that a reference is good for at a time. -/
def bytes (s : BlobStore) (r : ValueRef) (ts : Timestamp) : Except Error Bytes :=
  match s.blobs.get? r.id with
  | none => .error .notFound
  | some blob =>
    if ts < blob.writtenAt then .error .referencePredatesBlob
    else if blob.bytes.length ≠ r.len.toNat then .error .blobLengthMismatch
    else if Checksum.ofBlob r.id blob.bytes ≠ r.checksum then .error .blobChecksumMismatch
    else .ok blob.bytes

/-- The value that stored bytes stand for. -/
def decode (text : Bool) (payload : Bytes) : Except Error PropValue :=
  if text then
    match payload.text? with
    | some content => .ok (.str content)
    | none => .error .blobNotText
  else .ok (.bytes payload)

/-- The value that a reference stands for at a time. -/
def load (s : BlobStore) : Load := fun r ts => s.bytes r ts >>= decode r.text

/-- Counts the bytes that are read for a reference, if it is good for any. -/
def charge (s : BlobStore) (q : LoadRequest) : BlobStore :=
  match s.bytes q.reference q.timestamp with
  | .ok payload => { s with bytesRead := s.bytesRead + payload.length }
  | .error _ => s

/-- Loads a value and counts what was read. -/
def resolve (s : BlobStore) (r : ValueRef) (ts : Timestamp) : Except Error PropValue × BlobStore :=
  (s.load r ts, s.charge ⟨r, ts⟩)

end BlobStore

end Chronicle

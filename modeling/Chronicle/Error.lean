import Chronicle.Clock
import Chronicle.Decimal.Numeral

/-!
# Errors

Everything that can go wrong in the store, by cause, and the one place where a cause is put into
words.
-/

namespace Chronicle

/-- Why an operation failed. -/
inductive Error where
  /-- An element was named by the empty text. -/
  | emptyElementId
  /-- A vertex was asked of an element of another kind. -/
  | notAVertex
  /-- An edge was asked of an element of another kind. -/
  | notAnEdge
  /-- An edge was asked of an element that has no readable label. -/
  | edgeWithoutLabel
  /-- A payload is too long for a reference to hold its length. -/
  | payloadTooLong
  /-- A reference was used at a time before its blob was written. -/
  | referencePredatesBlob
  /-- A blob is not as long as its reference says. -/
  | blobLengthMismatch
  /-- A blob does not have the checksum that its reference says. -/
  | blobChecksumMismatch
  /-- A blob that its reference calls text is not. -/
  | blobNotText
  /-- There is no such blob. -/
  | notFound
  /-- A property's stored value could not be loaded. -/
  | valueLoad (key name : String) (timestamp : Timestamp) (cause : Error)
  /-- A configuration could not be read. -/
  | unreadableConfig
  /-- A configuration has a number that its format cannot hold. -/
  | unwritableConfig
  deriving DecidableEq, Inhabited

namespace Error

/-- The kinds of error that callers tell apart. -/
inductive Kind where
  | invalid
  | corruption
  | notFound
  | valueLoad
  | config
  deriving DecidableEq

/-- The kind of an error. -/
def kind : Error → Kind
  | .emptyElementId | .notAVertex | .notAnEdge | .edgeWithoutLabel => .invalid
  | .payloadTooLong | .referencePredatesBlob => .invalid
  | .blobLengthMismatch | .blobChecksumMismatch | .blobNotText => .corruption
  | .notFound => .notFound
  | .valueLoad .. => .valueLoad
  | .unreadableConfig | .unwritableConfig => .config

/-- The wording of an error. -/
def message : Error → String
  | .emptyElementId => "invalid argument: element id is empty"
  | .notAVertex => "invalid argument: element is not a vertex"
  | .notAnEdge => "invalid argument: element is not an edge"
  | .edgeWithoutLabel => "invalid argument: edge has no label"
  | .payloadTooLong => "invalid argument: value larger than 4GB not supported"
  | .referencePredatesBlob => "invalid argument: value reference predates its blob"
  | .blobLengthMismatch => "corruption: blob length does not match reference"
  | .blobChecksumMismatch => "corruption: blob checksum mismatch"
  | .blobNotText => "corruption: text blob is not valid UTF-8"
  | .notFound => "not found"
  | .valueLoad key name timestamp cause =>
    "failed to load value of property " ++ key ++ "/" ++ name ++ " at "
      ++ Decimal.intText timestamp.toInt ++ ": " ++ cause.message
  | .unreadableConfig => "config: unreadable"
  | .unwritableConfig => "config: number out of range"

end Error

end Chronicle

import Chronicle.Main
import Chronicle.Proofs.Log.StableOrder
import Chronicle.Proofs.Occurrence
import Chronicle.Proofs.Property.Standing
import Chronicle.Proofs.Property.Folding
import Chronicle.Proofs.Property.Drafting
import Chronicle.Proofs.Property.Reconstruction
import Chronicle.Proofs.Property.Slots
import Chronicle.Proofs.Property.Narrowing
import Chronicle.Proofs.Log.Grouping
import Chronicle.Proofs.Authorization
import Chronicle.Proofs.Log.Agreement
import Chronicle.Proofs.Redaction
import Chronicle.Proofs.Log.Appends
import Chronicle.Proofs.Independence
import Chronicle.Proofs.PointInTime
import Chronicle.Proofs.Property.Newest
import Chronicle.Proofs.Log.Presence
import Chronicle.Proofs.Selection
import Chronicle.Proofs.Concealment
import Chronicle.Proofs.Materialization
import Chronicle.Proofs.BlobStore.Run
import Chronicle.Proofs.BlobStore.Retrieval
import Chronicle.Proofs.Session.Steps
import Chronicle.Proofs.Table.Creation
import Chronicle.Proofs.Replay.Failure
import Chronicle.Proofs.Replay.Interpretation
import Chronicle.Proofs.Table.Run
import Chronicle.Proofs.Table.Registry
import Chronicle.Proofs.BlobStore.Transparency
import Chronicle.Proofs.Log.Purging
import Chronicle.Proofs.Deletion
import Chronicle.Proofs.Counters.Calls
import Chronicle.Proofs.Counters.Balance
import Chronicle.Proofs.Json.Reading
import Chronicle.Proofs.Json.Scanning
import Chronicle.Proofs.Json.Records
import Chronicle.Proofs.Value.RoundTrip
import Chronicle.Proofs.Script.RoundTrip
import Chronicle.Proofs.Clock.Manual
import Chronicle.Proofs.BlobStore.Counting
import Chronicle.Proofs.Checksum
import Chronicle.Proofs.BlobStore.Substitution
import Chronicle.Proofs.Clock.System
import Chronicle.Proofs.Property.LoadTime
import Chronicle.Proofs.Property.Window
import Chronicle.Proofs.Existence
import Chronicle.Proofs.Property.Toggling
import Chronicle.Proofs.Hiding
import Chronicle.Proofs.Grants
import Chronicle.Proofs.LoadFailure
import Chronicle.Proofs.Json.Strictness
import Chronicle.Proofs.Script.Strictness
import Chronicle.Proofs.Toml.Reading
import Chronicle.Proofs.Config
import Chronicle.Proofs.Inspection

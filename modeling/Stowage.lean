import Stowage.Assets
import Stowage.Main
import Stowage.Storage.Memory
import Stowage.Log.Pattern
import Stowage.Proofs.Backup.Confinement
import Stowage.Proofs.Backup.Truncation
import Stowage.Proofs.Package.TamperEvidence
import Stowage.Proofs.Package.Containment
import Stowage.Proofs.Storage.Atomicity
import Stowage.Proofs.Instance.RoundTrip
import Stowage.Proofs.Backup.NameRoundTrip
import Stowage.Proofs.Registry.ReadBack
import Stowage.Proofs.Backup.Snapshot
import Stowage.Proofs.Ini.Text
import Stowage.Proofs.Ini.Value
import Stowage.Proofs.Ini.Verbatim
import Stowage.Proofs.Ini.Lines
import Stowage.Proofs.Ini.RoundTrip
import Stowage.Proofs.Settings.RoundTrip
import Stowage.Proofs.Backup.Succession
import Stowage.Proofs.Backup.Permanence
import Stowage.Proofs.Backup.Identity
import Stowage.Proofs.Storage.Edits
import Stowage.Proofs.Package.Decision
import Stowage.Proofs.Backup.Inspection
import Stowage.Proofs.Command.Silence
import Stowage.Proofs.Registry.Rewriting
import Stowage.Proofs.Backup.Atomicity
import Stowage.Proofs.Registry.Generate
import Stowage.Proofs.Package.Replacement
import Stowage.Proofs.Backup.Listing
import Stowage.Proofs.Digest.Readings
import Stowage.Proofs.Storage.Frame
import Stowage.Proofs.Storage.Exhaustion
import Stowage.Proofs.Instance.Compatibility
import Stowage.Proofs.Backup.EntryNames
import Stowage.Proofs.Template.Order
import Stowage.Proofs.Backup.Seconds

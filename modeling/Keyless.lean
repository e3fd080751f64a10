import Keyless.Command.Directory
import Keyless.Extension.Script
import Keyless.Main
import Keyless.Proofs.Calendar.Binding
import Keyless.Proofs.Calendar.Words
import Keyless.Proofs.Element
import Keyless.Verification.Calls
import Keyless.Proofs.Metadata
import Keyless.Proofs.Aggregation.Index
import Keyless.Proofs.Signature
import Keyless.Proofs.Verification.Policy
import Keyless.Proofs.Aggregation.Binding
import Keyless.Proofs.Verification.Extending
import Keyless.Proofs.Extension
import Keyless.Proofs.Verification.Soundness
import Keyless.Proofs.Calendar.Route
import Keyless.Proofs.Calendar.Tree
import Keyless.Proofs.Calendar.Past
import Keyless.Proofs.Signature.Prepending
import Keyless.Proofs.Verification.Consistency
import Keyless.Proofs.Verification.Confirmation
import Keyless.Proofs.Verification.Ledger
import Keyless.Proofs.Verification.Prepending
import Keyless.Proofs.Verification.FetchOnce
import Keyless.Proofs.Verification.Independence
import Keyless.Proofs.Signature.Reshaping
import Keyless.Proofs.Verification.Tally
import Keyless.Proofs.Verification.Permission
import Keyless.Proofs.Verification.Transparency
import Keyless.Proofs.Factory
import Keyless.Proofs.Factory.Folding
import Keyless.Proofs.Hex
import Keyless.Proofs.Json.Form
import Keyless.Proofs.Document
import Keyless.Proofs.Aggregation.Siblings
import Keyless.Proofs.Signature.Extending
import Keyless.Proofs.Aggregation.Height
import Keyless.Proofs.Verification.Faults
import Keyless.Proofs.Verification.Robustness
import Keyless.Proofs.Signature.Commuting
import Keyless.Proofs.Verification.Course
import Keyless.Proofs.Verification.Fallback
import Keyless.Proofs.Verification.Stopping
import Keyless.Proofs.Aggregation.Levels
import Keyless.Proofs.Signature.Lowering
import Keyless.Proofs.Verification.LegacyRecord
import Keyless.Proofs.Aggregation.Segments
import Keyless.Proofs.Aggregation.Directions
import Keyless.Proofs.Aggregation.Places
import Keyless.Proofs.Metadata.Padding
import Keyless.Proofs.Extension.Archive
import Keyless.Proofs.Inspection
import Keyless.Proofs.Signature.Authentication
import Keyless.Proofs.Verification.Standing
import Keyless.Proofs.Verification.Targets
import Keyless.Proofs.Signature.Acceptance
import Keyless.Proofs.Signature.InputLevel
import Keyless.Proofs.Publication
import Keyless.Proofs.Text.Blank
import Keyless.Proofs.Imprint.Codec
import Keyless.Proofs.Publication.Store
import Keyless.Proofs.Element.Writing
import Keyless.Proofs.Certificate.Pem

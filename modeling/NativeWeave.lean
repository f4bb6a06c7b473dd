import NativeWeave.CommandLine.Disk
import NativeWeave.Main
import NativeWeave.Proofs.Category.MutualReference
import NativeWeave.Proofs.Editing.Distinct
import NativeWeave.Proofs.Format.Body
import NativeWeave.Proofs.Format.Module
import NativeWeave.Proofs.Code.Execution
import NativeWeave.Proofs.Code.Rearrangement
import NativeWeave.Proofs.Editing.Relocation
import NativeWeave.Proofs.Editing.Construction
import NativeWeave.Proofs.Editing.Bodies
import NativeWeave.Proofs.Editing.Accessors
import NativeWeave.Proofs.Editing.Constructors
import NativeWeave.Proofs.Editing.Owners
import NativeWeave.Proofs.Editing.Elimination
import NativeWeave.Proofs.Faultless
import NativeWeave.Proofs.Bounds
import NativeWeave.Proofs.Editing.Withdrawal
import NativeWeave.Proofs.Naming
import NativeWeave.Proofs.Category.Foreign
import NativeWeave.Proofs.Abroad
import NativeWeave.Proofs.Verification.Levels
import NativeWeave.Proofs.Marshalling.Balance
import NativeWeave.Proofs.Editing.Verifiable
import NativeWeave.Proofs.Binding.Propagation
import NativeWeave.Proofs.Extraction.Complete
import NativeWeave.Proofs.Binding.Observation
import NativeWeave.Proofs.CommandLine.Delivery
import NativeWeave.Proofs.CommandLine.Independence
import NativeWeave.Proofs.Machine.Initializer
import NativeWeave.Proofs.Machine.Property
import NativeWeave.Proofs.Machine.Copying
import NativeWeave.Proofs.Machine.Crossing
import NativeWeave.Proofs.Machine.Invoker
import NativeWeave.Proofs.Machine.Caller
import NativeWeave.Proofs.Machine.Call
import NativeWeave.Proofs.Editing.Added
import NativeWeave.Proofs.Binding.Cycle
import NativeWeave.Proofs.Machine.Content
import NativeWeave.Proofs.Machine.Struct
import NativeWeave.Proofs.Format.Lines
import NativeWeave.Proofs.Code.Building
import NativeWeave.Proofs.Binding.Constructor
import NativeWeave.Proofs.Format.Truncation
import NativeWeave.Proofs.Format.Corruption
import NativeWeave.Proofs.Category.Change
import NativeWeave.Proofs.Extraction.Independent
import NativeWeave.Proofs.Editing.Survival
import NativeWeave.Proofs.Editing.Transfer
import NativeWeave.Proofs.Machine.Release
import NativeWeave.Proofs.Extraction.Notification
import NativeWeave.Proofs.Machine.Constants
import NativeWeave.Proofs.Machine.Arrays
import NativeWeave.Proofs.Machine.Direction
import NativeWeave.Proofs.Derivation
import NativeWeave.Proofs.Category.Nesting
import NativeWeave.Proofs.Indices

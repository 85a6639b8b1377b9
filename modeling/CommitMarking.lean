import CommitMarking.LogLevel
import CommitMarking.Main
import CommitMarking.Proofs.Arithmetic
import CommitMarking.Proofs.SchemeMarks
import CommitMarking.Proofs.Scoping
import CommitMarking.Proofs.CommandLine.Containment
import CommitMarking.Proofs.Suite.Protocol
import CommitMarking.Proofs.Suite.Verdict
import CommitMarking.Proofs.Suite.Delivery
import CommitMarking.Proofs.Suite.Explanation
import CommitMarking.Proofs.Suite.Order
import CommitMarking.Proofs.History.Steps
import CommitMarking.Proofs.History.Loading
import CommitMarking.Proofs.History.RawDiff
import CommitMarking.Proofs.FileSystem.Placing
import CommitMarking.Proofs.Checkout
import CommitMarking.Proofs.History.Snapshot
import CommitMarking.Proofs.History.Replay
import CommitMarking.Proofs.Checkout.Completion
import CommitMarking.Proofs.Checkout.Revision
import CommitMarking.Proofs.History.Telling
import CommitMarking.Proofs.Course
import CommitMarking.Proofs.FailStop
import CommitMarking.Proofs.WellScoped
import CommitMarking.Proofs.Exactness
import CommitMarking.Proofs.Confinement
import CommitMarking.Proofs.Containers
import CommitMarking.Proofs.Unreached
import CommitMarking.Proofs.Provenance
import CommitMarking.Proofs.SchemeCalls
import CommitMarking.Proofs.Compilation
import CommitMarking.Proofs.CommandLine.Outcome
import CommitMarking.Proofs.CommandLine.Preconditions
import CommitMarking.Proofs.CommandLine.SelfHost
import CommitMarking.Proofs.History.Truncation
import CommitMarking.Proofs.History.Sides
import CommitMarking.Proofs.Checkout.Kept
import CommitMarking.Proofs.Substitution
import CommitMarking.Proofs.Nesting
import CommitMarking.Proofs.Sizes
import CommitMarking.Proofs.Summary
import CommitMarking.Proofs.Sections
import CommitMarking.Proofs.Execution
import CommitMarking.Proofs.Bindings
import CommitMarking.Proofs.Narration

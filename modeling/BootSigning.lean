import BootSigning.Main
import BootSigning.Proofs.Accounts
import BootSigning.Proofs.Boundaries
import BootSigning.Proofs.Bytewise
import BootSigning.Proofs.Choice
import BootSigning.Proofs.Components
import BootSigning.Proofs.Confinement
import BootSigning.Proofs.Conservation
import BootSigning.Proofs.Copies
import BootSigning.Proofs.Course
import BootSigning.Proofs.Descent
import BootSigning.Proofs.Edits
import BootSigning.Proofs.Encoding
import BootSigning.Proofs.Escape
import BootSigning.Proofs.ExpectedCalls
import BootSigning.Proofs.Extraction
import BootSigning.Proofs.Failure
import BootSigning.Proofs.FailureText
import BootSigning.Proofs.FileNames
import BootSigning.Proofs.Groups
import BootSigning.Proofs.History
import BootSigning.Proofs.LastChange
import BootSigning.Proofs.Likeness
import BootSigning.Proofs.Listing
import BootSigning.Proofs.Lookup
import BootSigning.Proofs.Lossy
import BootSigning.Proofs.Matching
import BootSigning.Proofs.Onward
import BootSigning.Proofs.Operations
import BootSigning.Proofs.Order
import BootSigning.Proofs.Preconditions
import BootSigning.Proofs.Protocols
import BootSigning.Proofs.RealPath
import BootSigning.Proofs.Release
import BootSigning.Proofs.Removal
import BootSigning.Proofs.Rendering
import BootSigning.Proofs.Repetition
import BootSigning.Proofs.Reports
import BootSigning.Proofs.Runs
import BootSigning.Proofs.Turns
import BootSigning.Proofs.TwoRuns
import BootSigning.Proofs.Verdict
import BootSigning.Proofs.Ways
import BootSigning.Rehearsal.Expectations
import BootSigning.Rehearsal.Recording
import BootSigning.Rehearsal.Script

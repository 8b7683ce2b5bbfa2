import Wordstream.Workbench.Perform
import Wordstream.Proofs.Cursors
import Wordstream.Proofs.Declarations
import Wordstream.Proofs.Discipline
import Wordstream.Proofs.Evaluation
import Wordstream.Proofs.Handover
import Wordstream.Proofs.Confinement
import Wordstream.Proofs.Library
import Wordstream.Proofs.Demand
import Wordstream.Proofs.Frames
import Wordstream.Proofs.Journal
import Wordstream.Proofs.Slots
import Wordstream.Proofs.Delivery
import Wordstream.Proofs.Fuel
import Wordstream.Proofs.Halting
import Wordstream.Proofs.Termination
import Wordstream.Proofs.Conduct
import Wordstream.Proofs.Joining
import Wordstream.Proofs.Pipeline
import Wordstream.Proofs.Associativity
import Wordstream.Proofs.Diagnostics
import Wordstream.Proofs.Lines
import Wordstream.Proofs.Scanning
import Wordstream.Proofs.Progress
import Wordstream.Proofs.Nesting
import Wordstream.Proofs.Faults
import Wordstream.Proofs.Limit
import Wordstream.Proofs.Lives
import Wordstream.Proofs.Soundness
import Wordstream.Proofs.Ownership
import Wordstream.Proofs.Vigilance
import Wordstream.Proofs.Linearity
import Wordstream.Proofs.Printing
import Wordstream.Proofs.Spans
import Wordstream.Proofs.Exports
import Wordstream.Proofs.Wiring
import Wordstream.Proofs.Backings
import Wordstream.Proofs.Settling
import Wordstream.Proofs.Activations
import Wordstream.Proofs.Playing
import Wordstream.Proofs.Apart
import Wordstream.Proofs.Custody
import Wordstream.Proofs.Safekeeping
import Wordstream.Proofs.Discharge
import Wordstream.Proofs.Accounts
import Wordstream.Proofs.Agreement
import Wordstream.Proofs.Scoping
import Wordstream.Proofs.Enclosure
import Wordstream.Proofs.Pairing
import Wordstream.Proofs.Expressions
import Wordstream.Proofs.Paths

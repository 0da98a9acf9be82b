import Intercal.Main
import Intercal.Disk.Files
import Intercal.Machine.Visit
import Intercal.Nexting.Relay
import Intercal.Store.Session
import Intercal.Proofs.Folding
import Intercal.Proofs.Activations
import Intercal.Proofs.Lowering
import Intercal.Proofs.Baton
import Intercal.Proofs.Holdings
import Intercal.Proofs.Projects
import Intercal.Proofs.Listing
import Intercal.Proofs.Chains
import Intercal.Proofs.Cells
import Intercal.Proofs.Stashes
import Intercal.Proofs.Touches
import Intercal.Proofs.Recovery
import Intercal.Proofs.Addressing
import Intercal.Proofs.Arithmetic
import Intercal.Proofs.Frozen
import Intercal.Proofs.Constants
import Intercal.Proofs.Masks
import Intercal.Proofs.Widths
import Intercal.Proofs.Acceptance
import Intercal.Proofs.Reports
import Intercal.Proofs.Tiling
import Intercal.Proofs.Excerpts
import Intercal.Proofs.Seeds
import Intercal.Proofs.Owners
import Intercal.Proofs.Renaming
import Intercal.Proofs.Stuck
import Intercal.Proofs.Unwinding
import Intercal.Proofs.Numerals
import Intercal.Proofs.Spans
import Intercal.Proofs.Casing

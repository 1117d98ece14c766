import Lox.Main
import Lox.Proofs.Operations
import Lox.Proofs.Restoration
import Lox.Proofs.Scoping.Uses
import Lox.Proofs.Scoping.Walk
import Lox.Proofs.History
import Lox.Proofs.Parser.Formation
import Lox.Proofs.Trace
import Lox.Proofs.Sources
import Lox.Proofs.Growth
import Lox.Proofs.Scoping.Frames
import Lox.Proofs.Scoping.Keeping
import Lox.Proofs.Scoping.Declaring
import Lox.Proofs.Scoping.Alignment
import Lox.Proofs.Scoping.Sessions
import Lox.Proofs.Scoping.Addressing
import Lox.Proofs.Relabelling.Trees
import Lox.Proofs.Relabelling.Values
import Lox.Proofs.Relabelling.Machines
import Lox.Proofs.Relabelling.Runs
import Lox.Proofs.Parser.Joining
import Lox.Proofs.Relabelling.Analysis
import Lox.Proofs.Parser.Programs
import Lox.Proofs.Scanning
import Lox.Proofs.Relabelling.Sessions
import Lox.Proofs.Pieces
import Lox.Proofs.Refusal
import Lox.Proofs.Identity
import Lox.Proofs.Grammar.Acceptance
import Lox.Proofs.Renaming.Programs
import Lox.Proofs.Statics.Diagnostics
import Lox.Proofs.Returning
import Lox.Proofs.Bytes.Spans
import Lox.Proofs.Scoping.Dispatch
import Lox.Proofs.Runs.Limits
import Lox.Proofs.Runs.Depth
import Lox.Proofs.Origin.Frames
import Lox.Proofs.Origin.Lines
import Lox.Proofs.Recovery.Items
import Lox.Proofs.Recovery.Blocks
import Lox.Proofs.Printing.Values
import Lox.Proofs.Instances.Initializers
import Lox.Proofs.Forest
import Lox.Proofs.Bytes.Longest
import Lox.Proofs.Loops.Hygiene
import Lox.Proofs.Instances.Receivers
import Lox.Proofs.Bytes.Respaced
import Lox.Proofs.Runs.Flushing
import Lox.Proofs.Parser.Unended
import Lox.Proofs.Decimal.Listings
import Lox.Proofs.Printing.Unambiguous
import Lox.Proofs.Heaps.Sessions

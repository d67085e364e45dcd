import CallGraph.CommandLine.Run
import CallGraph.Main
import CallGraph.Trace.Encode
import CallGraph.Tracker.Op
import CallGraph.Proofs.Activity
import CallGraph.Proofs.Threads
import CallGraph.Proofs.Chains
import CallGraph.Proofs.Lineage
import CallGraph.Proofs.Invariant
import CallGraph.Proofs.Billing
import CallGraph.Proofs.Discarding
import CallGraph.Proofs.Entering
import CallGraph.Proofs.Fingerprint
import CallGraph.Proofs.Handles
import CallGraph.Proofs.Restoring
import CallGraph.Proofs.RollingUp
import CallGraph.Proofs.Interleaving
import CallGraph.Proofs.Resolving
import CallGraph.Proofs.Levels
import CallGraph.Proofs.Outcome
import CallGraph.Proofs.Coarsening
import CallGraph.Proofs.ReturnAddresses
import CallGraph.Proofs.Delivering
import CallGraph.Proofs.Conservation
import CallGraph.Proofs.Profile
import CallGraph.Proofs.IdleDiscards
import CallGraph.Proofs.Teardown
import CallGraph.Proofs.Counters
import CallGraph.Proofs.Interning
import CallGraph.Proofs.Filing
import CallGraph.Proofs.Transferring
import CallGraph.Proofs.Promoting
import CallGraph.Proofs.Evicting
import CallGraph.Proofs.Bracketing
import CallGraph.Proofs.Numbering
import CallGraph.Proofs.Recognising
import CallGraph.Proofs.Following
import CallGraph.Proofs.Isolation
import CallGraph.Proofs.Checking
import CallGraph.Proofs.Ranking
import CallGraph.Proofs.Ending
import CallGraph.Proofs.Reading
import CallGraph.Proofs.Recording
import CallGraph.Proofs.Filling
import CallGraph.Proofs.Nesting
import CallGraph.Proofs.Overriding
import CallGraph.Proofs.Skipping
import CallGraph.Proofs.Withholding
import CallGraph.Proofs.Searching
import CallGraph.Proofs.Recycling

import ClosedWorld.Analysis.Report
import ClosedWorld.Analysis.Script
import ClosedWorld.Analysis.Sweep
import ClosedWorld.Attempt
import ClosedWorld.Interned
import ClosedWorld.Listing
import ClosedWorld.Program.Draft
import ClosedWorld.Proofs.Analysis.Bounds
import ClosedWorld.Proofs.Analysis.Devirtualization
import ClosedWorld.Proofs.Analysis.Findings
import ClosedWorld.Proofs.Analysis.Flow
import ClosedWorld.Proofs.Analysis.Neat
import ClosedWorld.Proofs.Analysis.Options
import ClosedWorld.Proofs.Analysis.Origins
import ClosedWorld.Proofs.Analysis.Preconditions
import ClosedWorld.Proofs.Analysis.Returns
import ClosedWorld.Proofs.Lockstep.Accesses
import ClosedWorld.Proofs.Lockstep.Operands
import ClosedWorld.Proofs.Store.Histories
import ClosedWorld.Proofs.Store.Interning
import ClosedWorld.Proofs.Store.Writes
import ClosedWorld.Proofs.Walk.Depth
import ClosedWorld.Proofs.Walk.Machine
import ClosedWorld.Sample.Catalogue
import ClosedWorld.Value.Laws
import ClosedWorld.Proofs.Lockstep.Instructions
import ClosedWorld.Proofs.Lockstep.Walks
import ClosedWorld.Proofs.Lockstep.Calls
import ClosedWorld.Proofs.Lockstep.Runs
import ClosedWorld.Proofs.Lockstep.Caution
import ClosedWorld.Proofs.Draft.Assembly
import ClosedWorld.Proofs.Analysis.Unsupported
import ClosedWorld.Proofs.Draft.Answers
import ClosedWorld.Proofs.Numeric
import ClosedWorld.Proofs.Store.Valued
import ClosedWorld.Proofs.Analysis.Assignments
import ClosedWorld.Proofs.Analysis.Numbers
import ClosedWorld.Proofs.Analysis.Dispatching
import ClosedWorld.Proofs.Analysis.Tagging
import ClosedWorld.Proofs.Analysis.Selection
import ClosedWorld.Proofs.Store.Prefixes
import ClosedWorld.Proofs.Store.Boxing
import ClosedWorld.Proofs.Analysis.Boxing
import ClosedWorld.Proofs.Store.Distribution
import ClosedWorld.Proofs.Store.Scopes
import ClosedWorld.Proofs.Analysis.Schedule
import ClosedWorld.Proofs.Payload
import ClosedWorld.Proofs.Analysis.Instances
import ClosedWorld.Proofs.Analysis.Ends

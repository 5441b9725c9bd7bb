import Sequencer.Rehearsal.Run
import Sequencer.Settings.Load
import Sequencer.Proofs.Machine.WellFormed
import Sequencer.Proofs.Machine.Moves
import Sequencer.Proofs.Machine.Notices
import Sequencer.Proofs.Machine.Progress
import Sequencer.Proofs.Machine.Ledger
import Sequencer.Proofs.Machine.Balance
import Sequencer.Proofs.Machine.Conservation
import Sequencer.Proofs.Engine.Layers
import Sequencer.Proofs.Engine.Tracking
import Sequencer.Proofs.Engine.Safety
import Sequencer.Proofs.Structured.Performance
import Sequencer.Proofs.Structured.Launch
import Sequencer.Proofs.Engine.Locality
import Sequencer.Proofs.Engine.Completion
import Sequencer.Proofs.Engine.Isolation
import Sequencer.Proofs.Engine.Queueing
import Sequencer.Proofs.Engine.Timing
import Sequencer.Proofs.Engine.Rehearsals
import Sequencer.Proofs.Engine.Between
import Sequencer.Proofs.Program.Built
import Sequencer.Proofs.Engine.Bounds
import Sequencer.Proofs.Machine.Termination
import Sequencer.Proofs.Machine.Accounts
import Sequencer.Proofs.Engine.Panics
import Sequencer.Proofs.Engine.Reception
import Sequencer.Proofs.Machine.Direct
import Sequencer.Proofs.Machine.Parking
import Sequencer.Proofs.Program.Canonical
import Sequencer.Proofs.Program.Grammar
import Sequencer.Proofs.Machine.LoopErrors
import Sequencer.Proofs.Machine.Targets
import Sequencer.Proofs.Machine.Routes
import Sequencer.Proofs.Structured.Flat
import Sequencer.Proofs.Program.LabelTable
import Sequencer.Proofs.Program.Retyping
import Sequencer.Proofs.Program.DecidingKey
import Sequencer.Proofs.Program.Documents
import Sequencer.Proofs.Program.Spelling
import Sequencer.Proofs.Program.LoopBlocks
import Sequencer.Proofs.Program.Losses
import Sequencer.Proofs.Engine.Independence

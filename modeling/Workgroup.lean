import Workgroup.CommandLine.Folder
import Workgroup.Instrument.Plan
import Workgroup.Main
import Workgroup.Proofs.Barrier.Legality
import Workgroup.Proofs.Flow.LoopNesting
import Workgroup.Proofs.Flow.LoopDiscovery
import Workgroup.Proofs.Flow.Enclosure
import Workgroup.Proofs.Barrier.Insertion
import Workgroup.Proofs.Barrier.Qualification
import Workgroup.Proofs.Barrier.FunctionRun
import Workgroup.Proofs.Barrier.PipelineRun
import Workgroup.Proofs.Barrier.LoopDecision
import Workgroup.Proofs.Barrier.CompletePairs
import Workgroup.Proofs.Text.Reading
import Workgroup.Proofs.Text.Renumbering
import Workgroup.Proofs.Text.InstructionText
import Workgroup.Proofs.Text.ProgramText
import Workgroup.Proofs.Text.OutlineText
import Workgroup.Proofs.Text.RoundTrip
import Workgroup.Proofs.Text.Resolution
import Workgroup.Proofs.Text.WellFormed
import Workgroup.Proofs.Text.Respelling
import Workgroup.Proofs.Text.Reprinting
import Workgroup.Proofs.Barrier.Persistence
import Workgroup.Proofs.Barrier.Settled
import Workgroup.Proofs.Barrier.Renaming
import Workgroup.Proofs.Barrier.Feedback
import Workgroup.Proofs.Text.Verbatim
import Workgroup.Proofs.Barrier.Agreement
import Workgroup.Proofs.Barrier.Schedule
import Workgroup.Proofs.Pass.Visits
import Workgroup.Proofs.Pass.Staleness
import Workgroup.Proofs.Pass.Freshness
import Workgroup.Proofs.Barrier.PreservedAnalyses
import Workgroup.Proofs.Function.StructuralFaults
import Workgroup.Proofs.Pass.VisitOrder
import Workgroup.Proofs.Bounds.RunBounds
import Workgroup.Proofs.Barrier.Validity
import Workgroup.Proofs.Barrier.LoopBorder
import Workgroup.Proofs.Text.Lexemes
import Workgroup.Proofs.Function.Additions
import Workgroup.Proofs.Pass.Rounds
import Workgroup.Proofs.Pass.Assembly
import Workgroup.Proofs.Flow.StackSearch
import Workgroup.Proofs.Flow.Settling
import Workgroup.Proofs.Text.Layout
import Workgroup.Proofs.Text.Culprit
import Workgroup.Proofs.Flow.Edges
import Workgroup.Proofs.Flow.NumberedTable
import Workgroup.Proofs.Flow.NumberedTable
import Workgroup.Proofs.Flow.Edges
import Workgroup.Proofs.Text.FactOrder

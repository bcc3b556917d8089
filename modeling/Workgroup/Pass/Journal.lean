import Workgroup.Barrier.Decision
import Workgroup.Fault
import Workgroup.Flow.LoopForest
import Workgroup.Pass.AnalysisUsage

/-!
Contract: what a run of passes writes down.

A journal holds log entries in the order in which they were made, and notes of
a type chosen by whoever starts the run: oracles, factories and passes keep
their own state there.

Owns:
- log entries, their levels and their wordings;
- the journal.
-/

namespace Workgroup

inductive LogLevel where
  | trace
  | debug
  | warn
deriving DecidableEq, Repr

def LogLevel.name : LogLevel → String
  | .trace => "trace"
  | .debug => "debug"
  | .warn => "warn"

/-- One report of a run. -/
inductive LogEntry where
  /-- The loops of a function were found. -/
  | loopsFound (function : String) (loops topLevel : Nat)
  /-- A pipeline was assembled from passes of these names. -/
  | pipelineBuilt (names : List String)
  /-- A pass reported a change in a round, counted from zero. -/
  | roundChanged (round : Nat) (pass : String)
  /-- A loop pass reported a change of the loop at a header. -/
  | loopChanged (pass header function : String)
  /-- A loop pass was not run for lack of an analysis. -/
  | skipped (pass function : String) (missing : AnalysisKind)
  /-- A structural fault was found. -/
  | faultFound (function : String) (fault : Fault)
  /-- A loop that should have got barriers could not be given any. -/
  | notPlaced (function : String) (fault : Fault)
  /-- A decision about the barriers of a loop. -/
  | decided (function : String) (decision : BarrierDecision)
deriving DecidableEq, Repr

namespace LogEntry

def level : LogEntry → LogLevel
  | .loopsFound _ _ _ => .trace
  | .pipelineBuilt _ | .roundChanged _ _ | .loopChanged _ _ _ | .decided _ _ => .debug
  | .skipped _ _ _ | .faultFound _ _ | .notPlaced _ _ => .warn

def message : LogEntry → String
  | .loopsFound function loops topLevel =>
      s!"function '{function}': {loops} loop(s), {topLevel} top-level"
  | .pipelineBuilt names => "pipeline: " ++ String.intercalate ", " names
  | .roundChanged round pass => s!"round {round}: {pass} changed the module"
  | .loopChanged pass header function => s!"{pass} changed loop at '{header}' in '{function}'"
  | .skipped pass function missing =>
      s!"skipping {pass} on '{function}': required analysis '{missing.name}' is unavailable"
  | .faultFound function fault => s!"function '{function}': {fault.message}"
  | .notPlaced function fault => s!"{function}: cannot place loop barrier: {fault.message}"
  | .decided function decision => s!"{function}: {decision.message}"

end LogEntry

/-- The log and the notes of a run. -/
structure Journal (σ : Type) where
  log : List LogEntry
  notes : σ
deriving DecidableEq, Repr

namespace Journal

variable {σ : Type}

/-- A journal without entries. -/
def start (notes : σ) : Journal σ := ⟨[], notes⟩

/-- Writes an entry behind the others. -/
def write (journal : Journal σ) (entry : LogEntry) : Journal σ :=
  { journal with log := journal.log ++ [entry] }

/-- Writes entries behind the others. -/
def writeAll (journal : Journal σ) (entries : List LogEntry) : Journal σ :=
  { journal with log := journal.log ++ entries }

def setNotes (journal : Journal σ) (notes : σ) : Journal σ := { journal with notes := notes }

end Journal

/-- The report that the loops of a function were found. -/
def LoopForest.report (forest : LoopForest) (function : Function) : LogEntry :=
  .loopsFound function.name forest.loops.size forest.topLevel.length

end Workgroup

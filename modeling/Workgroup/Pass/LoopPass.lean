import Workgroup.Function.Edit
import Workgroup.Pass.Analyses
import Workgroup.Pass.Journal

/-!
Contract: passes over the loops of a function.

The loops are found once, before the first pass runs, and visited innermost
first; every loop sees all passes before the next loop is visited.  A pass
whose required analyses are not all available is skipped.  After a reported
change the analyses that the pass does not preserve are given up: dominators
are rebuilt at once, uniformity is stale from then on.

Owns:
- loop passes, what they are handed and what they answer;
- the visit of one loop by one pass;
- the run of loop passes over a function.
-/

namespace Workgroup

/-- What a loop pass is handed besides the loop and the function. -/
structure LoopContext (σ : Type) where
  /-- The handle of the function. -/
  function : FuncId
  graph : FlowGraph
  dominators : DominatorTree
  forest : LoopForest
  oracle : Oracle σ

/-- What a loop pass answers. -/
structure LoopOutcome (σ : Type) where
  /-- Whether the pass reports a change. -/
  changed : Bool
  function : Function
  journal : Journal σ

/-- A transformation of one loop at a time. -/
structure LoopPass (σ : Type) where
  name : String
  description : String
  usage : AnalysisUsage
  runOnLoop : LoopContext σ → Loop → Function → Journal σ → LoopOutcome σ

/-- The state of a run over the loops of one function. -/
structure LoopRun (σ : Type) where
  function : Function
  graph : FlowGraph
  dominators : DominatorTree
  analyses : Analyses σ
  journal : Journal σ
  /-- Whether some pass has reported a change. -/
  changed : Bool

namespace LoopRun

variable {σ : Type}

/-- What the next pass is handed. -/
def context (run : LoopRun σ) (handle : FuncId) (forest : LoopForest) : LoopContext σ where
  function := handle
  graph := run.graph
  dominators := run.dominators
  forest := forest
  oracle := run.analyses.oracleFor handle

/-- The first analysis that a pass requires and cannot be given. -/
def missing? (run : LoopRun σ) (handle : FuncId) (pass : LoopPass σ) : Option AnalysisKind :=
  pass.usage.required.find? fun kind => !run.analyses.isAvailable handle kind

/-- Takes over the answer of a pass that reports no change. -/
def keep (run : LoopRun σ) (outcome : LoopOutcome σ) : LoopRun σ :=
  { run with function := outcome.function, journal := outcome.journal }

/-- Takes over the answer of a pass that reports a change. -/
def accept (run : LoopRun σ) (handle : FuncId) (loop : Loop) (pass : LoopPass σ)
    (outcome : LoopOutcome σ) : LoopRun σ :=
  let graph :=
    if pass.usage.preserves .dominators then run.graph else outcome.function.graph
  { function := outcome.function
    graph := graph
    dominators :=
      if pass.usage.preserves .dominators then run.dominators else graph.dominators
    analyses := run.analyses.invalidate handle pass.usage
    journal := outcome.journal.write
      (.loopChanged pass.name (outcome.function.blockName loop.header) outcome.function.name)
    changed := true }

/-- Runs a pass on a loop, or skips it. -/
def visit (handle : FuncId) (forest : LoopForest) (loop : Loop) (run : LoopRun σ)
    (pass : LoopPass σ) : LoopRun σ :=
  match run.missing? handle pass with
  | some kind => { run with journal := run.journal.write (.skipped pass.name run.function.name kind) }
  | none =>
      let outcome := pass.runOnLoop (run.context handle forest) loop run.function run.journal
      if outcome.changed then run.accept handle loop pass outcome else run.keep outcome

/-- Runs all passes on one loop. -/
def visitLoop (handle : FuncId) (forest : LoopForest) (passes : List (LoopPass σ))
    (run : LoopRun σ) (loop : Loop) : LoopRun σ :=
  passes.foldl (LoopRun.visit handle forest loop) run

end LoopRun

/-- Runs loop passes over the loops of a function, innermost first. -/
def Function.runLoopPasses {σ : Type} (function : Function) (handle : FuncId)
    (passes : List (LoopPass σ)) (analyses : Analyses σ) (journal : Journal σ) : LoopRun σ :=
  let graph := function.graph
  let tree := graph.dominators
  let forest := graph.loopForest tree
  (forest.postorder.filterMap forest.loops.get?).foldl (LoopRun.visitLoop handle forest passes)
    { function := function
      graph := graph
      dominators := tree
      analyses := analyses
      journal := journal.write (forest.report function)
      changed := false }

end Workgroup

import Workgroup.KernelFilter
import Workgroup.Pass.LoopPass
import Workgroup.Text.Printer

/-!
Contract: implicit barriers for uniform innermost loops.

A barrier must be reached by all work-items of a group or by none, equally
often.  A loop of a selected kernel gets one barrier after the phis of its
header and one before the branch that leaves it if it has no barrier yet, no
nested loop, one exiting block, one entry, a uniform header, and a uniform
condition on a two-way branch at the exit.  Either both barriers are inserted
or the function stays as it was.

Owns:
- the structural checks, which depend on the loop and the function alone;
- the uniformity checks, which ask the oracle at most two questions;
- the insertion with its undoing, and the loop pass.
-/

namespace Workgroup

/-- A loop that passed the structural checks. -/
structure EligibleLoop where
  header : BlockId
  /-- The only block with an edge that leaves the loop. -/
  exiting : BlockId
deriving DecidableEq, Repr

namespace EligibleLoop

/-- The structural checks, in order: selected function, no barrier, innermost,
one exiting block, one entry. -/
def check (accepts : Function → Bool) (loop : Loop) (function : Function) (graph : FlowGraph)
    (tree : DominatorTree) : Except BarrierDecision EligibleLoop :=
  let label := function.blockName loop.header
  if !accepts function then .error .notKernel
  else if loop.blocks.toList.any function.containsBarrier then .error (.alreadySynchronized label)
  else if !loop.isInnermost then .error (.notInnermost label loop.subLoops.length)
  else
    match loop.uniqueExitingBlock? graph with
    | none => .error (.noUniqueExit label (loop.exitingBlocks graph).length)
    | some exiting =>
        match (loop.uniqueHeader? graph tree).filter function.blocks.contains with
        | none => .error (.noUniqueHeader label)
        | some header => .ok ⟨header, exiting⟩

/-- The terminator of the exiting block and its condition, if it is a two-way
branch. -/
def exitBranch? (eligible : EligibleLoop) (function : Function) : Option (InstId × Value) :=
  (function.terminator? eligible.exiting).bind fun terminator =>
    ((function.instructions.get? terminator).bind Instruction.branchCondition?).map fun condition =>
      (terminator, condition)

/-- The uniformity checks, in order: uniform header, two-way branch at the
exit, uniform condition.  The answer is the terminator of the exiting block. -/
def checkUniform {σ : Type} (eligible : EligibleLoop) (function : Function) (handle : FuncId)
    (oracle : Oracle σ) (notes : σ) : Except BarrierDecision InstId × σ :=
  let label := function.blockName eligible.header
  let header := oracle.block handle eligible.header notes
  if !header.1 then (.error (.headerNotUniform label), header.2)
  else
    match eligible.exitBranch? function with
    | none =>
        (.error (.exitNotConditional label (function.blockName eligible.exiting)), header.2)
    | some (terminator, condition) =>
        let exit := oracle.value handle condition header.2
        if !exit.1 then
          (.error (.conditionNotUniform label (function.valueName condition)), exit.2)
        else (.ok terminator, exit.2)

/-- Where the barriers go: before the exit branch, then behind the phis of the
header.  Both places name instructions that are there already, so the first
insertion does not move the second. -/
def points (eligible : EligibleLoop) (function : Function) (terminator : InstId) :
    List InsertPoint :=
  [.before eligible.exiting terminator, function.firstNonPhi eligible.header]

end EligibleLoop

/-- The first place that is not in the function. -/
def Function.misplacement? (function : Function) (points : List InsertPoint) : Option Fault :=
  points.findSome? fun point =>
    match function.position point with
    | .error fault => some fault
    | .ok _ => none

/-- The answer of a barrier factory.  A failure may leave a changed function. -/
structure FactoryAnswer (σ : Type) where
  result : Except Fault InstId
  function : Function
  notes : σ

/-- Creates a barrier at a place. -/
abbrev BarrierFactory (σ : Type) := InsertPoint → Function → σ → FactoryAnswer σ

/-- Inserts a plain barrier. -/
def BarrierFactory.group {σ : Type} : BarrierFactory σ := fun point function notes =>
  match function.insert point .barrier with
  | .error fault => ⟨.error fault, function, notes⟩
  | .ok (inserted, handle) => ⟨.ok handle, inserted, notes⟩

/-- What has become of several requests to a factory. -/
structure FactoryRun (σ : Type) where
  failure : Option Fault
  function : Function
  notes : σ

/-- Asks a factory for a barrier at each place, up to the first failure. -/
def BarrierFactory.runAll {σ : Type} (factory : BarrierFactory σ) :
    List InsertPoint → Function → σ → FactoryRun σ
  | [], function, notes => ⟨none, function, notes⟩
  | point :: rest, function, notes =>
      let answer := factory point function notes
      match answer.result with
      | .error fault => ⟨some fault, answer.function, answer.notes⟩
      | .ok _ => factory.runAll rest answer.function answer.notes

/-- Receives the decisions about the loops of a function of some name. -/
abbrev DecisionSink (σ : Type) := String → BarrierDecision → Journal σ → Journal σ

/-- Writes decisions into the log. -/
def DecisionSink.log {σ : Type} : DecisionSink σ := fun function decision journal =>
  journal.write (.decided function decision)

/-- The settings of the barrier pass. -/
structure BarrierPass (σ : Type) where
  accepts : Function → Bool
  factory : BarrierFactory σ
  sink : Option (DecisionSink σ)

namespace BarrierPass

variable {σ : Type}

/-- Plain barriers in the kernels that a filter selects. -/
def plain (filter : KernelFilter) (sink : Option (DecisionSink σ)) : BarrierPass σ where
  accepts := filter.accepts
  factory := .group
  sink := sink

/-- Hands a decision to the sink, if there is one. -/
def record (pass : BarrierPass σ) (function : Function) (decision : BarrierDecision)
    (journal : Journal σ) : Journal σ :=
  match pass.sink with
  | none => journal
  | some sink => sink function.name decision journal

/-- The structural checks, with a record of the failing one. -/
def checkEligibility (pass : BarrierPass σ) (context : LoopContext σ) (loop : Loop)
    (function : Function) (journal : Journal σ) : Option EligibleLoop × Journal σ :=
  match EligibleLoop.check pass.accepts loop function context.graph context.dominators with
  | .ok eligible => (some eligible, journal)
  | .error decision => (none, pass.record function decision journal)

/-- Inserts both barriers, or leaves the function as it was. -/
def place (pass : BarrierPass σ) (eligible : EligibleLoop) (terminator : InstId)
    (function : Function) (journal : Journal σ) : LoopOutcome σ :=
  let points := eligible.points function terminator
  match function.misplacement? points with
  | some fault => ⟨false, function, journal.write (.notPlaced function.name fault)⟩
  | none =>
      let run := pass.factory.runAll points function journal.notes
      match run.failure with
      | some fault =>
          let restored := run.function.truncateInstructions function.instructions.size
          ⟨false, restored, (journal.setNotes run.notes).write (.notPlaced restored.name fault)⟩
      | none =>
          let decision := BarrierDecision.inserted (run.function.blockName eligible.header)
            (run.function.blockName eligible.exiting)
          ⟨true, run.function, pass.record run.function decision (journal.setNotes run.notes)⟩

/-- The uniformity checks and, if they pass, the insertion. -/
def tryInsert (pass : BarrierPass σ) (context : LoopContext σ) (eligible : EligibleLoop)
    (function : Function) (journal : Journal σ) : LoopOutcome σ :=
  let checked :=
    eligible.checkUniform function context.function context.oracle journal.notes
  let journal := journal.setNotes checked.2
  match checked.1 with
  | .error decision => ⟨false, function, pass.record function decision journal⟩
  | .ok terminator => pass.place eligible terminator function journal

def runOnLoop (pass : BarrierPass σ) (context : LoopContext σ) (loop : Loop)
    (function : Function) (journal : Journal σ) : LoopOutcome σ :=
  match pass.checkEligibility context loop function journal with
  | (none, journal) => ⟨false, function, journal⟩
  | (some eligible, journal) => pass.tryInsert context eligible function journal

def name : String := "implicit-loop-barriers"

def description : String := "Adds implicit barriers to loops"

/-- The pass needs and keeps dominators and uniformity: barriers change neither
the edges between blocks nor what work-items compute. -/
def usage : AnalysisUsage :=
  ((((AnalysisUsage.empty.require .dominators).preserve .dominators).require
    .uniformity).preserve .uniformity)

def toLoopPass (pass : BarrierPass σ) : LoopPass σ where
  name := name
  description := description
  usage := usage
  runOnLoop := pass.runOnLoop

end BarrierPass

end Workgroup

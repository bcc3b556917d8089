import Workgroup.Instrument.Notebook
import Workgroup.Pass.Registry

/-!
Contract: pipelines put together by hand.

A plan lists the stages of a pipeline, among them instruments: countdowns that
report a change a given number of times, probes that look at every loop and
may edit it, and barrier passes whose factory fails on chosen requests.

Owns:
- the instruments as passes, factories and sinks;
- plans and the pipeline of a plan.
-/

namespace Workgroup

/-- Reports a change as often as its counter says. -/
def ModulePass.countdown (slot : Nat) : ModulePass Notebook where
  name := "countdown"
  run state :=
    let left := state.journal.notes.counter slot
    let notes := (state.journal.notes.observe (.counted left)).setCounter slot (left - 1)
    ⟨decide (0 < left), { state with journal := state.journal.setNotes notes }⟩

/-- Counts its requests from one and fails on the listed ones. -/
def BarrierFactory.failing (slot : Nat) (failures : List Nat) : BarrierFactory Notebook :=
  fun point function notes =>
    let request := notes.counter slot + 1
    let counted := notes.setCounter slot request
    if failures.contains request then
      ⟨.error (.missingTerminator (function.blockName point.block)), function, counted⟩
    else BarrierFactory.group point function counted

/-- How a probe edits the function of a loop. -/
inductive ProbeEdit where
  /-- Inserts a barrier behind the phis of the header. -/
  | barrier
  /-- Overwrites the terminator of a block. -/
  | terminator (block : BlockId) (instruction : Instruction)
deriving DecidableEq, Repr

/-- Applies an edit, if its place exists. -/
def ProbeEdit.apply? (edit : ProbeEdit) (function : Function) (header : BlockId) :
    Option Function :=
  match edit with
  | .barrier =>
      match function.insert (function.firstNonPhi header) .barrier with
      | .ok (edited, _) => some edited
      | .error _ => none
  | .terminator block instruction =>
      (function.terminator? block).bind fun terminator =>
        function.setInstruction? terminator instruction

/-- The settings of a probe. -/
structure Probe where
  name : String
  requires : List AnalysisKind
  preserves : List AnalysisKind
  /-- Edits only loops with this header. -/
  only : Option BlockId
  edit : Option ProbeEdit
  /-- Reports this, whatever was edited. -/
  report : Option Bool
deriving DecidableEq, Repr

namespace Probe

def usage (probe : Probe) : AnalysisUsage :=
  probe.preserves.foldl AnalysisUsage.preserve
    (probe.requires.foldl AnalysisUsage.require .empty)

/-- What the probe sees of a loop whose header is uniform or not. -/
def sight (probe : Probe) (context : LoopContext Notebook) (loop : Loop) (uniform : Bool) :
    LoopSight where
  probe := probe.name
  function := context.function
  header := loop.header
  loops := context.forest.loops.size
  exiting := loop.exitingBlocks context.graph
  latches := loop.latches context.graph
  uniqueHeader := loop.uniqueHeader? context.graph context.dominators
  idom := context.dominators.idom? loop.header
  uniform := uniform

/-- The function after the edit, if the loop is to be edited. -/
def edited? (probe : Probe) (loop : Loop) (function : Function) : Option Function :=
  if probe.only.all (· == loop.header) then
    probe.edit.bind fun edit => edit.apply? function loop.header
  else none

def toLoopPass (probe : Probe) : LoopPass Notebook where
  name := probe.name
  description := ""
  usage := probe.usage
  runOnLoop context loop function journal :=
    let uniform := context.oracle.block context.function loop.header journal.notes
    let notes := uniform.2.observe (.probed (probe.sight context loop uniform.1))
    let edited := probe.edited? loop function
    ⟨probe.report.getD edited.isSome, edited.getD function, journal.setNotes notes⟩

end Probe

/-- A barrier pass of a plan. -/
structure BarrierPlan where
  /-- Selects the kernel of this name only. -/
  kernel : Option String
  /-- The requests on which the factory fails; without a list it never does. -/
  failures : Option (List Nat)
  /-- Decisions go to the log instead of the notebook. -/
  logged : Bool
deriving DecidableEq, Repr

namespace BarrierPlan

/-- The pass of a plan, whose factory counts in a slot. -/
def pass (plan : BarrierPlan) (slot : Nat) : BarrierPass Notebook where
  accepts := (KernelFilter.mk plan.kernel).accepts
  factory :=
    match plan.failures with
    | none => .group
    | some failures => .failing slot failures
  sink := some (if plan.logged then .log else .collect)

end BarrierPlan

/-- A loop pass of a plan. -/
inductive LoopPlan where
  | barriers (plan : BarrierPlan)
  | probe (settings : Probe)
deriving DecidableEq, Repr

/-- A stage of a plan. -/
inductive StagePlan where
  | verify
  | countdown (budget : Nat)
  | loops (passes : List LoopPlan)
deriving DecidableEq, Repr

/-- Builds a loop pass; every pass takes one slot. -/
def LoopPlan.build (passes : List (LoopPass Notebook) × Notebook) (plan : LoopPlan) :
    List (LoopPass Notebook) × Notebook :=
  let pass :=
    match plan with
    | .barriers plan => (plan.pass passes.2.counters.length).toLoopPass
    | .probe settings => settings.toLoopPass
  (passes.1 ++ [pass], passes.2.openCounter 0)

/-- Builds a stage and opens its counters. -/
def StagePlan.build (stages : List (Stage Notebook) × Notebook) (plan : StagePlan) :
    List (Stage Notebook) × Notebook :=
  match plan with
  | .verify => (stages.1 ++ [.module .verify], stages.2)
  | .countdown budget =>
      (stages.1 ++ [.module (.countdown stages.2.counters.length)], stages.2.openCounter budget)
  | .loops passes =>
      let built := passes.foldl LoopPlan.build ([], stages.2)
      (stages.1 ++ [.loops built.1], built.2)

/-- The pipeline of a plan and the notebook with which it starts. -/
def Pipeline.ofPlan (plan : List StagePlan) (maxRounds : Nat) : Pipeline Notebook × Notebook :=
  let built := plan.foldl StagePlan.build ([], Notebook.empty)
  (⟨built.1, maxRounds⟩, built.2)

end Workgroup

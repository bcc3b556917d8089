import Workgroup.Pass.Pipeline
import Workgroup.Proofs.Bounds.BarrierBounds
import Workgroup.Proofs.Bounds.LoopBounds
import Workgroup.Proofs.Flow.LoopNesting

/-!
Contract: no index is out of range, whatever the functions of a module look like.

The analyses of a function and a run of barrier passes are put together from the
guarded forms of their parts.  They succeed on every function, broken ones
included, and yield what the definitions yield.  The checks of a function and its
printed form take no part: they ask for every block, instruction and operand and
can do without an answer.

Owns:
- loop passes that come with a guarded form;
- the run of loop passes over a module in guarded form;
- the bounds of the analyses and of every run of barrier passes.
-/

namespace Workgroup

section Runs

variable {σ : Type}

/-- A loop pass and a guarded form of its visits that always succeeds. -/
structure GuardedLoopPass (σ : Type) extends LoopPass σ where
  guardedRun : LoopContext σ → Loop → Function → Journal σ → Guarded (LoopOutcome σ)
  guardedRun_eq : ∀ context loop function journal,
    guardedRun context loop function journal = .ok (runOnLoop context loop function journal)

/-- The barrier pass with plain barriers. -/
def BarrierPass.toGuarded (pass : BarrierPass σ) : GuardedLoopPass σ where
  toLoopPass := pass.withPlainBarriers.toLoopPass
  guardedRun := pass.guardedRunOnLoop
  guardedRun_eq := pass.guardedRunOnLoop_eq

/-! ## The visits -/

namespace LoopRun

/-- Takes over the answer of a pass that reports a change.  What the pass does not
preserve is built again from the changed function. -/
def guardedAccept (run : LoopRun σ) (handle : FuncId) (loop : Loop) (pass : LoopPass σ)
    (outcome : LoopOutcome σ) : Guarded (LoopRun σ) :=
  let accepted (graph : FlowGraph) (tree : DominatorTree) : LoopRun σ :=
    { function := outcome.function
      graph := graph
      dominators := tree
      analyses := run.analyses.invalidate handle pass.usage
      journal := outcome.journal.write
        (.loopChanged pass.name (outcome.function.blockName loop.header) outcome.function.name)
      changed := true }
  if pass.usage.preserves .dominators then .ok (accepted run.graph run.dominators)
  else do
    let graph ← outcome.function.guardedGraph
    let tree ← graph.guardedDominators
    .ok (accepted graph tree)

/-- Runs a pass on a loop, or skips it. -/
def guardedVisit (handle : FuncId) (forest : LoopForest) (loop : Loop) (run : LoopRun σ)
    (pass : GuardedLoopPass σ) : Guarded (LoopRun σ) :=
  match run.missing? handle pass.toLoopPass with
  | some kind =>
      .ok { run with journal := run.journal.write (.skipped pass.name run.function.name kind) }
  | none => do
      let outcome ← pass.guardedRun (run.context handle forest) loop run.function run.journal
      if outcome.changed then run.guardedAccept handle loop pass.toLoopPass outcome
      else .ok (run.keep outcome)

/-- Runs all passes on one loop. -/
def guardedVisitLoop (handle : FuncId) (forest : LoopForest) (passes : List (GuardedLoopPass σ))
    (run : LoopRun σ) (loop : Loop) : Guarded (LoopRun σ) :=
  passes.foldlM (guardedVisit handle forest loop) run

theorem guardedAccept_eq (run : LoopRun σ) (handle : FuncId) (loop : Loop) (pass : LoopPass σ)
    (outcome : LoopOutcome σ) :
    run.guardedAccept handle loop pass outcome = .ok (run.accept handle loop pass outcome) := by
  unfold guardedAccept accept
  cases pass.usage.preserves .dominators with
  | true => rfl
  | false =>
      simp only [Function.guardedGraph_eq, Guarded.ok_bind,
        FlowGraph.guardedDominators_eq outcome.function.coherent_graph, Bool.false_eq_true,
        if_false]

theorem guardedVisit_eq (handle : FuncId) (forest : LoopForest) (loop : Loop) (run : LoopRun σ)
    (pass : GuardedLoopPass σ) :
    run.guardedVisit handle forest loop pass =
      .ok (run.visit handle forest loop pass.toLoopPass) := by
  unfold guardedVisit visit
  cases run.missing? handle pass.toLoopPass with
  | some kind => rfl
  | none =>
      dsimp only
      rw [pass.guardedRun_eq, Guarded.ok_bind, guardedAccept_eq]
      split <;> rfl

theorem guardedVisitLoop_eq (handle : FuncId) (forest : LoopForest)
    (passes : List (GuardedLoopPass σ)) (run : LoopRun σ) (loop : Loop) :
    run.guardedVisitLoop handle forest passes loop =
      .ok (run.visitLoop handle forest (passes.map GuardedLoopPass.toLoopPass) loop) := by
  unfold guardedVisitLoop visitLoop
  rw [List.foldl_map]
  exact Guarded.foldlM_eq_ok (fun run pass _ => run.guardedVisit_eq handle forest loop pass) run

end LoopRun

/-! ## The run -/

/-- Runs loop passes over the loops of a function, innermost first. -/
def Function.guardedRunLoopPasses (function : Function) (handle : FuncId)
    (passes : List (GuardedLoopPass σ)) (analyses : Analyses σ) (journal : Journal σ) :
    Guarded (LoopRun σ) := do
  let graph ← function.guardedGraph
  let tree ← graph.guardedDominators
  let forest ← graph.guardedLoopForest tree
  let order ← forest.guardedPostorder
  (order.filterMap forest.loops.get?).foldlM (LoopRun.guardedVisitLoop handle forest passes)
    { function := function
      graph := graph
      dominators := tree
      analyses := analyses
      journal := journal.write (forest.report function)
      changed := false }

theorem Function.guardedRunLoopPasses_eq (function : Function) (handle : FuncId)
    (passes : List (GuardedLoopPass σ)) (analyses : Analyses σ) (journal : Journal σ) :
    function.guardedRunLoopPasses handle passes analyses journal =
      .ok (function.runLoopPasses handle (passes.map GuardedLoopPass.toLoopPass) analyses
        journal) := by
  have coherent := function.coherent_graph
  have nests := function.graph.nests_loopForest function.graph.dominators
  unfold guardedRunLoopPasses runLoopPasses
  simp only [guardedGraph_eq, FlowGraph.guardedDominators_eq coherent,
    FlowGraph.guardedLoopForest_eq coherent, nests.guardedPostorder_eq, Guarded.ok_bind]
  exact Guarded.foldlM_eq_ok (fun run loop _ => run.guardedVisitLoop_eq handle _ passes loop) _

namespace PassState

/-- Runs loop passes over one function; a declaration is left alone. -/
def guardedRunOnFunction (passes : List (GuardedLoopPass σ)) (outcome : PassOutcome σ)
    (handle : FuncId) : Guarded (PassOutcome σ) :=
  match outcome.state.module.functions.get? handle with
  | none => .ok outcome
  | some function =>
      if function.isDeclaration then .ok outcome
      else do
        let run ← function.guardedRunLoopPasses handle passes outcome.state.analyses
          outcome.state.journal
        let module : Module := ⟨outcome.state.module.functions.set handle run.function⟩
        .ok ⟨outcome.changed || run.changed, ⟨module, run.analyses, run.journal⟩⟩

/-- Runs loop passes over every function, in ascending order. -/
def guardedRunLoopPasses (state : PassState σ) (passes : List (GuardedLoopPass σ)) :
    Guarded (PassOutcome σ) :=
  state.module.functions.handles.foldlM (guardedRunOnFunction passes) ⟨false, state⟩

theorem guardedRunOnFunction_eq (passes : List (GuardedLoopPass σ)) (outcome : PassOutcome σ)
    (handle : FuncId) :
    guardedRunOnFunction passes outcome handle =
      .ok (runOnFunction (passes.map GuardedLoopPass.toLoopPass) outcome handle) := by
  unfold guardedRunOnFunction runOnFunction
  cases outcome.state.module.functions.get? handle with
  | none => rfl
  | some function =>
      dsimp only
      rw [function.guardedRunLoopPasses_eq, Guarded.ok_bind]
      split <;> rfl

theorem guardedRunLoopPasses_eq (state : PassState σ) (passes : List (GuardedLoopPass σ)) :
    state.guardedRunLoopPasses passes =
      .ok (state.runLoopPasses (passes.map GuardedLoopPass.toLoopPass)) :=
  Guarded.foldlM_eq_ok (fun outcome handle _ => guardedRunOnFunction_eq passes outcome handle) _

end PassState

/-! ## Any function -/

/-- The table of positions that the climbs of a graph compare. -/
def FlowGraph.numbers (graph : FlowGraph) : List Nat :=
  tabulate graph.size (DominatorTree.rankIn graph.reversePostorder)

/-- The analyses of a function succeed in their guarded forms and yield what the
definitions yield.  Their recursions stay in range however far they are followed,
so it is not a lack of fuel that keeps them there. -/
structure Function.InRange (function : Function) : Prop where
  graph : function.guardedGraph = .ok function.graph
  reversePostorder : function.graph.guardedReversePostorder = .ok function.graph.reversePostorder
  dominators : function.graph.guardedDominators = .ok function.graph.dominators
  loopForest : function.graph.guardedLoopForest function.graph.dominators =
    .ok (function.graph.loopForest function.graph.dominators)
  postorder : (function.graph.loopForest function.graph.dominators).guardedPostorder =
    .ok (function.graph.loopForest function.graph.dominators).postorder
  search : ∀ fuel search, ∀ block < function.graph.size, ∃ marking,
    Marking.visit function.graph fuel (.ofSearch function.graph.size search) block = .ok marking
  climb : ∀ fuel parents, DominatorTree.Closed function.graph.size parents →
    ∀ left < function.graph.size, ∀ right < function.graph.size, ∃ common,
      DominatorTree.guardedMeet function.graph.numbers parents fuel left right = .ok common
  settle : ∀ fuel parents, DominatorTree.Closed function.graph.size parents →
    function.graph.reversePostorder ≠ [] → ∃ settled,
      DominatorTree.guardedSettle function.graph function.graph.reversePostorder
        function.graph.numbers fuel parents = .ok settled
  nested : ∀ fuel order,
    ∀ handle < (function.graph.loopForest function.graph.dominators).loops.size, ∃ longer,
      (function.graph.loopForest function.graph.dominators).guardedNested fuel order handle =
        .ok longer

theorem Function.inRange (function : Function) : function.InRange where
  graph := function.guardedGraph_eq
  reversePostorder := FlowGraph.guardedReversePostorder_eq function.coherent_graph
  dominators := FlowGraph.guardedDominators_eq function.coherent_graph
  loopForest := FlowGraph.guardedLoopForest_eq function.coherent_graph _
  postorder := (function.graph.nests_loopForest _).guardedPostorder_eq
  search := fun fuel search _ below =>
    ⟨_, Marking.visit_ofSearch function.coherent_graph fuel search below⟩
  climb := fun fuel _ closed _ leftBelow _ rightBelow =>
    ⟨_, DominatorTree.guardedMeet_eq closed fuel leftBelow rightBelow⟩
  settle := fun fuel _ closed notEmpty =>
    ⟨_, DominatorTree.guardedSettle_eq function.coherent_graph closed
      function.coherent_graph.nodup_reversePostorder.2 notEmpty fuel⟩
  nested := fun fuel order _ below =>
    ⟨_, (function.graph.nests_loopForest _).guardedNested_eq fuel order below⟩

/-- No analysis of a function and no run of barrier passes over a module uses an
index out of range.  The oracle is part of the state and answers as it likes. -/
theorem PassState.indices_inRange (state : PassState σ) (passes : List (BarrierPass σ)) :
    (∀ function : Function, function.InRange) ∧
      state.guardedRunLoopPasses (passes.map BarrierPass.toGuarded) =
        .ok (state.runLoopPasses
          (passes.map fun pass => pass.withPlainBarriers.toLoopPass)) := by
  refine ⟨Function.inRange, ?_⟩
  rw [guardedRunLoopPasses_eq, List.map_map]
  rfl

end Runs

end Workgroup

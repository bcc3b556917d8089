import Workgroup.Instrument.Plan
import Workgroup.Proofs.Barrier.Synchronization
import Workgroup.Proofs.Flow.Enclosure
import Workgroup.Proofs.Pass.Visits

/-!
Contract: the graph and the dominators that passes are handed are those of the
function at that moment.

They are rebuilt after a reported change by a pass that does not preserve
dominators and at no other time.  This suffices if no pass alters an edge
without such a report; passes may then lie about anything else.

Owns:
- functions whose edges differ, and passes that disclose it;
- the freshness of a run, kept by a visit and by a chain of visits.
-/

namespace Workgroup

/-- The functions differ in the number of blocks or the successors of one. -/
def Function.EdgesDiffer (before after : Function) : Prop :=
  after.blocks.size ≠ before.blocks.size ∨
    ∃ block, after.successors block ≠ before.successors block

theorem Function.not_edgesDiffer_self (function : Function) : ¬ function.EdgesDiffer function := by
  rintro (size | ⟨block, successors⟩)
  · exact size rfl
  · exact successors rfl

theorem Function.graph_eq_of_not_edgesDiffer {before after : Function}
    (same : ¬ before.EdgesDiffer after) : after.graph = before.graph := by
  obtain ⟨sameSize, sameSuccessors⟩ := not_or.1 same
  exact graph_eq_of_successors (not_not.1 sameSize)
    (funext fun block => not_not.1 (not_exists.1 sameSuccessors block))

section Freshness

variable {σ : Type}

/-- Whenever the pass alters edges it reports a change and gives dominators up. -/
def LoopPass.DisclosesEdges (pass : LoopPass σ) : Prop :=
  ∀ context loop function journal,
    function.EdgesDiffer (pass.runOnLoop context loop function journal).function →
    (pass.runOnLoop context loop function journal).changed = true ∧
      pass.usage.preserves .dominators = false

/-- If the pass runs and alters edges, it reports a change and gives dominators up. -/
def Visit.DisclosesEdges (visit : Visit σ) : Prop :=
  visit.invoked = true → visit.before.function.EdgesDiffer visit.outcome.function →
    visit.outcome.changed = true ∧ visit.pass.usage.preserves .dominators = false

/-- The graph and the dominators of a run are those of its function. -/
structure LoopRun.Fresh (run : LoopRun σ) : Prop where
  graph_eq : run.graph = run.function.graph
  dominators_eq : run.dominators = run.function.graph.dominators

/-! ## Freshness is kept -/

namespace LoopRun.Fresh

theorem start (function : Function) (analyses : Analyses σ) (journal : Journal σ) :
    (LoopRun.start function analyses journal).Fresh :=
  ⟨rfl, rfl⟩

variable {run : LoopRun σ} {outcome : LoopOutcome σ}

/-- The answer of a pass that leaves the edges alone. -/
theorem keep (fresh : run.Fresh) (same : ¬ run.function.EdgesDiffer outcome.function) :
    (run.keep outcome).Fresh := by
  have graph_eq := Function.graph_eq_of_not_edgesDiffer same
  refine ⟨?_, ?_⟩
  · exact fresh.graph_eq.trans graph_eq.symm
  · exact fresh.dominators_eq.trans (congrArg FlowGraph.dominators graph_eq.symm)

/-- The answer of a pass that reports a change: if it preserves dominators, it
has left the edges alone, and otherwise everything is rebuilt. -/
theorem accept (fresh : run.Fresh) {handle : FuncId} {loop : Loop} {pass : LoopPass σ}
    (discloses : run.function.EdgesDiffer outcome.function →
      pass.usage.preserves .dominators = false) :
    (run.accept handle loop pass outcome).Fresh := by
  unfold LoopRun.accept
  cases preserves : pass.usage.preserves .dominators with
  | false => exact ⟨rfl, rfl⟩
  | true =>
      have same : ¬ run.function.EdgesDiffer outcome.function := fun differ =>
        absurd (preserves.symm.trans (discloses differ)) nofun
      have kept := fresh.keep same
      exact ⟨kept.graph_eq, kept.dominators_eq⟩

theorem after {visit : Visit σ} (fresh : visit.before.Fresh) (discloses : visit.DisclosesEdges) :
    visit.after.Fresh := by
  obtain ⟨journal, -, after_eq⟩ | ⟨invoked, unchanged, after_eq⟩ | ⟨invoked, -, after_eq⟩ :=
    visit.after_cases
  · rw [after_eq]
    exact ⟨fresh.graph_eq, fresh.dominators_eq⟩
  · rw [after_eq]
    refine fresh.keep fun differ => ?_
    exact absurd (unchanged.symm.trans (discloses invoked differ).1) nofun
  · rw [after_eq]
    exact fresh.accept fun differ => (discloses invoked differ).2

/-- Along a chain of visits that disclose what they do, each finds a fresh run. -/
theorem chained {begin stop : LoopRun σ} {visits : List (Visit σ)} (fresh : begin.Fresh)
    (chained : Chained id begin visits stop) (disclose : ∀ visit ∈ visits, visit.DisclosesEdges) :
    ∀ visit ∈ visits, visit.before.Fresh := by
  induction chained with
  | done => exact fun _ member => absurd member List.not_mem_nil
  | next visit _ inductionHypothesis =>
      obtain ⟨discloses, discloseRest⟩ := List.forall_mem_cons.1 disclose
      exact List.forall_mem_cons.2
        ⟨fresh, inductionHypothesis (fresh.after discloses) discloseRest⟩

end LoopRun.Fresh

/-! ## Passes that disclose what they do -/

/-- The visits of passes that disclose what they do. -/
theorem PassState.visits_disclose {passes : List (LoopPass σ)}
    (disclose : ∀ pass ∈ passes, pass.DisclosesEdges) (state : PassState σ) :
    ∀ visit ∈ state.visits passes, visit.DisclosesEdges := by
  apply forall_mem_visits
  intro function handle analyses journal _
  apply forall_mem_collect
  intro run loop _ _
  apply forall_mem_collect
  intro run pass listed _ visit member
  cases List.mem_singleton.1 member
  exact fun _ => disclose pass listed _ _ _ _

/-- A probe that reports its edits and preserves no dominators. -/
theorem Probe.disclosesEdges {probe : Probe} (candid : probe.report = none)
    (givesUp : probe.usage.preserves .dominators = false) : probe.toLoopPass.DisclosesEdges := by
  intro context loop function journal differ
  refine ⟨?_, givesUp⟩
  unfold toLoopPass at differ ⊢
  dsimp only at differ ⊢
  rw [candid]
  cases edited : probe.edited? loop function with
  | some _ => rfl
  | none =>
      rw [edited] at differ
      exact absurd differ function.not_edgesDiffer_self

/-- If all visits of a module disclose what they do, each hands its pass the
graph and the dominators of the function as it is then. -/
theorem PassState.visits_fresh (state : PassState σ) (passes : List (LoopPass σ))
    (disclose : ∀ visit ∈ state.visits passes, visit.DisclosesEdges) :
    ∀ visit ∈ state.visits passes, visit.context.graph = visit.before.function.graph ∧
      visit.context.dominators = visit.before.function.graph.dominators := by
  have fresh : ∀ visit ∈ state.visits passes, visit.before.Fresh := by
    apply forall_mem_visits
    intro function handle analyses journal part
    exact (LoopRun.Fresh.start function analyses journal).chained
      (function.visits_chained handle passes analyses journal)
      fun visit member => disclose visit (part member)
  intro visit member
  exact ⟨(fresh visit member).graph_eq, (fresh visit member).dominators_eq⟩

end Freshness

namespace NestedSpin

/-- Lets the block that spins go on, and says so. -/
def release : Probe := ⟨"release", [], [], some 2, some (.terminator 2 (.branch 3)), none⟩

def started : PassState Notebook := ⟨⟨⟨[kernel]⟩⟩, .unsupplied, .start .empty⟩

theorem one_lt_visits : 1 < (started.visits [release.toLoopPass]).length := by decide +kernel

/-- The visit of the outer loop, after the inner one. -/
def outerVisit : Visit Notebook := (started.visits [release.toLoopPass]).get ⟨1, one_lt_visits⟩

/-- The pass sees at the outer loop what it has done to the inner one. -/
theorem released_seen : outerVisit ∈ started.visits [release.toLoopPass] ∧
    outerVisit.invoked = true ∧ outerVisit.loop.header = 1 ∧
    outerVisit.context.graph ≠ kernel.graph ∧
    outerVisit.context.graph = outerVisit.before.function.graph ∧
    outerVisit.context.dominators = outerVisit.before.function.graph.dominators := by
  have disclose : ∀ pass ∈ [release.toLoopPass], pass.DisclosesEdges := by
    intro pass member
    rw [List.mem_singleton.1 member]
    exact Probe.disclosesEdges rfl rfl
  have member : outerVisit ∈ started.visits [release.toLoopPass] := List.get_mem _ _
  obtain ⟨graph_eq, dominators_eq⟩ := started.visits_fresh [release.toLoopPass]
    (started.visits_disclose disclose) outerVisit member
  exact ⟨member, by decide +kernel, by decide +kernel, by decide +kernel, graph_eq, dominators_eq⟩

end NestedSpin

end Workgroup

import Workgroup.Proofs.Flow.LoopNesting

/-!
Contract: the loops that are found are the natural loops, all of them and
nothing else.

A header is a block with a latch.  The forest stores one loop for each header;
its blocks, its latches and its header are described by walks, without the
search that found them.

Owns:
- the latches of a natural loop, as a set and as a list;
- the headers of the forest;
- the exactness of the forest of a function.
-/

namespace Workgroup

/-- Predecessors are listed in ascending order. -/
theorem Function.pairwise_predecessors (function : Function) (block : BlockId) :
    (function.graph.predecessors block).Pairwise (· < ·) := by
  unfold graph
  rw [FlowGraph.predecessors_ofSuccessors]
  split
  · exact List.pairwise_lt_range.filter _
  · exact List.Pairwise.nil

namespace FlowGraph

variable {graph : FlowGraph} {header latch : BlockId}

/-- The latches of a natural loop are the blocks of the loop with an edge to
the header. -/
theorem Coherent.mem_latches (coherent : graph.Coherent) {loop : Loop}
    (natural : loop.Natural graph) :
    latch ∈ loop.latches graph ↔ graph.IsLatch loop.header latch := by
  unfold Loop.latches
  rw [List.mem_filter, coherent.mem_predecessors, Loop.contains_iff]
  constructor
  · intro ⟨edge, member⟩
    exact ⟨edge, natural.dominates member⟩
  · intro isLatch
    exact ⟨isLatch.1, (natural.mem_iff latch).2 isLatch.inLoop⟩

/-- The forest has a loop for every block with a latch. -/
theorem Coherent.exists_loop (coherent : graph.Coherent) (isLatch : graph.IsLatch header latch) :
    ∃ handle loop, (graph.loopForest graph.dominators).loops.get? handle = some loop ∧
      loop.header = header := by
  have lists := LoopForest.lists_bodies coherent
  obtain ⟨body, listed, rfl⟩ := List.mem_map.1 (lists.complete header latch isLatch)
  obtain ⟨handle, isBody⟩ := List.mem_iff_getElem?.1 listed
  have stored := (LoopForest.foldl_adopt (LoopForest.bodies graph graph.dominators)).2 handle
  rw [isBody] at stored
  obtain ⟨loop, isLoop, same⟩ := Option.map_eq_some_iff.1 stored
  exact ⟨handle, loop, isLoop, congrArg Prod.fst same⟩

end FlowGraph

/-- The forest of a function holds its natural loops.  Every block with a latch
is the header of exactly one loop.  Of every loop, the header has a latch; the
blocks are the header and the reachable blocks from which a walk around the
header leads to a latch, and the header dominates them all; the latches are
listed once each, in ascending order. -/
theorem Function.loopForest_exact (function : Function) :
    (∀ header latch, function.graph.IsLatch header latch →
      ∃! handle, ((function.graph.loopForest function.graph.dominators).loops.get? handle).map
        Loop.header = some header) ∧
    ∀ handle loop,
      (function.graph.loopForest function.graph.dominators).loops.get? handle = some loop →
      (∃ latch, function.graph.IsLatch loop.header latch) ∧
      (∀ block, block ∈ loop.blocks ↔ function.graph.InLoop loop.header block) ∧
      (∀ block ∈ loop.blocks, function.graph.Dominates loop.header block) ∧
      (∀ latch, latch ∈ loop.latches function.graph ↔
        function.graph.IsLatch loop.header latch) ∧
      (loop.latches function.graph).Pairwise (· < ·) := by
  have coherent := function.coherent_graph
  constructor
  · intro header latch isLatch
    obtain ⟨handle, loop, isLoop, isHeader⟩ := coherent.exists_loop isLatch
    refine ⟨handle, by simp [isLoop, isHeader], fun other sameHeader => ?_⟩
    obtain ⟨inner, isInner, innerHeader⟩ := Option.map_eq_some_iff.1 sameHeader
    exact coherent.eq_of_header_eq isInner isLoop (innerHeader.trans isHeader.symm)
  · intro handle loop isLoop
    have natural := coherent.natural isLoop
    have ascending : (loop.latches function.graph).Pairwise (· < ·) :=
      (function.pairwise_predecessors loop.header).filter _
    exact ⟨natural.latched, natural.mem_iff, fun block => natural.dominates,
      fun latch => coherent.mem_latches natural, ascending⟩

/-! ## A header with two latches -/

namespace MergedLatches

/-- The header goes to two blocks that both come back; one of them leaves, and
one is also the target of an unreachable block. -/
def kernel : Function where
  name := "k"
  kind := .kernel
  arguments := [⟨"c", .bool⟩]
  blocks := ⟨[⟨some "entry", [0]⟩, ⟨some "header", [1]⟩, ⟨some "left", [2]⟩,
    ⟨some "right", [3]⟩, ⟨some "exit", [4]⟩, ⟨some "dead", [5]⟩]⟩
  instructions := ⟨[.branch 1, .condBranch (.argument 0) 2 3, .condBranch (.argument 0) 1 4,
    .branch 1, .ret none, .branch 3]⟩
  valueNames := .empty

/-- The loop of the kernel. -/
def loop : Loop := ⟨1, .ofList [1, 2, 3], none, [], 1⟩

theorem is_loop : (kernel.graph.loopForest kernel.graph.dominators).loops.get? 0 = some loop := by
  decide +kernel

/-- Both latches belong to the one loop, and the unreachable block does not. -/
theorem latches_merged : (kernel.graph.loopForest kernel.graph.dominators).loops.get? 0 = some loop ∧
    (∀ latch, latch ∈ [2, 3] ↔ kernel.graph.IsLatch 1 latch) ∧
    (∃! handle, ((kernel.graph.loopForest kernel.graph.dominators).loops.get? handle).map
      Loop.header = some 1) ∧
    ¬ kernel.graph.InLoop 1 5 := by
  have exact := kernel.loopForest_exact
  obtain ⟨-, mem_iff, -, mem_latches, -⟩ := exact.2 0 loop is_loop
  have latches_eq : loop.latches kernel.graph = [2, 3] := by decide +kernel
  rw [latches_eq] at mem_latches
  have isLatch : kernel.graph.IsLatch 1 2 := (mem_latches 2).1 (by decide)
  refine ⟨is_loop, mem_latches, exact.1 1 2 isLatch, fun inLoop => ?_⟩
  exact absurd ((mem_iff 5).2 inLoop) (by decide +kernel)

end MergedLatches

end Workgroup

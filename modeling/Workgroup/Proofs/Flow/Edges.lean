import Mathlib.Data.List.Sort
import Workgroup.Proofs.Bounds.GraphBounds
import Workgroup.Proofs.Function.StructuralFaults

/-!
Contract: the edges of a function, listed from either end.

A block leads to a target if the terminator at its end names the target.  The
tables of the graph list every edge between existing blocks once at its start and
once at its end, however often the terminator names the target.  The order of
both lists is fixed: targets stand as the terminator first names them, sources
ascend.  One pair of tables meets all of this, and it is the one that entering
the edges block by block and target by target leaves.

Owns:
- edges, read off the instructions at the ends of the blocks;
- the order of first mention;
- tables that list the edges of a function, and the only ones that do.
-/

namespace Workgroup

/-! ## First mentions -/

/-- An order by first mention stays the same behind a head that is not listed. -/
theorem pairwise_idxOf_cons {head : Nat} {tail listed : List Nat}
    (different : ∀ value ∈ listed, value ≠ head)
    (inOrder : listed.Pairwise fun first second => tail.idxOf first < tail.idxOf second) :
    listed.Pairwise fun first second =>
      (head :: tail).idxOf first < (head :: tail).idxOf second := by
  refine inOrder.imp_of_mem fun {first second} isFirst isSecond earlier => ?_
  rw [List.idxOf_cons_ne _ (different first isFirst).symm,
    List.idxOf_cons_ne _ (different second isSecond).symm]
  exact Nat.succ_lt_succ earlier

/-- Values that pass a test are listed in the order in which they are first
mentioned among all values. -/
theorem pairwise_firstMentions_filter (keep : Nat → Bool) (values : List Nat) :
    (firstMentions (values.filter keep)).Pairwise fun first second =>
      values.idxOf first < values.idxOf second := by
  induction values with
  | nil => exact .nil
  | cons head tail inductionHypothesis =>
      by_cases kept : keep head = true
      · have different : ∀ value ∈ (firstMentions (tail.filter keep)).filter (· != head),
            value ≠ head := fun value member => by simpa using (List.mem_filter.1 member).2
        rw [List.filter_cons_of_pos kept, firstMentions, List.pairwise_cons]
        refine ⟨fun value member => ?_, pairwise_idxOf_cons different (inductionHypothesis.filter _)⟩
        rw [List.idxOf_cons_self, List.idxOf_cons_ne _ (different value member).symm]
        exact Nat.succ_pos _
      · rw [List.filter_cons_of_neg kept]
        refine pairwise_idxOf_cons ?_ inductionHypothesis
        rintro value member rfl
        exact kept (List.mem_filter.1 (mem_firstMentions.1 member)).2

example : firstMentions ([2, 7, 1, 2].filter (· < 3)) = [2, 1] := by decide

/-! ## Edges -/

theorem Instruction.incomingBlocks_eq_nil {instruction : Instruction}
    (isTerminator : instruction.isTerminator = true) : instruction.incomingBlocks = [] := by
  cases instruction with
  | phi type incoming => exact absurd isTerminator nofun
  | _ => rfl

namespace Function

variable {function : Function} {block target : BlockId} {instruction : Instruction}

/-- The terminator at the end of the block names the target. -/
def LeadsTo (function : Function) (block target : BlockId) : Prop :=
  ∃ front terminator, function.Occurs block front terminator [] ∧
    terminator.isTerminator = true ∧ terminator.NamesBlock target

/-- What is found as the terminator of a block stands at its end. -/
theorem terminatorInstruction?_eq_some_iff :
    function.terminatorInstruction? block = some instruction ↔
      ∃ front, function.Occurs block front instruction [] ∧ instruction.isTerminator = true := by
  unfold terminatorInstruction? terminator?
  simp only [Option.bind_eq_some_iff, Option.filter_eq_some_iff, List.getLast?_eq_some_iff,
    Option.any_eq_true]
  constructor
  · rintro ⟨last, ⟨⟨front, listed⟩, found, isFound, isTerminator⟩, stored⟩
    cases isFound.symm.trans stored
    exact ⟨front, ⟨last, listed, stored⟩, isTerminator⟩
  · rintro ⟨front, ⟨last, listed, stored⟩, isTerminator⟩
    exact ⟨last, ⟨⟨front, listed⟩, instruction, stored, isTerminator⟩, stored⟩

/-- A terminator is no phi, so all blocks that it names are successors. -/
theorem mem_successors_iff :
    target ∈ function.successors block ↔ function.LeadsTo block target := by
  unfold successors LeadsTo
  constructor
  · intro member
    cases isLast : function.terminatorInstruction? block with
    | none =>
        rw [isLast] at member
        exact absurd member List.not_mem_nil
    | some terminator =>
        rw [isLast] at member
        obtain ⟨front, occurs, isTerminator⟩ := terminatorInstruction?_eq_some_iff.1 isLast
        exact ⟨front, terminator, occurs, isTerminator, Instruction.namesBlock_iff.2 (.inl member)⟩
  · rintro ⟨front, terminator, occurs, isTerminator, names⟩
    rw [terminatorInstruction?_eq_some_iff.2 ⟨front, occurs, isTerminator⟩]
    rcases Instruction.namesBlock_iff.1 names with isTarget | isIncoming
    · exact isTarget
    · rw [Instruction.incomingBlocks_eq_nil isTerminator] at isIncoming
      exact absurd isIncoming List.not_mem_nil

end Function

namespace FlowGraph

variable {graph other : FlowGraph} {function : Function}

/-- The tables of a graph have one row per block; they list every edge between
blocks of the function once at either end, successors as the terminator first
mentions them and predecessors in ascending order. -/
structure ListsEdges (graph : FlowGraph) (function : Function) : Prop where
  entry : graph.entryBlock? = function.entryBlock?
  sources : graph.successorLists.length = function.blocks.size
  targets : graph.predecessorLists.length = function.blocks.size
  mem_successors : ∀ block target, target ∈ graph.successors block ↔
    target < function.blocks.size ∧ function.LeadsTo block target
  mem_predecessors : ∀ block target,
    block ∈ graph.predecessors target ↔ target ∈ graph.successors block
  successors_nodup : ∀ block, (graph.successors block).Nodup
  predecessors_nodup : ∀ target, (graph.predecessors target).Nodup
  firstMention : ∀ block, (graph.successors block).Pairwise fun first second =>
    (function.successors block).idxOf first < (function.successors block).idxOf second
  ascending : ∀ target, (graph.predecessors target).Pairwise (· < ·)

/-- Tables with as many rows are equal if all their rows are. -/
theorem eq_of_rows {rows others : List (List BlockId)} (sameLength : rows.length = others.length)
    (sameRow : ∀ block : Nat, rows[block]?.getD [] = others[block]?.getD []) : rows = others := by
  apply List.ext_getElem sameLength
  intro block inside otherInside
  have same := sameRow block
  rw [List.getElem?_eq_getElem inside, List.getElem?_eq_getElem otherInside] at same
  exact same

/-- Both orders are strict, so members fix the rows. -/
theorem ListsEdges.unique (lists : graph.ListsEdges function)
    (otherLists : other.ListsEdges function) : graph = other := by
  have sameSuccessors (block : BlockId) : graph.successors block = other.successors block := by
    -- What makes ordered lists with the same members equal takes the laws of the order
    -- as instances.
    have irreflexive : Std.Irrefl fun first second : BlockId =>
        (function.successors block).idxOf first < (function.successors block).idxOf second :=
      ⟨fun _ => Nat.lt_irrefl _⟩
    have antisymmetric : Std.Antisymm fun first second : BlockId =>
        (function.successors block).idxOf first < (function.successors block).idxOf second :=
      ⟨fun _ _ before after => absurd after (Nat.lt_asymm before)⟩
    refine (lists.firstMention block).eq_of_mem_iff (otherLists.firstMention block) fun target => ?_
    rw [lists.mem_successors, otherLists.mem_successors]
  have samePredecessors (target : BlockId) :
      graph.predecessors target = other.predecessors target := by
    refine (lists.ascending target).eq_of_mem_iff (otherLists.ascending target) fun block => ?_
    rw [lists.mem_predecessors, otherLists.mem_predecessors, sameSuccessors]
  have sameEntry := lists.entry.trans otherLists.entry.symm
  have sameRows := eq_of_rows (lists.sources.trans otherLists.sources.symm) sameSuccessors
  have sameColumns := eq_of_rows (lists.targets.trans otherLists.targets.symm) samePredecessors
  cases graph
  cases other
  cases sameEntry
  cases sameRows
  cases sameColumns
  rfl

end FlowGraph

namespace Function

theorem firstMention_graph (function : Function) (block : BlockId) :
    (function.graph.successors block).Pairwise fun first second =>
      (function.successors block).idxOf first < (function.successors block).idxOf second := by
  unfold graph
  rw [FlowGraph.successors_ofSuccessors]
  split
  · exact pairwise_firstMentions_filter _ _
  · exact .nil

theorem ascending_graph (function : Function) (target : BlockId) :
    (function.graph.predecessors target).Pairwise (· < ·) := by
  unfold graph
  rw [FlowGraph.predecessors_ofSuccessors]
  split
  · exact List.pairwise_lt_range.filter _
  · exact .nil

theorem listsEdges_graph (function : Function) : function.graph.ListsEdges function where
  entry := rfl
  sources := FlowGraph.size_ofSuccessors _ _ _
  targets := by simp [graph, FlowGraph.ofSuccessors]
  mem_successors := by
    intro block target
    rw [mem_successors_graph, mem_successors_iff, and_comm]
  mem_predecessors := fun _ _ => function.coherent_graph.mem_predecessors
  successors_nodup := by
    intro block
    refine (function.firstMention_graph block).imp ?_
    rintro first second earlier rfl
    exact Nat.lt_irrefl _ earlier
  predecessors_nodup := fun target => (function.ascending_graph target).imp Nat.ne_of_lt
  firstMention := function.firstMention_graph
  ascending := function.ascending_graph

/-- The graph of a function is what is left in two empty tables when the edges
have been entered, and its tables are the only ones that list the edges: a block
is a successor of another one exactly if it exists and the other's terminator
names it, and exactly then the other is a predecessor of it. -/
theorem graph_exact (function : Function) :
    function.guardedGraph = .ok function.graph ∧
      ∀ graph : FlowGraph, graph.ListsEdges function ↔ graph = function.graph := by
  refine ⟨function.guardedGraph_eq, fun graph => ⟨fun lists => ?_, ?_⟩⟩
  · exact lists.unique function.listsEdges_graph
  · rintro rfl
    exact function.listsEdges_graph

end Function

end Workgroup

import Workgroup.Function.Basic

/-!
Contract: the control-flow graph of a function.

An edge leads from a block to every existing block that its terminator names,
once however often it is named.  Successors stand in the order in which the
terminator first mentions them, predecessors in ascending order.

Owns:
- the graph type and its look-ups, which are total;
- the graph of a function.
-/

namespace Workgroup

/-- Successors and predecessors of every block, by handle. -/
structure FlowGraph where
  entryBlock? : Option BlockId
  successorLists : List (List BlockId)
  predecessorLists : List (List BlockId)
deriving DecidableEq, Repr

/-- The elements of a list without repetitions, in order of first mention. -/
def firstMentions : List Nat → List Nat
  | [] => []
  | first :: rest => first :: (firstMentions rest).filter (· != first)

theorem mem_firstMentions {value : Nat} {values : List Nat} :
    value ∈ firstMentions values ↔ value ∈ values := by
  induction values with
  | nil => rfl
  | cons first rest inductionHypothesis =>
      simp only [firstMentions, List.mem_cons, List.mem_filter, inductionHypothesis]
      grind

theorem nodup_firstMentions (values : List Nat) : (firstMentions values).Nodup := by
  induction values with
  | nil => exact .nil
  | cons first rest inductionHypothesis =>
      refine List.nodup_cons.2 ⟨?_, inductionHypothesis.filter _⟩
      simp

namespace FlowGraph

/-- The number of blocks, reachable or not. -/
def size (graph : FlowGraph) : Nat := graph.successorLists.length

def isEmpty (graph : FlowGraph) : Bool := graph.successorLists.isEmpty

/-- The successors of a block; a missing block has none. -/
def successors (graph : FlowGraph) (block : BlockId) : List BlockId :=
  graph.successorLists[block]?.getD []

/-- The predecessors of a block; a missing block has none. -/
def predecessors (graph : FlowGraph) (block : BlockId) : List BlockId :=
  graph.predecessorLists[block]?.getD []

/-- The graph with the given successors of the blocks below a bound. -/
def ofSuccessors (entryBlock? : Option BlockId) (count : Nat) (targets : BlockId → List BlockId) :
    FlowGraph :=
  let edges (block : BlockId) : List BlockId := firstMentions ((targets block).filter (· < count))
  { entryBlock? := entryBlock?
    successorLists := (List.range count).map edges
    predecessorLists := (List.range count).map fun target =>
      (List.range count).filter fun block => (edges block).contains target }

end FlowGraph

/-- The control-flow graph of a function. -/
def Function.graph (function : Function) : FlowGraph :=
  .ofSuccessors function.entryBlock? function.blocks.size function.successors

end Workgroup

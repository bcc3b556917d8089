import Workgroup.Flow.Order

/-!
Contract: immediate dominators.

A block dominates another if every path from the entry to the other passes
through it.  The tree is found by sweeping over the reverse postorder until
nothing changes: the parent of a block is the nearest common ancestor of its
predecessors that have a parent already.

Owns:
- the nearest common ancestor in a table of parents;
- one sweep, the iteration of sweeps and the dominator tree;
- the questions asked of the tree.
-/

namespace Workgroup

/-- The parents of the reachable blocks; the entry is its own parent. -/
structure DominatorTree where
  /-- The reachable blocks in reverse postorder. -/
  order : List BlockId
  /-- One entry per block, reachable or not. -/
  parents : List (Option BlockId)
deriving DecidableEq, Repr

namespace DominatorTree

/-- The parent that a table holds for a block. -/
def parentIn (parents : List (Option BlockId)) (block : BlockId) : Option BlockId :=
  parents[block]?.join

/-- Climbs from two blocks, always from the one of the higher rank, until the
climbs meet.  A block without parent ends the climb at the other block. -/
def meet (parent : BlockId → Option BlockId) (rank : BlockId → Nat) :
    Nat → BlockId → BlockId → BlockId
  | 0, left, _ => left
  | fuel + 1, left, right =>
      if left = right then left
      else if rank right < rank left then
        match parent left with
        | some above => meet parent rank fuel above right
        | none => right
      else
        match parent right with
        | some above => meet parent rank fuel left above
        | none => left

/-- The nearest common ancestor of two blocks.  Every step of the climb lowers
a rank, which bounds the number of steps. -/
def nearestCommon (parent : BlockId → Option BlockId) (rank : BlockId → Nat)
    (left right : BlockId) : BlockId :=
  meet parent rank (rank left + rank right + 1) left right

/-- The position of a block in an order; blocks that are not listed come last. -/
def rankIn (order : List BlockId) (block : BlockId) : Nat := order.idxOf block

/-- Joins a predecessor to the ancestor chosen so far, if it has a parent. -/
def joinPredecessor (order : List BlockId) (parents : List (Option BlockId))
    (chosen : Option BlockId) (predecessor : BlockId) : Option BlockId :=
  if (parentIn parents predecessor).isNone then chosen
  else
    match chosen with
    | none => some predecessor
    | some current =>
        some (nearestCommon (parentIn parents) (rankIn order) predecessor current)

/-- The nearest common ancestor of the predecessors that have a parent. -/
def proposal (graph : FlowGraph) (order : List BlockId) (parents : List (Option BlockId))
    (block : BlockId) : Option BlockId :=
  (graph.predecessors block).foldl (joinPredecessor order parents) none

/-- Renews the parent of one block. -/
def improve (graph : FlowGraph) (order : List BlockId) (parents : List (Option BlockId))
    (block : BlockId) : List (Option BlockId) :=
  match proposal graph order parents block with
  | none => parents
  | some parent => parents.set block (some parent)

/-- Renews the parents of all blocks but the entry, in reverse postorder. -/
def sweep (graph : FlowGraph) (order : List BlockId) (parents : List (Option BlockId)) :
    List (Option BlockId) :=
  order.tail.foldl (improve graph order) parents

/-- Sweeps until nothing changes. -/
def settle (graph : FlowGraph) (order : List BlockId) :
    Nat → List (Option BlockId) → List (Option BlockId)
  | 0, parents => parents
  | fuel + 1, parents =>
      let swept := sweep graph order parents
      if swept = parents then parents else settle graph order fuel swept

/-- The table in which only the entry has a parent. -/
def initialParents (graph : FlowGraph) (order : List BlockId) : List (Option BlockId) :=
  match order with
  | [] => List.replicate graph.size none
  | entry :: _ => (List.replicate graph.size none).set entry (some entry)

end DominatorTree

/-- The dominator tree of a graph.  A sweep that changes anything lowers the
rank of some parent, so the number of sweeps is bounded by the number of pairs
of blocks. -/
def FlowGraph.dominators (graph : FlowGraph) : DominatorTree :=
  let order := graph.reversePostorder
  { order := order
    parents :=
      DominatorTree.settle graph order (order.length * order.length + 2)
        (DominatorTree.initialParents graph order) }

namespace DominatorTree

def isReachable (tree : DominatorTree) (block : BlockId) : Bool := tree.order.contains block

/-- The immediate dominator of a block; the entry and the blocks that it does
not reach have none. -/
def idom? (tree : DominatorTree) (block : BlockId) : Option BlockId :=
  if tree.order.head? = some block then none else parentIn tree.parents block

/-- A block and the blocks above it, nearest first, at most as many as the
fuel allows. -/
def climb (tree : DominatorTree) : Nat → BlockId → List BlockId
  | 0, block => [block]
  | fuel + 1, block =>
      match tree.idom? block with
      | none => [block]
      | some above => block :: tree.climb fuel above

/-- The blocks from a block up to the entry.  There are at most as many as
there are reachable blocks. -/
def ancestors (tree : DominatorTree) (block : BlockId) : List BlockId :=
  tree.climb tree.order.length block

/-- Whether every path from the entry to the second block passes through the
first.  Blocks that the entry does not reach dominate nothing and are
dominated by nothing. -/
def dominates (tree : DominatorTree) (above below : BlockId) : Bool :=
  tree.isReachable above && tree.isReachable below && (tree.ancestors below).contains above

end DominatorTree

end Workgroup

import Workgroup.Flow.Loop
import Workgroup.Storage.Table

/-!
Contract: the natural loops of a function and their nesting.

A back edge leads to a block that dominates its start.  Back edges to one
header form one loop: the header and every reachable block that reaches one of
them without passing through the header.  Larger loops get smaller handles,
and of loops of one size the one with the smaller header does.

Owns:
- back edges and loop bodies;
- the forest with its parents, depths and orders.
-/

namespace Workgroup

/-- The loops of a function. -/
structure LoopForest where
  loops : Table Loop
  /-- The loops without parent, in ascending order. -/
  topLevel : List LoopId
deriving DecidableEq

namespace LoopForest

/-- Edges `(latch, header)` whose end dominates their start, by latch in
reverse postorder. -/
def backEdges (graph : FlowGraph) (tree : DominatorTree) : List (BlockId × BlockId) :=
  graph.reversePostorder.flatMap fun block =>
    ((graph.successors block).filter fun target => tree.dominates target block).map
      fun target => (block, target)

/-- The blocks with an edge to a block that the entry reaches too. -/
def reachablePredecessors (graph : FlowGraph) (tree : DominatorTree) (block : BlockId) :
    List BlockId :=
  (graph.predecessors block).filter tree.isReachable

/-- The header and every reachable block that reaches a latch without passing
through the header. -/
def body (graph : FlowGraph) (tree : DominatorTree) (header : BlockId) (latches : List BlockId) :
    OrderedSet BlockId :=
  .ofList (latches.foldl (Search.visit (reachablePredecessors graph tree) graph.size)
    (.start [header])).entered

/-- Places a body behind the larger ones and behind those of its size with a
smaller header. -/
def insertBySize (entry : BlockId × OrderedSet BlockId) :
    List (BlockId × OrderedSet BlockId) → List (BlockId × OrderedSet BlockId)
  | [] => [entry]
  | head :: tail =>
      if head.2.size > entry.2.size ∨ head.2.size = entry.2.size ∧ head.1 ≤ entry.1 then
        head :: insertBySize entry tail
      else entry :: head :: tail

/-- Headers with their bodies, the largest first. -/
def bodies (graph : FlowGraph) (tree : DominatorTree) : List (BlockId × OrderedSet BlockId) :=
  let edges := backEdges graph tree
  let headers := firstMentions (edges.map Prod.snd)
  headers.foldr (fun header sorted =>
    let latches := (edges.filter fun edge => edge.2 == header).map Prod.fst
    insertBySize (header, body graph tree header latches) sorted) []

def empty : LoopForest := ⟨.empty, []⟩

instance : Inhabited LoopForest := ⟨empty⟩

def isEmpty (forest : LoopForest) : Bool := forest.loops.isEmpty

/-- The loops around a block that have another header. -/
def around (forest : LoopForest) (header : BlockId) : List LoopId :=
  forest.loops.handles.filter fun handle =>
    (forest.loops.get? handle).any fun loop => loop.header != header && loop.contains header

/-- The number of blocks of a loop; a missing loop has none. -/
def sizeOf (forest : LoopForest) (handle : LoopId) : Nat :=
  ((forest.loops.get? handle).map fun loop => loop.blocks.size).getD 0

/-- The first of the smallest loops of a list. -/
def smallest? (forest : LoopForest) : List LoopId → Option LoopId
  | [] => none
  | first :: rest =>
      match forest.smallest? rest with
      | none => some first
      | some other => if forest.sizeOf other < forest.sizeOf first then some other else some first

/-- Adds a loop below the smallest loop around its header. -/
def adopt (forest : LoopForest) (entry : BlockId × OrderedSet BlockId) : LoopForest :=
  let handle := forest.loops.size
  let parent := forest.smallest? (forest.around entry.1)
  let depth := ((parent.bind forest.loops.get?).map Loop.depth).getD 0 + 1
  let added := forest.loops.append ⟨entry.1, entry.2, parent, [], depth⟩
  match parent with
  | some above =>
      { forest with
        loops := added.modify above fun loop => { loop with subLoops := loop.subLoops ++ [handle] } }
  | none => { loops := added, topLevel := forest.topLevel ++ [handle] }

/-- The innermost loop around a block: loops around it get larger handles the
smaller they are. -/
def loopFor? (forest : LoopForest) (block : BlockId) : Option LoopId :=
  (forest.loops.handles.filter fun handle =>
    (forest.loops.get? handle).any fun loop => loop.contains block).getLast?

/-- A loop behind its nested loops, at most as deep as the fuel allows. -/
def nested (forest : LoopForest) : Nat → LoopId → List LoopId
  | 0, _ => []
  | fuel + 1, handle =>
      (((forest.loops.get? handle).map Loop.subLoops).getD []).flatMap (forest.nested fuel) ++
        [handle]

/-- Every loop, each behind all loops nested in it. -/
def postorder (forest : LoopForest) : List LoopId :=
  forest.topLevel.flatMap (forest.nested forest.loops.size)

end LoopForest

/-- The natural loops of a graph. -/
def FlowGraph.loopForest (graph : FlowGraph) (tree : DominatorTree) : LoopForest :=
  (LoopForest.bodies graph tree).foldl LoopForest.adopt .empty

end Workgroup

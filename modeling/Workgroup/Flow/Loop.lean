import Workgroup.Flow.Dominators
import Workgroup.Storage.OrderedSet

/-!
Contract: loops and how control enters and leaves them.

A loop is a header and a set of blocks.  The questions below take the graph as
an argument and make sense for any set of blocks, whether or not it is a loop
of that graph.
-/

namespace Workgroup

/-- The handle of a loop in its forest. -/
abbrev LoopId := Nat

/-- A loop and its place in the nesting of loops. -/
structure Loop where
  header : BlockId
  /-- All blocks, those of nested loops included. -/
  blocks : OrderedSet BlockId
  parent : Option LoopId
  subLoops : List LoopId
  /-- Outermost loops have depth one. -/
  depth : Nat
deriving DecidableEq

namespace Loop

def contains (loop : Loop) (block : BlockId) : Bool := loop.blocks.contains block

def isInnermost (loop : Loop) : Bool := loop.subLoops.isEmpty

/-- The blocks with an edge that leaves the loop, in ascending order. -/
def exitingBlocks (loop : Loop) (graph : FlowGraph) : List BlockId :=
  loop.blocks.toList.filter fun block =>
    (graph.successors block).any fun target => !loop.contains target

/-- The exiting block, if there is exactly one. -/
def uniqueExitingBlock? (loop : Loop) (graph : FlowGraph) : Option BlockId :=
  match loop.exitingBlocks graph with
  | [block] => some block
  | _ => none

/-- The blocks of the loop with an edge to the header, in ascending order. -/
def latches (loop : Loop) (graph : FlowGraph) : List BlockId :=
  (graph.predecessors loop.header).filter loop.contains

/-- Whether a reachable block outside the loop has an edge to a block of the
loop other than the header. -/
def hasSideEntry (loop : Loop) (graph : FlowGraph) (tree : DominatorTree) : Bool :=
  loop.blocks.toList.any fun block =>
    block != loop.header && (graph.predecessors block).any fun predecessor =>
      tree.isReachable predecessor && !loop.contains predecessor

/-- The header, if it belongs to the loop and control enters nowhere else. -/
def uniqueHeader? (loop : Loop) (graph : FlowGraph) (tree : DominatorTree) : Option BlockId :=
  if loop.contains loop.header && !loop.hasSideEntry graph tree then some loop.header else none

end Loop

end Workgroup

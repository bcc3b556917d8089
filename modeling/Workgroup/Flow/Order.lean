import Workgroup.Flow.Graph
import Workgroup.Flow.Search

/-!
Contract: the reverse postorder of a control-flow graph.

A depth-first search from the entry leaves every reachable block once; the
blocks in the opposite order of leaving are the reverse postorder.  Blocks
that the entry does not reach are not listed.
-/

namespace Workgroup.FlowGraph

/-- The blocks reachable from the entry, in reverse postorder.  A search
enters each block at most once, so its depth is at most the number of blocks. -/
def reversePostorder (graph : FlowGraph) : List BlockId :=
  match graph.entryBlock? with
  | none => []
  | some entry => (Search.visit graph.successors graph.size (.start []) entry).finished

end Workgroup.FlowGraph

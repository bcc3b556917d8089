/-!
Contract: depth-first search over natural numbers.

A search enters a node, searches from each neighbour in turn, and leaves the
node.  Nodes that have been entered are not entered again, so nodes entered
beforehand are a border that the search does not cross.

Owns:
- the progress of a search and the search itself, with the depth as fuel.
-/

namespace Workgroup

/-- The progress of a depth-first search. -/
structure Search where
  /-- Nodes that the search does not enter any more. -/
  entered : List Nat
  /-- Nodes that the search has left, the last one first. -/
  finished : List Nat
deriving DecidableEq, Repr

namespace Search

/-- A search that does not cross the nodes of a border. -/
def start (border : List Nat) : Search := ⟨border, []⟩

def enter (search : Search) (node : Nat) : Search :=
  { search with entered := node :: search.entered }

def leave (search : Search) (node : Nat) : Search :=
  { search with finished := node :: search.finished }

/-- Searches from a node, at most as deep as the fuel allows. -/
def visit (neighbours : Nat → List Nat) : Nat → Search → Nat → Search
  | 0, search, _ => search
  | fuel + 1, search, node =>
      if search.entered.contains node then search
      else ((neighbours node).foldl (visit neighbours fuel) (search.enter node)).leave node

end Search

end Workgroup

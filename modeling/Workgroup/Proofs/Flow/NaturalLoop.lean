import Workgroup.Flow.LoopForest
import Workgroup.Proofs.Flow.Dominance

/-!
Contract: natural loops, described by walks.

A natural loop is its header together with the reachable blocks from which a
walk around the header leads to a latch.  Every statement here is about one
loop of a coherent graph; how loops lie in each other is another module.

Owns:
- latches and loop membership, stated over walks;
- what the search for a loop body finds;
- how control moves inside a natural loop, enters it and comes back.
-/

namespace Workgroup

namespace FlowGraph

variable {graph : FlowGraph} {header latch block other : BlockId} {blocks : List BlockId}

/-- A latch has an edge back to a block that dominates it. -/
def IsLatch (graph : FlowGraph) (header latch : BlockId) : Prop :=
  header ∈ graph.successors latch ∧ graph.Dominates header latch

/-- The block is the header, or it is reachable and a walk around the header
leads from it to a latch. -/
def InLoop (graph : FlowGraph) (header block : BlockId) : Prop :=
  block = header ∨ graph.Reachable block ∧ ∃ latch blocks, graph.IsLatch header latch ∧
    Walk graph.successors block latch blocks ∧ header ∉ blocks

/-- A latch belongs to the loop of its header. -/
theorem IsLatch.inLoop (isLatch : graph.IsLatch header latch) : graph.InLoop header latch := by
  by_cases same : latch = header
  · exact .inl same
  · have around : header ∉ [latch] := by simp [Ne.symm same]
    exact .inr ⟨isLatch.2.reachable, latch, [latch], isLatch, .here latch, around⟩

theorem Dominates.antisymm (up : graph.Dominates block other) (down : graph.Dominates other block) :
    block = other := by
  obtain ⟨blocks, entry, isEntry, walk⟩ := up.reachable
  obtain ⟨front, back, rfl, fresh, before, -⟩ := walk.to_first walk.stop_mem
  have member := up.2 _ ⟨entry, isEntry, before⟩
  rw [List.mem_append, List.mem_singleton] at member
  by_contra different
  -- The other block lies on the way to the first visit of the block, and so on.
  have early := member.resolve_right different
  obtain ⟨start, rest, rfl⟩ := List.append_of_mem early
  rw [List.append_assoc, List.cons_append] at before
  have again := down.2 _ ⟨entry, isEntry, before.split.1⟩
  rw [List.mem_append, List.mem_singleton] at again
  rcases again with again | same
  · exact fresh (List.mem_append_left _ again)
  · exact different same.symm

theorem Coherent.mem_backEdges (coherent : graph.Coherent) :
    (latch, header) ∈ LoopForest.backEdges graph graph.dominators ↔
      graph.IsLatch header latch := by
  unfold LoopForest.backEdges IsLatch
  rw [List.mem_flatMap]
  constructor
  · rintro ⟨start, -, member⟩
    obtain ⟨target, kept, same⟩ := List.mem_map.1 member
    obtain ⟨rfl, rfl⟩ := Prod.mk.inj same
    obtain ⟨edge, dominates⟩ := List.mem_filter.1 kept
    exact ⟨edge, coherent.dominates_iff.1 dominates⟩
  · rintro ⟨edge, dominates⟩
    refine ⟨latch, ?_, List.mem_map.2 ⟨header, ?_, rfl⟩⟩
    · have reached := coherent.isReachable_iff.2 dominates.reachable
      exact List.contains_iff_mem.1 reached
    · exact List.mem_filter.2 ⟨edge, coherent.dominates_iff.2 dominates⟩

theorem Coherent.mem_reachablePredecessors (coherent : graph.Coherent) :
    other ∈ LoopForest.reachablePredecessors graph graph.dominators block ↔
      block ∈ graph.successors other ∧ graph.Reachable other := by
  unfold LoopForest.reachablePredecessors
  rw [List.mem_filter, coherent.mem_predecessors, coherent.isReachable_iff]

/-- The body of a header and its latches is the loop of the header. -/
theorem Coherent.mem_body (coherent : graph.Coherent) {latches : List BlockId}
    (areLatches : ∀ latch, latch ∈ latches ↔ graph.IsLatch header latch) :
    block ∈ LoopForest.body graph graph.dominators header latches ↔ graph.InLoop header block := by
  have mem_backward {node before : BlockId} :
      before ∈ LoopForest.reachablePredecessors graph graph.dominators node ↔
        node ∈ graph.successors before ∧ graph.Reachable before :=
    coherent.mem_reachablePredecessors
  have bounded : ∀ node, ∀ next ∈ LoopForest.reachablePredecessors graph graph.dominators node,
      next < graph.size := fun node next member => coherent.lt_size (mem_backward.1 member).2
  obtain ⟨found, explores⟩ := Search.foldl_explores
    (Search.visit_explores bounded graph.size) latches (.start [header])
    (fun latch member => coherent.lt_size ((areLatches latch).1 member).2.reachable)
    (Search.pending_le _)
  unfold LoopForest.body
  rw [OrderedSet.mem_ofList, explores.entered]
  show block ∈ [header] ∨ block ∈ found ↔ _
  rw [List.mem_singleton]
  refine or_congr_right' fun different => ?_
  constructor
  · intro member
    obtain ⟨latch, isRoot, nodes, walk, inside⟩ := explores.exists_walk member
    have isLatch := (areLatches latch).1 isRoot
    have forward : Walk graph.successors block latch nodes.reverse :=
      walk.reverse fun node _ next edge _ => (mem_backward.1 edge).1
    have around : header ∉ nodes.reverse := fun onWalk =>
      explores.fresh header (inside header (List.mem_reverse.1 onWalk)) List.mem_cons_self
    refine ⟨?_, latch, nodes.reverse, isLatch, forward, around⟩
    -- A block found is a latch or has been found as a reachable predecessor.
    obtain ⟨front, back, listed⟩ := List.append_of_mem member
    rcases explores.preceded front block back listed with isRoot | ⟨next, -, edge⟩
    · exact ((areLatches block).1 isRoot).2.reachable
    · exact (mem_backward.1 edge).2
  · rintro ⟨reachable, latch, nodes, isLatch, walk, around⟩
    have reached := reachable.walk walk
    have backward : Walk (LoopForest.reachablePredecessors graph graph.dominators) latch block
        nodes.reverse :=
      walk.reverse fun node member next edge _ => mem_backward.2 ⟨edge, reached node member⟩
    refine explores.mem_of_walk ((areLatches latch).2 isLatch) backward ?_ block backward.stop_mem
    intro node member entered
    rw [List.mem_singleton.1 entered] at member
    exact around (List.mem_reverse.1 member)

end FlowGraph

theorem Loop.contains_iff {loop : Loop} {block : BlockId} :
    loop.contains block = true ↔ block ∈ loop.blocks :=
  OrderedSet.contains_iff

theorem Loop.mem_exitingBlocks {loop : Loop} {graph : FlowGraph} {block : BlockId} :
    block ∈ loop.exitingBlocks graph ↔
      block ∈ loop.blocks ∧ ∃ target ∈ graph.successors block, target ∉ loop.blocks := by
  unfold exitingBlocks
  rw [List.mem_filter, OrderedSet.mem_toList]
  simp only [List.any_eq_true, Bool.not_eq_true', ← Bool.not_eq_true, contains_iff]

/-- A loop whose blocks are the natural loop of its header. -/
structure Loop.Natural (graph : FlowGraph) (loop : Loop) : Prop where
  latched : ∃ latch, graph.IsLatch loop.header latch
  mem_iff : ∀ block, block ∈ loop.blocks ↔ graph.InLoop loop.header block

namespace Loop.Natural

variable {graph : FlowGraph} {loop : Loop} {block other : BlockId} {blocks : List BlockId}

theorem header_mem (natural : loop.Natural graph) : loop.header ∈ loop.blocks :=
  (natural.mem_iff _).2 (.inl rfl)

theorem reachable_header (natural : loop.Natural graph) : graph.Reachable loop.header := by
  obtain ⟨latch, isLatch⟩ := natural.latched
  exact isLatch.2.reachable_above

/-- The header dominates every block of the loop. -/
theorem dominates (natural : loop.Natural graph) (member : block ∈ loop.blocks) :
    graph.Dominates loop.header block := by
  rcases (natural.mem_iff block).1 member with rfl | ⟨reachable, latch, nodes, isLatch, walk, around⟩
  · exact .refl natural.reachable_header
  · exact isLatch.2.of_walk reachable walk around

theorem reachable (natural : loop.Natural graph) (member : block ∈ loop.blocks) :
    graph.Reachable block :=
  (natural.dominates member).reachable

/-- What reaches a block of the loop around the header belongs to the loop. -/
theorem mem_of_walk (natural : loop.Natural graph) (reachable : graph.Reachable other)
    (walk : Walk graph.successors other block blocks) (member : block ∈ loop.blocks)
    (around : loop.header ∉ blocks) : other ∈ loop.blocks := by
  rcases (natural.mem_iff block).1 member with same | ⟨-, latch, nodes, isLatch, rest, restAround⟩
  · rw [same] at walk
    exact absurd walk.stop_mem around
  · obtain ⟨joined, whole, members⟩ := walk.trans rest
    refine (natural.mem_iff other).2 (.inr ⟨reachable, latch, joined, isLatch, whole, ?_⟩)
    rw [members]
    exact not_or.2 ⟨around, restAround⟩

/-- All of a walk around the header to a block of the loop lies in the loop. -/
theorem subset_of_walk (natural : loop.Natural graph) (reachable : graph.Reachable other)
    (walk : Walk graph.successors other block blocks) (member : block ∈ loop.blocks)
    (around : loop.header ∉ blocks) : ∀ inner ∈ blocks, inner ∈ loop.blocks := by
  intro inner onWalk
  obtain ⟨front, back, rfl⟩ := List.append_of_mem onWalk
  refine natural.mem_of_walk (reachable.walk walk inner onWalk) walk.split.2 member fun behind => ?_
  exact around (List.mem_append_right _ behind)

/-- A reachable block with an edge to a block of the loop other than the header
belongs to the loop. -/
theorem mem_of_edge (natural : loop.Natural graph) (reachable : graph.Reachable other)
    (edge : block ∈ graph.successors other) (member : block ∈ loop.blocks)
    (different : block ≠ loop.header) : other ∈ loop.blocks := by
  by_cases same : other = loop.header
  · rw [same]
    exact natural.header_mem
  · apply natural.mem_of_walk reachable (.step edge (.here block)) member
    simp [Ne.symm same, Ne.symm different]

/-- From every block of the loop a walk inside the loop leads to the header. -/
theorem exists_walk_to_header (natural : loop.Natural graph) (member : block ∈ loop.blocks) :
    ∃ nodes, Walk graph.successors block loop.header nodes ∧ ∀ node ∈ nodes, node ∈ loop.blocks := by
  rcases (natural.mem_iff block).1 member with rfl | ⟨reachable, latch, nodes, isLatch, walk, around⟩
  · exact ⟨[loop.header], .here _, by simpa using natural.header_mem⟩
  · have latchMember : latch ∈ loop.blocks := (natural.mem_iff latch).2 isLatch.inLoop
    refine ⟨nodes ++ [loop.header], walk.snoc isLatch.1, fun node onWalk => ?_⟩
    rcases List.mem_append.1 onWalk with onWalk | onWalk
    · exact natural.subset_of_walk reachable walk latchMember around node onWalk
    · rw [List.mem_singleton.1 onWalk]
      exact natural.header_mem

/-- To every block of the loop a walk inside the loop leads from the header and
does not come back to it. -/
theorem exists_walk_from_header (natural : loop.Natural graph) (member : block ∈ loop.blocks) :
    ∃ back, Walk graph.successors loop.header block (loop.header :: back) ∧
      loop.header ∉ back ∧ ∀ node ∈ back, node ∈ loop.blocks := by
  have dominates := natural.dominates member
  obtain ⟨nodes, entry, isEntry, walk⟩ := dominates.reachable
  obtain ⟨front, back, -, fresh, -, after⟩ :=
    walk.from_last (dominates.2 nodes ⟨entry, isEntry, walk⟩)
  refine ⟨back, after, fresh, fun node onWalk => ?_⟩
  obtain ⟨start, rest, rfl⟩ := List.append_of_mem onWalk
  have reachable := natural.reachable_header.walk after node (.tail _ onWalk)
  rw [← List.cons_append] at after
  refine natural.mem_of_walk reachable after.split.2 member fun behind => ?_
  exact fresh (List.mem_append_right start behind)

/-- Every block of the loop has an edge to a block of the loop. -/
theorem exists_successor_mem (natural : loop.Natural graph) (member : block ∈ loop.blocks) :
    ∃ next ∈ graph.successors block, next ∈ loop.blocks := by
  by_cases same : block = loop.header
  · -- The header goes round through a latch, or it is its own latch.
    obtain ⟨latch, isLatch⟩ := natural.latched
    have latchMember : latch ∈ loop.blocks := (natural.mem_iff latch).2 isLatch.inLoop
    obtain ⟨back, walk, -, inside⟩ := natural.exists_walk_from_header latchMember
    rw [same]
    cases walk with
    | here => exact ⟨loop.header, isLatch.1, natural.header_mem⟩
    | step edge rest => exact ⟨_, edge, inside _ rest.start_mem⟩
  · obtain ⟨nodes, walk, inside⟩ := natural.exists_walk_to_header member
    cases walk with
    | here => exact absurd rfl same
    | step edge rest => exact ⟨_, edge, inside _ (.tail _ rest.start_mem)⟩

/-- Control enters a natural loop at its header only. -/
theorem uniqueHeader? (natural : loop.Natural graph) (coherent : graph.Coherent) :
    loop.uniqueHeader? graph graph.dominators = some loop.header := by
  have noSideEntry : loop.hasSideEntry graph graph.dominators = false := by
    rw [Bool.eq_false_iff]
    intro sideEntry
    obtain ⟨block, member, entered⟩ := List.any_eq_true.1 sideEntry
    obtain ⟨different, entered⟩ := Bool.and_eq_true_iff.1 entered
    obtain ⟨other, edge, outside⟩ := List.any_eq_true.1 entered
    obtain ⟨reached, outside⟩ := Bool.and_eq_true_iff.1 outside
    have inside := natural.mem_of_edge (coherent.isReachable_iff.1 reached)
      (coherent.mem_predecessors.1 edge) member (by simpa using different)
    rw [contains_iff.2 inside] at outside
    exact absurd outside nofun
  unfold Loop.uniqueHeader?
  rw [noSideEntry, contains_iff.2 natural.header_mem]
  rfl

end Loop.Natural

end Workgroup

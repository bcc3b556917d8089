import Workgroup.Proofs.Flow.Adoption

/-!
Contract: the loop forest holds the natural loops of a graph, nested by
containment.

Two natural loops that share a block are nested, and the inner one is smaller.
The bodies are therefore adopted in an order in which the loops around a loop
come before it, and the smallest of those is its parent.

Owns:
- containment of natural loops;
- the bodies: one for each header, the largest first;
- innermost loops contain no other header and are disjoint.
-/

namespace Workgroup

namespace Loop.Natural

variable {graph : FlowGraph} {outer inner : Loop} {block : BlockId}

/-- Of two natural loops with a common block, one contains the header of the other. -/
theorem header_mem_or_header_mem (left : outer.Natural graph) (right : inner.Natural graph)
    (leftMember : block ∈ outer.blocks) (rightMember : block ∈ inner.blocks) :
    inner.header ∈ outer.blocks ∨ outer.header ∈ inner.blocks := by
  obtain ⟨back, walk, -, inside⟩ := left.exists_walk_from_header leftMember
  by_cases onWalk : inner.header ∈ outer.header :: back
  · rcases List.mem_cons.1 onWalk with same | behind
    · rw [same]
      exact .inl left.header_mem
    · exact .inl (inside _ behind)
  · exact .inr (right.mem_of_walk left.reachable_header walk rightMember onWalk)

/-- The header of a loop does not belong to the loops of other headers inside it. -/
theorem header_not_mem (left : outer.Natural graph) (right : inner.Natural graph)
    (member : inner.header ∈ outer.blocks) (different : inner.header ≠ outer.header) :
    outer.header ∉ inner.blocks :=
  fun back => different ((right.dominates back).antisymm (left.dominates member))

/-- A loop whose header belongs to another loop lies inside that loop. -/
theorem subset (left : outer.Natural graph) (right : inner.Natural graph)
    (member : inner.header ∈ outer.blocks) : ∀ block ∈ inner.blocks, block ∈ outer.blocks := by
  intro block inside
  by_cases same : inner.header = outer.header
  · rw [left.mem_iff, ← same, ← right.mem_iff]
    exact inside
  · obtain ⟨nodes, walk, stays⟩ := right.exists_walk_to_header inside
    have around : outer.header ∉ nodes := fun onWalk =>
      left.header_not_mem right member same (stays _ onWalk)
    exact left.mem_of_walk (right.reachable inside) walk member around

theorem size_lt (left : outer.Natural graph) (right : inner.Natural graph)
    (member : inner.header ∈ outer.blocks) (different : inner.header ≠ outer.header) :
    inner.blocks.size < outer.blocks.size := by
  have fresh := left.header_not_mem right member different
  have nodup : (outer.header :: inner.blocks.toList).Nodup :=
    List.nodup_cons.2 ⟨fresh, inner.blocks.nodup_toList⟩
  have inside : outer.header :: inner.blocks.toList ⊆ outer.blocks.toList := by
    intro block listed
    rcases List.mem_cons.1 listed with rfl | listed
    · exact left.header_mem
    · exact left.subset right member block listed
  have shorter := (nodup.subperm inside).length_le
  exact shorter

end Loop.Natural

namespace LoopForest

variable {graph : FlowGraph}

/-! ## Bodies -/

theorem insertBySize_perm (entry : BlockId × OrderedSet BlockId)
    (sorted : List (BlockId × OrderedSet BlockId)) :
    (insertBySize entry sorted).Perm (entry :: sorted) := by
  induction sorted with
  | nil => exact .refl _
  | cons head tail inductionHypothesis =>
      unfold insertBySize
      split
      · exact (inductionHypothesis.cons head).trans (.swap entry head tail)
      · exact .refl _

theorem pairwise_insertBySize (entry : BlockId × OrderedSet BlockId)
    {sorted : List (BlockId × OrderedSet BlockId)}
    (descending : sorted.Pairwise fun before after => after.2.size ≤ before.2.size) :
    (insertBySize entry sorted).Pairwise fun before after => after.2.size ≤ before.2.size := by
  induction sorted with
  | nil => exact List.pairwise_singleton _ _
  | cons head tail inductionHypothesis =>
      obtain ⟨headLargest, tailDescending⟩ := List.pairwise_cons.1 descending
      unfold insertBySize
      split
      · next before =>
        refine List.pairwise_cons.2 ⟨fun other member => ?_, inductionHypothesis tailDescending⟩
        rcases List.mem_cons.1 ((insertBySize_perm entry tail).mem_iff.1 member) with rfl | member
        · omega
        · exact headLargest other member
      · next notBefore =>
        refine List.pairwise_cons.2 ⟨fun other member => ?_, descending⟩
        rcases List.mem_cons.1 member with rfl | member
        · omega
        · have := headLargest other member
          omega

/-- What the bodies of a graph are: the natural loop of each header, each
header once, the largest bodies first. -/
structure Lists (graph : FlowGraph) (bodies : List (BlockId × OrderedSet BlockId)) : Prop where
  latched : ∀ body ∈ bodies, ∃ latch, graph.IsLatch body.1 latch
  mem_iff : ∀ body ∈ bodies, ∀ block, block ∈ body.2 ↔ graph.InLoop body.1 block
  complete : ∀ header latch, graph.IsLatch header latch → header ∈ bodies.map Prod.fst
  nodup : (bodies.map Prod.fst).Nodup
  descending : bodies.Pairwise fun before after => after.2.size ≤ before.2.size

theorem lists_bodies (coherent : graph.Coherent) : Lists graph (bodies graph graph.dominators) := by
  -- The bodies are those of the headers, in another order.
  let bodyOf (header : BlockId) : BlockId × OrderedSet BlockId :=
    (header, body graph graph.dominators header
      (((backEdges graph graph.dominators).filter fun edge => edge.2 == header).map Prod.fst))
  let headers := firstMentions ((backEdges graph graph.dominators).map Prod.snd)
  have mem_latches (header latch : BlockId) :
      latch ∈ ((backEdges graph graph.dominators).filter fun edge => edge.2 == header).map
        Prod.fst ↔ graph.IsLatch header latch := by
    rw [← coherent.mem_backEdges]
    simp
  have mem_headers (header : BlockId) : header ∈ headers ↔ ∃ latch, graph.IsLatch header latch := by
    simp only [headers, mem_firstMentions, List.mem_map, Prod.exists, exists_eq_right,
      coherent.mem_backEdges]
  have perm : (bodies graph graph.dominators).Perm (headers.map bodyOf) := by
    show (headers.foldr (fun header sorted => insertBySize (bodyOf header) sorted) []).Perm _
    induction headers with
    | nil => exact .refl _
    | cons header rest inductionHypothesis =>
        exact (insertBySize_perm _ _).trans (inductionHypothesis.cons _)
  have sameHeaders : ((bodies graph graph.dominators).map Prod.fst).Perm headers := by
    have mapped := perm.map Prod.fst
    rw [List.map_map] at mapped
    exact mapped.trans (.of_eq (List.map_id headers))
  have isBody {entry : BlockId × OrderedSet BlockId}
      (member : entry ∈ bodies graph graph.dominators) :
      ∃ header ∈ headers, bodyOf header = entry := List.mem_map.1 (perm.mem_iff.1 member)
  refine ⟨fun entry member => ?_, fun entry member block => ?_, fun header latch isLatch => ?_,
    sameHeaders.nodup_iff.2 (nodup_firstMentions _), ?_⟩
  · obtain ⟨header, listed, rfl⟩ := isBody member
    exact (mem_headers header).1 listed
  · obtain ⟨header, -, rfl⟩ := isBody member
    exact coherent.mem_body (mem_latches header)
  · exact sameHeaders.mem_iff.2 ((mem_headers header).2 ⟨latch, isLatch⟩)
  · show (headers.foldr (fun header sorted => insertBySize (bodyOf header) sorted) []).Pairwise _
    clear sameHeaders perm isBody mem_headers
    induction headers with
    | nil => exact .nil
    | cons header rest inductionHypothesis => exact pairwise_insertBySize _ inductionHypothesis

end LoopForest

/-! ## The forest of a graph -/

theorem FlowGraph.nests_loopForest (graph : FlowGraph) (tree : DominatorTree) :
    (graph.loopForest tree).Nests :=
  (LoopForest.foldl_adopt _).1

namespace FlowGraph.Coherent

variable {graph : FlowGraph} {handle other : LoopId} {loop inner : Loop} {block : BlockId}

theorem bodyOf?_loopForest
    (isLoop : (graph.loopForest graph.dominators).loops.get? handle = some loop) :
    (LoopForest.bodies graph graph.dominators)[handle]? = some (loop.header, loop.blocks) := by
  apply ((LoopForest.foldl_adopt _).2 handle).symm.trans
  unfold LoopForest.bodyOf?
  exact congrArg _ isLoop

/-- The loops of the forest are natural loops of the graph. -/
theorem natural (coherent : graph.Coherent)
    (isLoop : (graph.loopForest graph.dominators).loops.get? handle = some loop) :
    loop.Natural graph := by
  have lists := LoopForest.lists_bodies coherent
  have listed := List.mem_of_getElem? (bodyOf?_loopForest isLoop)
  exact ⟨lists.latched _ listed, lists.mem_iff _ listed⟩

/-- There is one loop for each header. -/
theorem eq_of_header_eq (coherent : graph.Coherent)
    (isLoop : (graph.loopForest graph.dominators).loops.get? handle = some loop)
    (isInner : (graph.loopForest graph.dominators).loops.get? other = some inner)
    (same : loop.header = inner.header) : handle = other := by
  have nodup := (LoopForest.lists_bodies coherent).nodup
  have listed := congrArg (Option.map Prod.fst) (bodyOf?_loopForest isLoop)
  have innerListed := congrArg (Option.map Prod.fst) (bodyOf?_loopForest isInner)
  rw [← List.getElem?_map] at listed innerListed
  have below := (List.getElem?_eq_some_iff.1 listed).1
  refine (List.getElem?_inj below nodup).1 (listed.trans ?_)
  rw [innerListed]
  exact congrArg some same

/-- Smaller loops have larger handles. -/
theorem lt_of_size_lt (coherent : graph.Coherent)
    (isLoop : (graph.loopForest graph.dominators).loops.get? handle = some loop)
    (isInner : (graph.loopForest graph.dominators).loops.get? other = some inner)
    (smaller : inner.blocks.size < loop.blocks.size) : handle < other := by
  have descending := (LoopForest.lists_bodies coherent).descending
  obtain ⟨below, listed⟩ := List.getElem?_eq_some_iff.1 (bodyOf?_loopForest isLoop)
  obtain ⟨innerBelow, innerListed⟩ := List.getElem?_eq_some_iff.1 (bodyOf?_loopForest isInner)
  rcases Nat.lt_trichotomy handle other with before | rfl | after
  · exact before
  · cases isLoop.symm.trans isInner
    exact absurd smaller (Nat.lt_irrefl _)
  · have larger := List.pairwise_iff_getElem.1 descending other handle innerBelow below after
    rw [listed, innerListed] at larger
    exact absurd smaller (Nat.not_lt.2 larger)

/-- An innermost loop contains the header of no other loop. -/
theorem eq_of_innermost (coherent : graph.Coherent)
    (isLoop : (graph.loopForest graph.dominators).loops.get? handle = some loop)
    (innermost : loop.subLoops = [])
    (isInner : (graph.loopForest graph.dominators).loops.get? other = some inner)
    (member : inner.header ∈ loop.blocks) : handle = other := by
  have nests := graph.nests_loopForest graph.dominators
  have natural := coherent.natural isLoop
  -- Take the first loop whose header lies inside; its parent is another one.
  induction other using Nat.strongRecOn generalizing inner with
  | _ other inductionHypothesis =>
      by_contra different
      have innerNatural := coherent.natural isInner
      have headersDiffer : inner.header ≠ loop.header := fun same =>
        different (coherent.eq_of_header_eq isLoop isInner same.symm)
      have smaller := natural.size_lt innerNatural member headersDiffer
      have before := coherent.lt_of_size_lt isLoop isInner smaller
      obtain ⟨above, chosen, least⟩ := LoopForest.exists_smallest?
        (LoopForest.mem_aroundBefore.2 ⟨before, loop, isLoop, headersDiffer.symm, member⟩)
      have isParent : (graph.loopForest graph.dominators).parentOf? other = some above := by
        unfold LoopForest.parentOf?
        rw [isInner]
        exact (nests.parent_eq isInner).trans chosen
      obtain ⟨child, around, isChild, isAround, aboveBefore, -, contains⟩ :=
        nests.parent_around isParent
      cases isInner.symm.trans isChild
      have aroundNatural := coherent.natural isAround
      have aroundMember : around.header ∈ loop.blocks := by
        rcases natural.header_mem_or_header_mem aroundNatural member contains with inside | outside
        · exact inside
        · by_contra notInside
          have aroundDiffers : loop.header ≠ around.header := fun same =>
            notInside (same ▸ natural.header_mem)
          have larger := aroundNatural.size_lt natural outside aroundDiffers
          simp only [LoopForest.sizeOf, isLoop, isAround, Option.map_some, Option.getD_some]
            at least
          omega
      have sameLoop := inductionHypothesis above aboveBefore isAround aroundMember
      have nested : other ∈ loop.subLoops := by
        rw [nests.subLoops_eq isLoop, List.mem_filter, decide_eq_true_iff, sameLoop]
        exact ⟨List.mem_range.2 (Table.get?_isSome_iff.1 (isInner ▸ rfl)), isParent⟩
      rw [innermost] at nested
      exact List.not_mem_nil nested

/-- Two innermost loops with a common block are the same. -/
theorem innermost_disjoint (coherent : graph.Coherent)
    (isLoop : (graph.loopForest graph.dominators).loops.get? handle = some loop)
    (isInner : (graph.loopForest graph.dominators).loops.get? other = some inner)
    (innermost : loop.subLoops = []) (innerInnermost : inner.subLoops = [])
    (member : block ∈ loop.blocks) (innerMember : block ∈ inner.blocks) : handle = other := by
  rcases (coherent.natural isLoop).header_mem_or_header_mem (coherent.natural isInner) member
    innerMember with inside | inside
  · exact coherent.eq_of_innermost isLoop innermost isInner inside
  · exact (coherent.eq_of_innermost isInner innerInnermost isLoop inside).symm

end FlowGraph.Coherent

end Workgroup

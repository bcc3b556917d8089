import Workgroup.Proofs.Flow.Sweep

/-!
Contract: the dominator tree is exact.

In a table that no sweep changes any more, the parent of a block is the nearest
common ancestor of its predecessors.  Whatever a climb reaches there lies on
every walk from the entry.

Owns:
- the exactness of a settled table;
- the questions asked of the finished tree, answered by walks.
-/

namespace Workgroup

namespace DominatorTree

variable {graph : FlowGraph} {entry block above below : BlockId} {order : List BlockId}
  {parents : List (Option BlockId)}

/-! ## A settled table is exact -/

namespace Settled

variable (coherent : graph.Coherent) (enumerates : graph.Enumerates entry order)

include enumerates in
/-- The parent of a block that is not the entry is the nearest common ancestor
of its predecessors. -/
theorem ancestors_parent (settled : Settled graph entry order parents) {parent : BlockId}
    (isParent : parentIn parents block = some parent) (notEntry : block ≠ entry) :
    ∀ other ∈ graph.predecessors block, (parentIn parents other).isSome →
      Climbs (parentIn parents) other parent := by
  intro other isPredecessor present
  have rooted := settled.approximates.rooted
  have predecessors : ∃ other ∈ graph.predecessors block, (parentIn parents other).isSome :=
    ⟨other, isPredecessor, present⟩
  obtain ⟨proposed, isProposed, -, ancestors⟩ := proposal_eq_some rooted predecessors
  have inTail : block ∈ order.tail := by
    obtain ⟨rest, listed⟩ := enumerates.eq_cons
    have member : block ∈ order := settled.approximates.listed (by rw [isParent]; rfl)
    rw [listed] at member ⊢
    exact (List.mem_cons.1 member).resolve_left notEntry
  have kept := settled.fixed block inTail
  unfold improve at kept
  rw [isProposed] at kept
  have inside : block < parents.length := by
    by_contra outside
    unfold parentIn at isParent
    rw [List.getElem?_eq_none (Nat.not_lt.1 outside)] at isParent
    exact absurd isParent nofun
  have same := congrArg (parentIn · block) kept
  simp only [parentIn_set inside, redirect_same, isParent, Option.some.injEq] at same
  rw [← same]
  exact (ancestors proposed).1 (.refl proposed) other isPredecessor present

theorem isSome_iff (settled : Settled graph entry order parents) :
    (parentIn parents block).isSome ↔ block ∈ order :=
  ⟨fun present => settled.approximates.listed present,
    fun member => settled.approximates.renewed member (rank_lt_length.2 member)⟩

include enumerates coherent in
/-- Whatever a climb from the end of a walk reaches is on the walk, or already
reached by a climb from its start. -/
theorem mem_or_climbs (settled : Settled graph entry order parents) {blocks : List BlockId}
    (reachable : graph.Reachable below)
    (walk : Walk graph.successors below block blocks)
    (climbs : Climbs (parentIn parents) block above) :
    above ∈ blocks ∨ Climbs (parentIn parents) below above := by
  induction walk with
  | here node => exact .inr climbs
  | @step start next stop nodes edge rest inductionHypothesis =>
      have nextReachable := reachable.successor edge
      rcases inductionHypothesis nextReachable climbs with member | upper
      · exact .inl (List.mem_cons_of_mem start member)
      · rcases Climbs.iff_eq_or.1 upper with same | ⟨parent, isParent, beyond⟩
        · exact .inl (List.mem_cons_of_mem start (same ▸ rest.start_mem))
        · by_cases isEntry : next = entry
          · rw [isEntry] at upper
            rw [settled.approximates.rooted.eq_root_of_climbs upper, ← isEntry]
            exact .inl (List.mem_cons_of_mem start rest.start_mem)
          · have startPresent := settled.isSome_iff.2 ((enumerates.mem_iff start).2 reachable)
            have follows := settled.ancestors_parent enumerates isParent isEntry start
              (coherent.mem_predecessors.2 edge) startPresent
            exact .inr (follows.trans beyond)

include enumerates coherent in
/-- Climbing reaches exactly the dominators. -/
theorem climbs_iff_dominates (settled : Settled graph entry order parents)
    (isEntry : graph.entryBlock? = some entry) (reachable : graph.Reachable below) :
    Climbs (parentIn parents) below above ↔ graph.Dominates above below := by
  constructor
  · intro climbs
    refine ⟨reachable, fun blocks walk => ?_⟩
    obtain ⟨start, isStart, walk⟩ := walk
    cases isEntry.symm.trans isStart
    rcases settled.mem_or_climbs coherent enumerates (FlowGraph.reachable_entry isEntry) walk
      climbs with member | upper
    · exact member
    · rw [settled.approximates.rooted.eq_root_of_climbs upper]
      exact walk.start_mem
  · intro dominates
    exact settled.approximates.covers
      (settled.isSome_iff.2 ((enumerates.mem_iff below).2 reachable)) dominates

end Settled

end DominatorTree

/-! ## The finished tree -/

namespace FlowGraph

open DominatorTree

variable {graph : FlowGraph} {entry block above below : BlockId}

/-- The sweeps of the dominator tree end in a settled table. -/
theorem Coherent.settled_dominators (coherent : graph.Coherent)
    (isEntry : graph.entryBlock? = some entry) :
    Settled graph entry graph.reversePostorder graph.dominators.parents := by
  have enumerates := coherent.enumerates_reversePostorder isEntry
  refine Approximates.settled_settle coherent enumerates _ _
    (approximates_initialParents coherent isEntry enumerates) ?_
  have bounded : weight graph.reversePostorder (initialParents graph graph.reversePostorder) ≤
      graph.reversePostorder.length * graph.reversePostorder.length := weight_le _
  omega

/-- Without an entry no block has a parent. -/
theorem parents_of_no_entry (noEntry : graph.entryBlock? = none) :
    graph.dominators.parents = List.replicate graph.size none := by
  simp [dominators, reversePostorder_of_no_entry noEntry, settle_nil, initialParents]

theorem Coherent.isReachable_iff (coherent : graph.Coherent) :
    graph.dominators.isReachable block = true ↔ graph.Reachable block := by
  unfold isReachable
  rw [List.contains_iff_mem]
  cases isEntry : graph.entryBlock? with
  | none =>
      refine ⟨fun member => ?_, fun reachable => ?_⟩
      · have listed : graph.dominators.order = [] := reversePostorder_of_no_entry isEntry
        rw [listed] at member
        exact absurd member List.not_mem_nil
      · obtain ⟨blocks, start, isStart, -⟩ := reachable
        exact absurd (isEntry.symm.trans isStart) nofun
  | some entry => exact (coherent.enumerates_reversePostorder isEntry).mem_iff block

theorem Coherent.idom?_eq (coherent : graph.Coherent) (isEntry : graph.entryBlock? = some entry) :
    graph.dominators.idom? block =
      if block = entry then none else parentIn graph.dominators.parents block := by
  have head : graph.dominators.order.head? = some entry :=
    (coherent.enumerates_reversePostorder isEntry).head
  unfold idom?
  rw [head]
  by_cases same : block = entry
  · rw [if_pos (congrArg some same.symm), if_pos same]
  · rw [if_neg (fun equal => same (Option.some.inj equal).symm), if_neg same]

/-- With fuel for its rank, the climb of a block lists what lies above it. -/
theorem Coherent.mem_climb (coherent : graph.Coherent)
    (isEntry : graph.entryBlock? = some entry) :
    ∀ fuel block, rankIn graph.reversePostorder block ≤ fuel →
      (above ∈ graph.dominators.climb fuel block ↔
        Climbs (parentIn graph.dominators.parents) block above) := by
  have settled := coherent.settled_dominators isEntry
  have rooted := settled.approximates.rooted
  intro fuel
  induction fuel with
  | zero =>
      intro block enough
      have member : block ∈ graph.reversePostorder := by
        have enumerates := coherent.enumerates_reversePostorder isEntry
        rw [← rank_lt_length]
        have := List.length_pos_of_mem enumerates.entry_mem
        omega
      have isRoot : block = entry := by
        apply rank_injective member
        rw [rooted.rank_root]
        omega
      subst isRoot
      unfold climb
      rw [List.mem_singleton]
      refine ⟨?_, rooted.eq_root_of_climbs⟩
      rintro rfl
      exact .refl _
  | succ fuel inductionHypothesis =>
      intro block enough
      unfold climb
      rw [coherent.idom?_eq isEntry]
      by_cases isRoot : block = entry
      · rw [if_pos isRoot]
        subst isRoot
        show above ∈ [block] ↔ _
        rw [List.mem_singleton]
        refine ⟨?_, rooted.eq_root_of_climbs⟩
        rintro rfl
        exact .refl _
      · rw [if_neg isRoot, Climbs.iff_eq_or]
        cases isParent : parentIn graph.dominators.parents block with
        | none =>
            show above ∈ [block] ↔ _
            simp only [List.mem_singleton, reduceCtorEq, false_and, exists_false, or_false]
            exact eq_comm
        | some parent =>
            have lower := rooted.rank_lt isParent isRoot
            show above ∈ block :: graph.dominators.climb fuel parent ↔ _
            rw [List.mem_cons, inductionHypothesis parent (by omega)]
            simp only [Option.some.injEq, exists_eq_left']
            exact or_congr_left eq_comm

/-- The tree answers dominance by walks. -/
theorem Coherent.dominates_iff (coherent : graph.Coherent) :
    graph.dominators.dominates above below = true ↔ graph.Dominates above below := by
  unfold DominatorTree.dominates
  rw [Bool.and_eq_true, Bool.and_eq_true, coherent.isReachable_iff, coherent.isReachable_iff,
    List.contains_iff_mem]
  constructor
  · rintro ⟨⟨-, reachable⟩, member⟩
    obtain ⟨blocks, entry, isEntry, walk⟩ := id reachable
    have settled := coherent.settled_dominators isEntry
    have climbs := (coherent.mem_climb isEntry _ below List.idxOf_le_length).1 member
    exact (settled.climbs_iff_dominates coherent
      (coherent.enumerates_reversePostorder isEntry) isEntry reachable).1 climbs
  · intro dominates
    obtain ⟨blocks, entry, isEntry, walk⟩ := id dominates.reachable
    have settled := coherent.settled_dominators isEntry
    have climbs := (settled.climbs_iff_dominates coherent
      (coherent.enumerates_reversePostorder isEntry) isEntry dominates.reachable).2 dominates
    exact ⟨⟨dominates.reachable_above, dominates.reachable⟩,
      (coherent.mem_climb isEntry _ below List.idxOf_le_length).2 climbs⟩

/-- A reachable block other than the entry has an immediate dominator, which
every other dominator of it dominates. -/
theorem Coherent.exists_idom (coherent : graph.Coherent)
    (isEntry : graph.entryBlock? = some entry) (reachable : graph.Reachable block)
    (notEntry : block ≠ entry) :
    ∃ parent, graph.dominators.idom? block = some parent ∧ parent ≠ block ∧
      graph.Dominates parent block ∧
      ∀ other, graph.Dominates other block → other ≠ block → graph.Dominates other parent := by
  have enumerates := coherent.enumerates_reversePostorder isEntry
  have settled := coherent.settled_dominators isEntry
  have present := settled.isSome_iff.2 ((enumerates.mem_iff block).2 reachable)
  obtain ⟨parent, isParent⟩ := Option.isSome_iff_exists.1 present
  have lower := settled.approximates.rooted.rank_lt isParent notEntry
  have dominated := (settled.climbs_iff_dominates coherent enumerates isEntry reachable).1
    (.head isParent (.refl parent))
  refine ⟨parent, ?_, ?_, dominated, fun other dominates different => ?_⟩
  · rw [coherent.idom?_eq isEntry, if_neg notEntry]
    exact isParent
  · rintro rfl
    exact absurd lower (Nat.lt_irrefl _)
  · have climbs := (settled.climbs_iff_dominates coherent enumerates isEntry reachable).2 dominates
    obtain ⟨above, isAbove, rest⟩ := (Climbs.iff_eq_or.1 climbs).resolve_left (Ne.symm different)
    cases isParent.symm.trans isAbove
    exact (settled.climbs_iff_dominates coherent enumerates isEntry
      dominated.reachable_above).1 rest

/-- The entry and what it does not reach have no immediate dominator. -/
theorem Coherent.idom?_eq_none (coherent : graph.Coherent)
    (without : graph.entryBlock? = some block ∨ ¬ graph.Reachable block) :
    graph.dominators.idom? block = none := by
  cases isEntry : graph.entryBlock? with
  | none =>
      unfold idom?
      rw [parents_of_no_entry isEntry, parentIn_replicate, ite_self]
  | some entry =>
      rw [coherent.idom?_eq isEntry]
      split
      · rfl
      · next notEntry =>
        rw [isEntry] at without
        have unreached := without.resolve_left fun same => notEntry (Option.some.inj same).symm
        have enumerates := coherent.enumerates_reversePostorder isEntry
        have settled := coherent.settled_dominators isEntry
        refine Option.eq_none_iff_forall_ne_some.2 fun parent isParent => unreached ?_
        refine (enumerates.mem_iff block).1 (settled.isSome_iff.1 ?_)
        rw [isParent]
        rfl

end FlowGraph

/-- The dominator tree of the graph of a function is exact.  One block
dominates another if and only if the entry reaches both and every walk from the
entry to the second passes through the first.  A reachable block other than the
entry has the nearest of its other dominators as its immediate dominator; the
entry, unreachable blocks and missing blocks have none. -/
theorem Function.dominators_exact (function : Function) (above below : BlockId) :
    (function.graph.dominators.dominates above below = true ↔
      function.graph.Reachable above ∧ function.graph.Reachable below ∧
        ∀ blocks, function.graph.EntryWalk below blocks → above ∈ blocks) ∧
    (function.graph.Reachable below → function.graph.entryBlock? ≠ some below →
      ∃ parent, function.graph.dominators.idom? below = some parent ∧ parent ≠ below ∧
        function.graph.dominators.dominates parent below = true ∧
        ∀ other, function.graph.dominators.dominates other below = true → other ≠ below →
          function.graph.dominators.dominates other parent = true) ∧
    (function.graph.entryBlock? = some below ∨ ¬ function.graph.Reachable below ∨
        function.graph.size ≤ below →
      function.graph.dominators.idom? below = none) := by
  have coherent := function.coherent_graph
  refine ⟨?_, fun reachable notEntry => ?_, fun without => ?_⟩
  · rw [coherent.dominates_iff]
    exact ⟨fun dominates => ⟨dominates.reachable_above, dominates⟩, fun passes => passes.2⟩
  · simp only [coherent.dominates_iff]
    obtain ⟨blocks, entry, isEntry, -⟩ := id reachable
    exact coherent.exists_idom isEntry reachable fun same => notEntry (same ▸ isEntry)
  · refine coherent.idom?_eq_none ?_
    rcases without with isEntry | unreached | missing
    · exact .inl isEntry
    · exact .inr unreached
    · exact .inr fun reachable => absurd (coherent.lt_size reachable) (Nat.not_lt.2 missing)

end Workgroup

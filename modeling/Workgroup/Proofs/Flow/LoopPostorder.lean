import Workgroup.Proofs.Flow.Enclosure

/-!
Contract: the order in which loops are visited.

The search below a loop lists what climbs to it, and siblings have nothing in
common, so no loop is listed before one that climbs to it.  Containment of loops
is the same as climbing, which makes the order innermost first.

Owns:
- orders that list every loop once and inner loops first;
- the links of a forest behind the search;
- the postorder of the forest of a function as such an order.
-/

namespace Workgroup

open DominatorTree (Climbs)

namespace LoopForest

variable {forest : LoopForest} {handle child : LoopId} {handles : List LoopId}

/-- Every loop is listed once, and behind all loops that lie inside it. -/
structure InnermostFirst (forest : LoopForest) (order : List LoopId) : Prop where
  perm : order.Perm forest.loops.handles
  inner_mem_front : ∀ {front handle back child loop inner}, order = front ++ handle :: back →
    forest.loops.get? handle = some loop → forest.loops.get? child = some inner →
    inner.StrictlyInside loop → child ∈ front

namespace Nests

/-- The search from a loop lists nothing but what climbs to it. -/
theorem climbs_of_mem_nested (nests : forest.Nests) {fuel : Nat}
    (listed : child ∈ forest.nested fuel handle) : Climbs forest.parentOf? child handle := by
  induction fuel generalizing handle with
  | zero => exact absurd listed List.not_mem_nil
  | succ fuel inductionHypothesis =>
      unfold LoopForest.nested at listed
      rcases List.mem_append.1 listed with below | self
      · obtain ⟨middle, isSub, deeper⟩ := List.mem_flatMap.1 below
        have isParent : forest.parentOf? middle = some handle := nests.mem_subLoops.1 isSub
        exact (inductionHypothesis deeper).trans (.head isParent (.refl handle))
      · rw [List.mem_singleton.1 self]
        exact .refl handle

/-- Searches from siblings, one after the other, put no loop before one that
climbs to it if each of them does not. -/
theorem pairwise_siblings (nests : forest.Nests) {fuel : Nat} (nodup : handles.Nodup)
    (siblings : ∀ left ∈ handles, ∀ right ∈ handles,
      forest.parentOf? left = forest.parentOf? right)
    (each : ∀ handle ∈ handles, (forest.nested fuel handle).Pairwise fun before after =>
      ¬ Climbs forest.parentOf? after before) :
    (handles.flatMap (forest.nested fuel)).Pairwise fun before after =>
      ¬ Climbs forest.parentOf? after before := by
  refine List.pairwise_flatMap.2 ⟨each, List.Pairwise.imp_of_mem ?_ nodup⟩
  intro left right leftMember rightMember different before beforeListed after afterListed climbs
  apply different
  have leftClimbs := climbs.trans (nests.climbs_of_mem_nested beforeListed)
  have rightClimbs := nests.climbs_of_mem_nested afterListed
  have same := siblings left leftMember right rightMember
  rcases leftClimbs.total rightClimbs with up | up
  · exact nests.eq_of_climbs same up
  · exact (nests.eq_of_climbs same.symm up).symm

theorem pairwise_nested (nests : forest.Nests) (fuel : Nat) (handle : LoopId) :
    (forest.nested fuel handle).Pairwise fun before after =>
      ¬ Climbs forest.parentOf? after before := by
  induction fuel generalizing handle with
  | zero => exact .nil
  | succ fuel inductionHypothesis =>
      have isParent {sub : LoopId} (member : sub ∈
          ((forest.loops.get? handle).map Loop.subLoops).getD []) :
          forest.parentOf? sub = some handle := nests.mem_subLoops.1 member
      unfold LoopForest.nested
      refine List.pairwise_append.2 ⟨?_, List.pairwise_singleton _ _, ?_⟩
      · apply nests.pairwise_siblings
        · cases isLoop : forest.loops.get? handle with
          | none => exact .nil
          | some loop => exact nests.nodup_subLoops isLoop
        · intro left leftMember right rightMember
          rw [isParent leftMember, isParent rightMember]
        · exact fun sub _ => inductionHypothesis sub
      · -- The loop itself comes last, and its handle is too small to climb to a nested one.
        intro before listed after isLast climbs
        obtain ⟨sub, isSub, deeper⟩ := List.mem_flatMap.1 listed
        rw [List.mem_singleton.1 isLast] at climbs
        have above := nests.climbs_le climbs
        have below := nests.climbs_le (nests.climbs_of_mem_nested deeper)
        have lower := nests.parent_lt (isParent isSub)
        exact absurd (above.trans_lt lower) (Nat.not_lt.2 below)

/-- No loop comes before one that climbs to it. -/
theorem pairwise_postorder (nests : forest.Nests) :
    forest.postorder.Pairwise fun before after => ¬ Climbs forest.parentOf? after before := by
  have noParent {handle : LoopId} (member : handle ∈ forest.topLevel) :
      forest.parentOf? handle = none := by
    obtain ⟨loop, isLoop, isRoot⟩ := nests.mem_topLevel_iff.1 member
    unfold parentOf?
    rw [isLoop]
    exact isRoot
  apply nests.pairwise_siblings nests.nodup_topLevel
  · intro left leftMember right rightMember
    rw [noParent leftMember, noParent rightMember]
  · exact fun handle _ => nests.pairwise_nested _ handle

end Nests

end LoopForest

/-! ## Containment and climbing -/

/-- A loop climbs to every loop that it lies inside. -/
theorem FlowGraph.Coherent.climbs_of_inside {graph : FlowGraph} (coherent : graph.Coherent)
    {handle child : LoopId} {loop inner : Loop}
    (isLoop : (graph.loopForest graph.dominators).loops.get? handle = some loop)
    (isInner : (graph.loopForest graph.dominators).loops.get? child = some inner)
    (inside : inner.StrictlyInside loop) :
    Climbs (graph.loopForest graph.dominators).parentOf? child handle := by
  induction child using Nat.strongRecOn generalizing inner with
  | _ child inductionHypothesis =>
      obtain ⟨above, isParent⟩ := coherent.exists_parent isInner isLoop inside
      have isAbove : (graph.loopForest graph.dominators).parentOf? child = some above :=
        LoopForest.parentOf?_eq_some_iff.2 ⟨inner, isInner, isParent⟩
      obtain ⟨outer, isOuter, around, least⟩ := coherent.isSmallest_of_parent isInner isParent
      rcases least handle loop isLoop inside with same | larger
      · rw [same]
        exact .head isAbove (.refl above)
      · -- The parent is smaller than the loop and shares the header with it.
        have header := (coherent.natural isInner).header_mem
        have before := (coherent.lt_of_inside isOuter isInner around).2
        have different : above ≠ handle := by
          intro same
          subst same
          cases isLoop.symm.trans isOuter
          exact absurd larger (Nat.lt_irrefl _)
        rcases coherent.inside_or_inside isOuter isLoop different (around.1 _ header)
          (inside.1 _ header) with within | within
        · exact .head isAbove (inductionHypothesis above before isOuter within)
        · exact absurd (coherent.lt_of_inside isOuter isLoop within).1 (Nat.lt_asymm larger)

/-- The postorder of the loops of a function is innermost first. -/
theorem Function.innermostFirst_postorder (function : Function) :
    (function.graph.loopForest function.graph.dominators).InnermostFirst
      (function.graph.loopForest function.graph.dominators).postorder where
  perm := (function.graph.nests_loopForest _).postorder_perm
  inner_mem_front := by
    intro front handle back child loop inner listed isLoop isInner inside
    have coherent := function.coherent_graph
    have nests := function.graph.nests_loopForest function.graph.dominators
    have climbs := coherent.climbs_of_inside isLoop isInner inside
    have member : child ∈ front ++ handle :: back := by
      rw [← listed, nests.postorder_perm.mem_iff, Table.handles, List.mem_range]
      exact LoopForest.lt_size_of_get? isInner
    have behind := nests.pairwise_postorder
    rw [listed, List.pairwise_append, List.pairwise_cons] at behind
    rcases List.mem_append.1 member with first | later
    · exact first
    · rcases List.mem_cons.1 later with same | after
      · have before := (coherent.lt_of_inside isLoop isInner inside).2
        rw [same] at before
        exact absurd before (Nat.lt_irrefl _)
      · exact absurd climbs (behind.2.1.1 child after)

end Workgroup

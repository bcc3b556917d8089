import Workgroup.Proofs.Barrier.Persistence
import Workgroup.Proofs.Pass.Freshness

/-!
Contract: the barrier pass may say that it preserves dominators.

A visit leaves the function alone or puts in two barriers.  A barrier is never
put behind a terminator, and where its handle was in use before it was stored it
led nowhere, so no block gets another terminator.  Whatever is computed from the
edges stays as it was, for handles placed anywhere and as often as one likes.

Owns:
- functions on which the control-flow analyses and all names agree;
- a visit by the barrier pass with plain barriers, which keeps them;
- a run of such passes, each of which is handed the analyses of its function.
-/

namespace Workgroup

namespace Function

variable {before after : Function} {instructions : List Instruction} {block : BlockId}

/-- The second function has the edges, and with them the control-flow analyses,
of the first one, and calls blocks and values by the same names. -/
structure KeepsAnalyses (before after : Function) : Prop where
  successors_eq : ∀ block, after.successors block = before.successors block
  graph_eq : after.graph = before.graph
  dominators_eq : after.graph.dominators = before.graph.dominators
  loopForest_eq : after.graph.loopForest after.graph.dominators =
    before.graph.loopForest before.graph.dominators
  blockName_eq : ∀ block, after.blockName block = before.blockName block
  valueName_eq : ∀ value, after.valueName value = before.valueName value

theorem KeepsAnalyses.refl (function : Function) : function.KeepsAnalyses function where
  successors_eq := fun _ => rfl
  graph_eq := rfl
  dominators_eq := rfl
  loopForest_eq := rfl
  blockName_eq := fun _ => rfl
  valueName_eq := fun _ => rfl

theorem KeepsControl.successors_eq (keeps : before.KeepsControl after) (block : BlockId) :
    after.successors block = before.successors block := by
  unfold successors
  rw [keeps.terminator_eq]

namespace Gains

/-- The name of a block is made of its label and its handle. -/
theorem blockName_eq (gains : before.Gains instructions after) (block : BlockId) :
    after.blockName block = before.blockName block := by
  have sameLabel : (after.blocks.get? block).map Block.label =
      (before.blocks.get? block).map Block.label := by
    unfold Table.get?
    rw [← List.getElem?_map, ← List.getElem?_map, gains.labels_eq]
  have ofLabel (body : Option Block) :
      body.bind Block.label = (body.map Block.label).bind id := by
    cases body <;> rfl
  unfold blockName
  rw [ofLabel, sameLabel, ← ofLabel]

/-- The name of a value is made of recorded names and handles. -/
theorem valueName_eq (gains : before.Gains instructions after) (value : Value) :
    after.valueName value = before.valueName value := by
  have sameNames := gains.valueNames_eq
  have sameArguments := gains.signature_eq.2.2
  unfold valueName valueToken
  rw [sameNames, sameArguments]

end Gains

/-- Insertions that keep the control flow keep everything computed from it. -/
theorem KeepsControl.keepsAnalyses (keeps : before.KeepsControl after)
    (gains : before.Gains instructions after) : before.KeepsAnalyses after where
  successors_eq := keeps.successors_eq
  graph_eq := keeps.graph_eq
  dominators_eq := congrArg FlowGraph.dominators keeps.graph_eq
  loopForest_eq := by rw [keeps.graph_eq]
  blockName_eq := gains.blockName_eq
  valueName_eq := gains.valueName_eq

end Function

namespace BarrierPass

variable {σ : Type} {pass : BarrierPass σ} {context : LoopContext σ} {loop : Loop}
  {function : Function} {journal : Journal σ}

/-- With plain barriers a visit that gets to the insertion succeeds. -/
theorem runOnLoop_eq_or_keepsControl (isGroup : pass.factory = .group) :
    (pass.runOnLoop context loop function journal).function = function ∨
      (pass.runOnLoop context loop function journal).changed = true ∧
        function.KeepsControl (pass.runOnLoop context loop function journal).function := by
  rcases pass.kept_or_placed context loop function journal with
    ⟨-, kept⟩ | ⟨eligible, terminator, notes, checked, isUniform, placed⟩
  · exact .inl kept
  obtain ⟨-, condition, branch, -⟩ := EligibleLoop.checkUniform_eq_ok_iff.1 isUniform
  have headerPresent : eligible.header < function.blocks.size :=
    (EligibleLoop.check_eq_ok_iff.1 checked).2.2.2.2.2
  obtain ⟨changed, keeps, -⟩ :=
    place_keepsControl isGroup (journal.setNotes notes) branch headerPresent
  rw [placed]
  exact .inr ⟨changed, keeps⟩

theorem runOnLoop_keepsControl (isGroup : pass.factory = .group) :
    function.KeepsControl (pass.runOnLoop context loop function journal).function := by
  rcases runOnLoop_eq_or_keepsControl isGroup with kept | ⟨-, keeps⟩
  · rw [kept]
    exact .refl function
  · exact keeps

/-- Whatever function, loop, context and oracle the pass meets and whatever it
answers, with plain barriers all control-flow analyses and names stay. -/
theorem runOnLoop_keepsAnalyses (pass : BarrierPass σ) (context : LoopContext σ) (loop : Loop)
    (function : Function) (journal : Journal σ) :
    function.KeepsAnalyses
      ({ pass with factory := .group }.runOnLoop context loop function journal).function := by
  have isGroup : { pass with factory := .group }.factory = .group := rfl
  rcases runOnLoop_eq_or_keepsControl isGroup with kept | ⟨changed, keeps⟩
  · rw [kept]
    exact .refl function
  · have gains := gains_of_changed BarrierFactory.obeys_group.addsOne changed
    exact keeps.keepsAnalyses gains

/-- There are no altered edges to disclose. -/
theorem disclosesEdges (isGroup : pass.factory = .group) : pass.toLoopPass.DisclosesEdges := by
  intro context loop function journal differ
  have keeps : function.KeepsControl (pass.runOnLoop context loop function journal).function :=
    runOnLoop_keepsControl isGroup
  rcases differ with size | ⟨block, successors⟩
  · exact absurd keeps.size_blocks size
  · exact absurd (keeps.successors_eq block) successors

/-- The dominators that are kept through a run of such passes are those of the
function at every visit. -/
theorem run_fresh {passes : List (BarrierPass σ)}
    (areGroup : ∀ pass ∈ passes, pass.factory = .group) (function : Function) (handle : FuncId)
    (analyses : Analyses σ) (journal : Journal σ) :
    ∀ visit ∈ function.visits handle (passes.map toLoopPass) analyses journal,
      visit.before.Fresh := by
  refine (LoopRun.Fresh.start function analyses journal).chained
    (function.visits_chained handle _ analyses journal) ?_
  apply forall_mem_collect
  intro run loop _ _
  apply forall_mem_collect
  intro run pass listed _ visit member
  cases List.mem_singleton.1 member
  obtain ⟨settings, isListed, rfl⟩ := List.mem_map.1 listed
  exact fun _ => disclosesEdges (areGroup settings isListed) _ _ _ _

end BarrierPass

end Workgroup

import Workgroup.Proofs.Barrier.Eligibility
import Workgroup.Proofs.Barrier.Passage
import Workgroup.Proofs.Flow.LoopNesting

/-!
Contract: whether all work-items reach the inserted barriers equally often.

A loop that gets barriers is left at one block, at a two-way branch.  The
barrier before that branch is reached equally often by any two work-items that
take the same arms there.  The barrier at the header is not, unless every
circuit of the header inside the loop visits the exiting block and every
circuit of the exiting block visits the header: a latch that bypasses the exit
branch lets one work-item come back to the header more often than another.

Owns:
- what a loop pass is handed along with a function;
- the exact condition under which both barriers are legal;
- a kernel that violates it and gets barriers all the same.
-/

namespace Workgroup

/-- What a loop pass is handed with a function whose analyses are up to date. -/
def Function.loopContext {σ : Type} (function : Function) (handle : FuncId) (oracle : Oracle σ) :
    LoopContext σ where
  function := handle
  graph := function.graph
  dominators := function.graph.dominators
  forest := function.graph.loopForest function.graph.dominators
  oracle := oracle

/-- A block that ends with a two-way branch and leaves a loop has one arm that
stays in the loop. -/
theorem Loop.eq_of_stays {function : Function} {loop : Loop} {exiting left right : BlockId}
    {condition : Value} {accept reject : BlockId}
    (isExiting : exiting ∈ loop.exitingBlocks function.graph)
    (branch : function.terminatorInstruction? exiting =
      some (.condBranch condition accept reject))
    (leftEdge : left ∈ function.graph.successors exiting)
    (rightEdge : right ∈ function.graph.successors exiting)
    (leftStays : left ∈ loop.blocks) (rightStays : right ∈ loop.blocks) : left = right := by
  have arms {next : BlockId} (edge : next ∈ function.graph.successors exiting) :
      next = accept ∨ next = reject := by
    have listed := (Function.mem_successors_graph.1 edge).1
    unfold Function.successors at listed
    rw [branch] at listed
    simpa [Instruction.successors] using listed
  obtain ⟨-, exit, exitEdge, leaves⟩ := Loop.mem_exitingBlocks.1 isExiting
  have leftDiffers : left ≠ exit := fun same => leaves (same ▸ leftStays)
  have rightDiffers : right ≠ exit := fun same => leaves (same ▸ rightStays)
  have leftArm := arms leftEdge
  have rightArm := arms rightEdge
  rcases arms exitEdge with rfl | rfl
  · exact (leftArm.resolve_left leftDiffers).trans (rightArm.resolve_left rightDiffers).symm
  · exact (leftArm.resolve_right leftDiffers).trans (rightArm.resolve_right rightDiffers).symm

/-- A loop that gets barriers is left at one block, at a two-way branch.  Any
two passages that take the same arms there visit that block equally often.
They visit the header equally often, whichever they are, if and only if the
visits of the header and of the exiting block alternate. -/
theorem BarrierPass.visits_agree_iff {σ : Type} (pass : BarrierPass σ) (function : Function)
    (handle : FuncId) (oracle : Oracle σ) (journal : Journal σ) (loopHandle : LoopId) (loop : Loop)
    (isLoop : (function.graph.loopForest function.graph.dominators).loops.get? loopHandle =
      some loop)
    (changed : (pass.runOnLoop (function.loopContext handle oracle) loop function
      journal).changed = true) :
    ∃ exiting condition accept reject, loop.exitingBlocks function.graph = [exiting] ∧
      function.terminatorInstruction? exiting = some (.condBranch condition accept reject) ∧
      (∀ leftInside leftExit rightInside rightExit,
        loop.Passage function.graph leftInside leftExit →
        loop.Passage function.graph rightInside rightExit →
        SameArms exiting (leftInside ++ [leftExit]) (rightInside ++ [rightExit]) →
        leftInside.count exiting = rightInside.count exiting) ∧
      ((∀ leftInside leftExit rightInside rightExit,
          loop.Passage function.graph leftInside leftExit →
          loop.Passage function.graph rightInside rightExit →
          SameArms exiting (leftInside ++ [leftExit]) (rightInside ++ [rightExit]) →
          leftInside.count loop.header = rightInside.count loop.header) ↔
        loop.Alternates function.graph loop.header exiting) := by
  have natural := function.coherent_graph.natural isLoop
  obtain ⟨eligible, terminator, condition, checked, branch⟩ := of_changed changed
  obtain ⟨-, -, -, only, -, -⟩ := EligibleLoop.check_eq_ok_iff.1 checked
  obtain ⟨isLast, accept, reject, stored⟩ := EligibleLoop.exitBranch?_eq_some_iff.1 branch
  have ends : function.terminatorInstruction? eligible.exiting =
      some (.condBranch condition accept reject) := by
    unfold Function.terminatorInstruction?
    rw [isLast]
    exact stored
  have isExiting : eligible.exiting ∈ loop.exitingBlocks function.graph := by
    have listed : loop.exitingBlocks function.graph = [eligible.exiting] := only
    rw [listed]
    exact List.mem_singleton_self _
  have exitingAgree (leftInside : List BlockId) (leftExit : BlockId) (rightInside : List BlockId)
      (rightExit : BlockId) (left : loop.Passage function.graph leftInside leftExit)
      (right : loop.Passage function.graph rightInside rightExit)
      (same : SameArms eligible.exiting (leftInside ++ [leftExit]) (rightInside ++ [rightExit])) :
      leftInside.count eligible.exiting = rightInside.count eligible.exiting :=
    left.count_exiting_eq right natural.header_mem only same
  refine ⟨eligible.exiting, condition, accept, reject, only, ends, exitingAgree, ?_⟩
  constructor
  · intro agree
    apply Loop.HeaderAgrees.alternates natural only agree
    intro left leftEdge right rightEdge leftStays rightStays
    exact Loop.eq_of_stays isExiting ends leftEdge rightEdge leftStays rightStays
  · intro alternates leftInside leftExit rightInside rightExit left right same
    rw [left.count_header_eq natural.header_mem only alternates,
      right.count_header_eq natural.header_mem only alternates]
    exact exitingAgree leftInside leftExit rightInside rightExit left right same

/-! ## A latch that bypasses the exit branch -/

namespace BypassedExit

/-- The header goes to a latch or to the exiting block, depending on the
work-item; the exiting block goes back or leaves. -/
def kernel : Function where
  name := "k"
  kind := .kernel
  arguments := [⟨"x", .bool⟩, ⟨"c", .bool⟩]
  blocks := ⟨[⟨some "head", [0]⟩, ⟨some "latch", [1]⟩, ⟨some "tail", [2]⟩, ⟨some "exit", [3]⟩]⟩
  instructions :=
    ⟨[.condBranch (.argument 0) 1 2, .branch 0, .condBranch (.argument 1) 0 3, .ret none]⟩
  valueNames := .empty

/-- The header and the condition of the exit branch are uniform. -/
def facts : FactTable :=
  IndexMap.empty.insert 0 ((Facts.empty.markBlock 0).markValue (.argument 1))

/-- The loop of the kernel. -/
def loop : Loop := ⟨0, .ofList [0, 1, 2], none, [], 1⟩

theorem is_loop : (kernel.graph.loopForest kernel.graph.dominators).loops.get? 0 = some loop := by
  decide +kernel

theorem changed : ((BarrierPass.plain .all none).runOnLoop (kernel.loopContext 0 (.ofFacts facts))
    loop kernel (.start ())).changed = true := by
  decide +kernel

/-- One work-item comes back to the header through the latch. -/
theorem passage_around : loop.Passage kernel.graph [0, 1, 0, 2] 3 where
  walk := .step (by decide) (.step (by decide) (.step (by decide) (.step (by decide) (.here 3))))
  stays := by decide +kernel
  leaves := by decide +kernel

/-- Another one goes straight to the exit branch. -/
theorem passage_through : loop.Passage kernel.graph [0, 2] 3 where
  walk := .step (by decide) (.step (by decide) (.here 3))
  stays := by decide +kernel
  leaves := by decide +kernel

theorem same_arms : SameArms 2 [0, 1, 0, 2, 3] [0, 2, 3] :=
  .of_followers_eq (by decide)

/-- The kernel gets its barriers, and two passages that take the same arms
visit the header twice and once. -/
theorem visits_differ :
    (kernel.graph.loopForest kernel.graph.dominators).loops.get? 0 = some loop ∧
    ((BarrierPass.plain .all none).runOnLoop (kernel.loopContext 0 (.ofFacts facts)) loop kernel
      (.start ())).changed = true ∧
    loop.exitingBlocks kernel.graph = [2] ∧
    loop.Passage kernel.graph [0, 1, 0, 2] 3 ∧ loop.Passage kernel.graph [0, 2] 3 ∧
    SameArms 2 [0, 1, 0, 2, 3] [0, 2, 3] ∧
    [0, 1, 0, 2].count loop.header = 2 ∧ [0, 2].count loop.header = 1 :=
  ⟨is_loop, changed, by decide +kernel, passage_around, passage_through, same_arms, by decide,
    by decide⟩

/-- The visits of the header and of the exiting block do not alternate. -/
theorem not_alternates : ¬ loop.Alternates kernel.graph loop.header 2 := by
  obtain ⟨exiting, -, -, -, only, -, -, agree⟩ :=
    BarrierPass.visits_agree_iff (.plain .all none) kernel 0 (.ofFacts facts) (.start ()) 0 loop
      is_loop changed
  have exitingBlocks : loop.exitingBlocks kernel.graph = [2] := by decide +kernel
  rw [exitingBlocks] at only
  obtain rfl := List.singleton_injective only
  intro alternates
  have counted := agree.2 alternates _ _ _ _ passage_around passage_through same_arms
  exact absurd counted (by decide)

end BypassedExit

end Workgroup

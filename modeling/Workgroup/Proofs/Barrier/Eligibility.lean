import Workgroup.Barrier.Placement
import Workgroup.Proofs.Flow.NaturalLoop

/-!
Contract: what the checks of the barrier pass establish.

Owns:
- the structural checks and the exit branch as conditions on the loop;
- what a visit comes to if a check fails and if all pass.
-/

namespace Workgroup

theorem Instruction.branchCondition?_eq_some_iff {instruction : Instruction} {condition : Value} :
    instruction.branchCondition? = some condition ↔
      ∃ accept reject, instruction = .condBranch condition accept reject := by
  cases instruction <;> simp [branchCondition?]

namespace EligibleLoop

variable {accepts : Function → Bool} {loop : Loop} {function : Function} {graph : FlowGraph}
  {tree : DominatorTree} {eligible : EligibleLoop} {terminator : InstId} {condition : Value}

theorem uniqueExitingBlock?_eq_some_iff {exiting : BlockId} :
    loop.uniqueExitingBlock? graph = some exiting ↔ loop.exitingBlocks graph = [exiting] := by
  unfold Loop.uniqueExitingBlock?
  constructor
  · intro isExiting
    split at isExiting
    · next block only =>
      rw [only, Option.some.inj isExiting]
    · exact absurd isExiting nofun
  · intro only
    rw [only]

/-- The structural checks pass if the function is selected and the loop has no
barrier, no nested loop, one exiting block and one entry. -/
theorem check_eq_ok_iff : check accepts loop function graph tree = .ok eligible ↔
    accepts function = true ∧
      (∀ block ∈ loop.blocks, function.containsBarrier block = false) ∧ loop.subLoops = [] ∧
      loop.exitingBlocks graph = [eligible.exiting] ∧
      loop.uniqueHeader? graph tree = some eligible.header ∧
      eligible.header < function.blocks.size := by
  have anyBarrier : loop.blocks.toList.any function.containsBarrier = false ↔
      ∀ block ∈ loop.blocks, function.containsBarrier block = false := by
    simp only [List.any_eq_false, Bool.not_eq_true, OrderedSet.mem_toList]
  have isInnermost : loop.isInnermost = true ↔ loop.subLoops = [] := List.isEmpty_iff
  rw [← anyBarrier, ← isInnermost, ← uniqueExitingBlock?_eq_some_iff]
  unfold check
  cases accepts function with
  | false => simp
  | true =>
      cases loop.blocks.toList.any function.containsBarrier with
      | true => simp
      | false =>
          cases loop.isInnermost with
          | false => simp
          | true =>
              cases loop.uniqueExitingBlock? graph with
              | none => simp
              | some exiting =>
                  cases loop.uniqueHeader? graph tree with
                  | none => simp
                  | some header =>
                      by_cases below : header < function.blocks.size
                      · simp only [Option.filter, Table.contains_iff.2 below]
                        cases eligible
                        simp only [Bool.not_true, Bool.false_eq_true, if_false, if_true,
                          Except.ok.injEq, mk.injEq, true_and, Option.some.injEq]
                        constructor
                        · rintro ⟨rfl, rfl⟩
                          exact ⟨rfl, rfl, below⟩
                        · rintro ⟨rfl, rfl, -⟩
                          exact ⟨rfl, rfl⟩
                      · have missing : function.blocks.contains header = false := by
                          rw [Bool.eq_false_iff]
                          exact fun present => below (Table.contains_iff.1 present)
                        simp only [Option.filter, missing]
                        simp only [Bool.not_true, Bool.false_eq_true, if_false, reduceCtorEq,
                          true_and, Option.some.injEq, false_iff, not_and]
                        rintro - rfl
                        exact below

theorem exitBranch?_eq_some_iff :
    eligible.exitBranch? function = some (terminator, condition) ↔
      function.terminator? eligible.exiting = some terminator ∧ ∃ accept reject,
        function.instructions.get? terminator = some (.condBranch condition accept reject) := by
  unfold exitBranch?
  rw [Option.bind_eq_some_iff]
  simp only [Option.map_eq_some_iff, Option.bind_eq_some_iff,
    Instruction.branchCondition?_eq_some_iff, Prod.mk.injEq]
  constructor
  · rintro ⟨last, isLast, found, ⟨instruction, stored, accept, reject, rfl⟩, rfl, rfl⟩
    exact ⟨isLast, accept, reject, stored⟩
  · rintro ⟨isLast, accept, reject, stored⟩
    exact ⟨terminator, isLast, condition, ⟨_, stored, accept, reject, rfl⟩, rfl, rfl⟩

/-- The uniformity checks pass if the oracle answers yes for the header and for
the condition of the exit branch. -/
theorem checkUniform_eq_ok_iff {σ : Type} {handle : FuncId} {oracle : Oracle σ} {notes : σ} :
    (eligible.checkUniform function handle oracle notes).1 = .ok terminator ↔
      (oracle.block handle eligible.header notes).1 = true ∧
      ∃ condition, eligible.exitBranch? function = some (terminator, condition) ∧
        (oracle.value handle condition (oracle.block handle eligible.header notes).2).1 = true := by
  unfold checkUniform
  cases isUniform : (oracle.block handle eligible.header notes).1 with
  | false => simp [isUniform]
  | true =>
      cases branch : eligible.exitBranch? function with
      | none => simp [isUniform]
      | some found =>
          obtain ⟨last, condition⟩ := found
          cases answer : (oracle.value handle condition
              (oracle.block handle eligible.header notes).2).1 with
          | false =>
              simp only [isUniform, answer, Bool.not_true, Bool.false_eq_true, if_false,
                Bool.not_false, if_true, reduceCtorEq, true_and, false_iff, not_exists, not_and]
              intro other same isUniform
              cases same
              exact absurd (answer.symm.trans isUniform) nofun
          | true =>
              simp only [isUniform, answer, Bool.not_true, Bool.false_eq_true, if_false,
                Except.ok.injEq, true_and]
              constructor
              · rintro rfl
                exact ⟨condition, rfl, answer⟩
              · rintro ⟨other, same, -⟩
                cases same
                rfl

end EligibleLoop

namespace BarrierPass

variable {σ : Type} {pass : BarrierPass σ} {context : LoopContext σ} {loop : Loop}
  {function : Function} {journal : Journal σ} {eligible : EligibleLoop} {terminator : InstId}

/-- Either a uniformity check fails and nothing happens, or both barriers are
asked for. -/
theorem tryInsert_cases (pass : BarrierPass σ) (context : LoopContext σ) (eligible : EligibleLoop)
    (function : Function) (journal : Journal σ) :
    ((pass.tryInsert context eligible function journal).changed = false ∧
      (pass.tryInsert context eligible function journal).function = function) ∨
    ∃ terminator notes,
      (eligible.checkUniform function context.function context.oracle journal.notes).1 =
        .ok terminator ∧
      pass.tryInsert context eligible function journal =
        pass.place eligible terminator function (journal.setNotes notes) := by
  unfold tryInsert
  dsimp only
  split
  · exact .inl ⟨rfl, rfl⟩
  · next terminator isUniform => exact .inr ⟨terminator, _, isUniform, rfl⟩

/-- Either a structural check fails and nothing happens, or the uniformity
checks follow. -/
theorem runOnLoop_cases (pass : BarrierPass σ) (context : LoopContext σ) (loop : Loop)
    (function : Function) (journal : Journal σ) :
    ((pass.runOnLoop context loop function journal).changed = false ∧
      (pass.runOnLoop context loop function journal).function = function) ∨
    ∃ eligible,
      EligibleLoop.check pass.accepts loop function context.graph context.dominators =
        .ok eligible ∧
      pass.runOnLoop context loop function journal =
        pass.tryInsert context eligible function journal := by
  unfold runOnLoop checkEligibility
  cases checked : EligibleLoop.check pass.accepts loop function context.graph
      context.dominators with
  | error decision => exact .inl ⟨rfl, rfl⟩
  | ok eligible => exact .inr ⟨eligible, rfl, rfl⟩

/-- A loop that passes all checks gets to the insertion. -/
theorem runOnLoop_of_checks
    (checked : EligibleLoop.check pass.accepts loop function context.graph context.dominators =
      .ok eligible)
    (isUniform : (eligible.checkUniform function context.function context.oracle
      journal.notes).1 = .ok terminator) :
    ∃ notes, pass.runOnLoop context loop function journal =
      pass.place eligible terminator function (journal.setNotes notes) := by
  unfold runOnLoop checkEligibility
  simp only [checked]
  unfold tryInsert
  simp only [isUniform]
  exact ⟨_, rfl⟩

/-- A visit leaves the function alone, or all checks pass and it gets to the insertion. -/
theorem kept_or_placed (pass : BarrierPass σ) (context : LoopContext σ) (loop : Loop)
    (function : Function) (journal : Journal σ) :
    ((pass.runOnLoop context loop function journal).changed = false ∧
      (pass.runOnLoop context loop function journal).function = function) ∨
    ∃ eligible terminator notes,
      EligibleLoop.check pass.accepts loop function context.graph context.dominators =
        .ok eligible ∧
      (eligible.checkUniform function context.function context.oracle journal.notes).1 =
        .ok terminator ∧
      pass.runOnLoop context loop function journal =
        pass.place eligible terminator function (journal.setNotes notes) := by
  rcases pass.runOnLoop_cases context loop function journal with kept | ⟨eligible, checked, tried⟩
  · exact .inl kept
  rw [tried]
  rcases pass.tryInsert_cases context eligible function journal with
    kept | ⟨terminator, notes, isUniform, placed⟩
  · exact .inl kept
  · exact .inr ⟨eligible, terminator, notes, checked, isUniform, placed⟩

/-- A visit that reports a change got to the insertion. -/
theorem placed_of_changed
    (changed : (pass.runOnLoop context loop function journal).changed = true) :
    ∃ eligible terminator notes,
      EligibleLoop.check pass.accepts loop function context.graph context.dominators =
        .ok eligible ∧
      (eligible.checkUniform function context.function context.oracle journal.notes).1 =
        .ok terminator ∧
      pass.runOnLoop context loop function journal =
        pass.place eligible terminator function (journal.setNotes notes) := by
  rcases pass.kept_or_placed context loop function journal with ⟨unchanged, -⟩ | placed
  · exact absurd (changed.symm.trans unchanged) nofun
  · exact placed

/-- What is known of a loop that the pass reports to have changed. -/
theorem of_changed (changed : (pass.runOnLoop context loop function journal).changed = true) :
    ∃ eligible terminator condition,
      EligibleLoop.check pass.accepts loop function context.graph context.dominators =
        .ok eligible ∧
      eligible.exitBranch? function = some (terminator, condition) := by
  obtain ⟨eligible, terminator, -, checked, isUniform, -⟩ := placed_of_changed changed
  obtain ⟨-, condition, branch, -⟩ := EligibleLoop.checkUniform_eq_ok_iff.1 isUniform
  exact ⟨eligible, terminator, condition, checked, branch⟩

end BarrierPass

end Workgroup

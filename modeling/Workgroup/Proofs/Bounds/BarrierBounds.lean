import Workgroup.Barrier.Placement
import Workgroup.Proofs.Bounds.GraphBounds
import Workgroup.Proofs.Function.Growth

/-!
Contract: the barrier pass stays in range on any function.

A terminator that is found is stored, and a place that is found lies inside a
block that is there.  Nothing is asked of the loop, the context or the oracle.

Owns:
- insertion, the exit branch, the uniformity checks and the visit of a loop in
  guarded form, with plain barriers;
- the agreement of the guarded forms with the definitions.
-/

namespace Workgroup

namespace Function

variable {function : Function} {point : InsertPoint}

/-- Inserts an instruction at a place and returns its handle. -/
def guardedInsert (function : Function) (point : InsertPoint) (instruction : Instruction) :
    Guarded (Except Fault (Function × InstId)) :=
  match function.position point with
  | .error fault => .ok (.error fault)
  | .ok index => do
      let handle := function.instructions.size
      let body ← Guarded.read function.blocks.entries point.block
      let listed ← Guarded.insert body.instructions index handle
      let entries ← Guarded.write function.blocks.entries point.block
        { body with instructions := listed }
      let instructions := function.instructions.append instruction
      .ok (.ok ({ function with instructions := instructions, blocks := ⟨entries⟩ }, handle))

theorem guardedInsert_eq (function : Function) (point : InsertPoint) (instruction : Instruction) :
    function.guardedInsert point instruction = .ok (function.insert point instruction) := by
  unfold guardedInsert insert
  cases found : function.position point with
  | error fault => rfl
  | ok index =>
      obtain ⟨present, inside⟩ := inside_of_position found
      obtain ⟨body, isBody⟩ := Option.isSome_iff_exists.1 (Table.get?_isSome_iff.2 present)
      have insideBody : index ≤ body.instructions.length := by
        unfold placed at inside
        rw [isBody] at inside
        exact inside
      have written := Guarded.write_eq_modify isBody fun body =>
        { body with
          instructions := body.instructions.insertIdx index function.instructions.size }
      dsimp only
      rw [Guarded.read_eq_ok isBody, Guarded.ok_bind, Guarded.insert_eq_ok insideBody,
        Guarded.ok_bind, written]
      rfl

end Function

/-! ## Plain barriers -/

namespace BarrierFactory

variable {σ : Type}

/-- Asks for a plain barrier at each place, up to the first failure. -/
def guardedRunAll : List InsertPoint → Function → σ → Guarded (FactoryRun σ)
  | [], function, notes => .ok ⟨none, function, notes⟩
  | point :: rest, function, notes => do
      let answer ← function.guardedInsert point .barrier
      match answer with
      | .error fault => .ok ⟨some fault, function, notes⟩
      | .ok (inserted, _) => guardedRunAll rest inserted notes

theorem guardedRunAll_eq (points : List InsertPoint) (function : Function) (notes : σ) :
    guardedRunAll points function notes = .ok (group.runAll points function notes) := by
  induction points generalizing function with
  | nil => rfl
  | cons point points inductionHypothesis =>
      unfold guardedRunAll runAll group
      rw [Function.guardedInsert_eq, Guarded.ok_bind]
      cases function.insert point .barrier with
      | error fault => rfl
      | ok inserted => exact inductionHypothesis inserted.1

end BarrierFactory

/-! ## The checks and the visit -/

namespace EligibleLoop

/-- The terminator of the exiting block and its condition, read off the storage. -/
def guardedExitBranch? (eligible : EligibleLoop) (function : Function) :
    Guarded (Option (InstId × Value)) :=
  match function.terminator? eligible.exiting with
  | none => .ok none
  | some terminator => do
      let instruction ← Guarded.read function.instructions.entries terminator
      .ok (instruction.branchCondition?.map fun condition => (terminator, condition))

theorem guardedExitBranch?_eq (eligible : EligibleLoop) (function : Function) :
    eligible.guardedExitBranch? function = .ok (eligible.exitBranch? function) := by
  unfold guardedExitBranch? exitBranch?
  cases isLast : function.terminator? eligible.exiting with
  | none => rfl
  | some terminator =>
      obtain ⟨instruction, stored⟩ := Function.exists_stored_of_terminator? isLast
      simp [Guarded.read_eq_ok stored, stored]

variable {σ : Type}

/-- The uniformity checks, in order. -/
def guardedCheckUniform (eligible : EligibleLoop) (function : Function) (handle : FuncId)
    (oracle : Oracle σ) (notes : σ) : Guarded (Except BarrierDecision InstId × σ) :=
  let label := function.blockName eligible.header
  let header := oracle.block handle eligible.header notes
  if !header.1 then .ok (.error (.headerNotUniform label), header.2)
  else do
    let branch ← eligible.guardedExitBranch? function
    match branch with
    | none =>
        .ok (.error (.exitNotConditional label (function.blockName eligible.exiting)), header.2)
    | some (terminator, condition) =>
        let exit := oracle.value handle condition header.2
        if !exit.1 then
          .ok (.error (.conditionNotUniform label (function.valueName condition)), exit.2)
        else .ok (.ok terminator, exit.2)

theorem guardedCheckUniform_eq (eligible : EligibleLoop) (function : Function) (handle : FuncId)
    (oracle : Oracle σ) (notes : σ) :
    eligible.guardedCheckUniform function handle oracle notes =
      .ok (eligible.checkUniform function handle oracle notes) := by
  unfold guardedCheckUniform checkUniform
  rw [guardedExitBranch?_eq]
  dsimp only [Guarded.ok_bind]
  cases (oracle.block handle eligible.header notes).1 with
  | false => rfl
  | true =>
      cases eligible.exitBranch? function with
      | none => rfl
      | some branch =>
          dsimp only
          cases (oracle.value handle branch.2
            (oracle.block handle eligible.header notes).2).1 <;> rfl

end EligibleLoop

namespace BarrierPass

variable {σ : Type}

/-- The pass with plain barriers in place of those of its factory. -/
def withPlainBarriers (pass : BarrierPass σ) : BarrierPass σ := { pass with factory := .group }

/-- Inserts both barriers, or leaves the function as it was. -/
def guardedPlace (pass : BarrierPass σ) (eligible : EligibleLoop) (terminator : InstId)
    (function : Function) (journal : Journal σ) : Guarded (LoopOutcome σ) :=
  let points := eligible.points function terminator
  match function.misplacement? points with
  | some fault => .ok ⟨false, function, journal.write (.notPlaced function.name fault)⟩
  | none => do
      let run ← BarrierFactory.guardedRunAll points function journal.notes
      match run.failure with
      | some fault =>
          let restored := run.function.truncateInstructions function.instructions.size
          .ok ⟨false, restored, (journal.setNotes run.notes).write (.notPlaced restored.name fault)⟩
      | none =>
          let decision := BarrierDecision.inserted (run.function.blockName eligible.header)
            (run.function.blockName eligible.exiting)
          .ok ⟨true, run.function, pass.record run.function decision (journal.setNotes run.notes)⟩

/-- The uniformity checks and, if they pass, the insertion. -/
def guardedTryInsert (pass : BarrierPass σ) (context : LoopContext σ) (eligible : EligibleLoop)
    (function : Function) (journal : Journal σ) : Guarded (LoopOutcome σ) := do
  let checked ←
    eligible.guardedCheckUniform function context.function context.oracle journal.notes
  let journal := journal.setNotes checked.2
  match checked.1 with
  | .error decision => .ok ⟨false, function, pass.record function decision journal⟩
  | .ok terminator => pass.guardedPlace eligible terminator function journal

/-- The visit of a loop with plain barriers.  The structural checks index nothing. -/
def guardedRunOnLoop (pass : BarrierPass σ) (context : LoopContext σ) (loop : Loop)
    (function : Function) (journal : Journal σ) : Guarded (LoopOutcome σ) :=
  match pass.checkEligibility context loop function journal with
  | (none, journal) => .ok ⟨false, function, journal⟩
  | (some eligible, journal) => pass.guardedTryInsert context eligible function journal

theorem guardedPlace_eq (pass : BarrierPass σ) (eligible : EligibleLoop) (terminator : InstId)
    (function : Function) (journal : Journal σ) :
    pass.guardedPlace eligible terminator function journal =
      .ok (pass.withPlainBarriers.place eligible terminator function journal) := by
  unfold guardedPlace place withPlainBarriers
  simp only [BarrierFactory.guardedRunAll_eq, Guarded.ok_bind]
  cases function.misplacement? (eligible.points function terminator) with
  | some fault => rfl
  | none =>
      dsimp only
      cases (BarrierFactory.group.runAll (eligible.points function terminator) function
        journal.notes).failure <;> rfl

theorem guardedTryInsert_eq (pass : BarrierPass σ) (context : LoopContext σ)
    (eligible : EligibleLoop) (function : Function) (journal : Journal σ) :
    pass.guardedTryInsert context eligible function journal =
      .ok (pass.withPlainBarriers.tryInsert context eligible function journal) := by
  unfold guardedTryInsert tryInsert
  rw [EligibleLoop.guardedCheckUniform_eq]
  dsimp only [Guarded.ok_bind]
  cases (eligible.checkUniform function context.function context.oracle journal.notes).1 with
  | error decision => rfl
  | ok terminator => exact pass.guardedPlace_eq eligible terminator function _

/-- The visit of a loop uses no index out of range. -/
theorem guardedRunOnLoop_eq (pass : BarrierPass σ) (context : LoopContext σ) (loop : Loop)
    (function : Function) (journal : Journal σ) :
    pass.guardedRunOnLoop context loop function journal =
      .ok (pass.withPlainBarriers.runOnLoop context loop function journal) := by
  have sameChecks : pass.withPlainBarriers.checkEligibility context loop function journal =
      pass.checkEligibility context loop function journal := rfl
  unfold guardedRunOnLoop runOnLoop
  rw [sameChecks]
  obtain ⟨eligible?, afterChecks⟩ := pass.checkEligibility context loop function journal
  cases eligible? with
  | none => rfl
  | some eligible => exact pass.guardedTryInsert_eq context eligible function afterChecks

end BarrierPass

end Workgroup

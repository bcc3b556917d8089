import Workgroup.Proofs.Barrier.Qualification
import Workgroup.Proofs.Barrier.Rollback

/-!
Contract: the visit of one loop by a barrier pass with the plain factory.

The loop, the graph, the dominators and the oracle need not belong to the
function; of the function itself only the placement of its handles is assumed.
The conditions on the loop are stated on blocks and edges, without the checks.

Owns:
- loops that admit barriers;
- functions that gained the pair of barriers of one loop;
- the visit of a loop: when it reports a change, and what the function is then.
-/

namespace Workgroup

namespace Loop

variable {loop : Loop} {graph : FlowGraph} {tree : DominatorTree} {block : BlockId}

/-- The block belongs to the loop and has an edge out of it. -/
def Leaves (graph : FlowGraph) (loop : Loop) (block : BlockId) : Prop :=
  block ∈ loop.blocks ∧ ∃ target ∈ graph.successors block, target ∉ loop.blocks

/-- The header belongs to the loop, and no reachable block outside has an edge
to another block of the loop. -/
def EnteredAtHeader (graph : FlowGraph) (tree : DominatorTree) (loop : Loop) : Prop :=
  loop.header ∈ loop.blocks ∧ ∀ block ∈ loop.blocks, block ≠ loop.header →
    ∀ predecessor ∈ graph.predecessors block, tree.isReachable predecessor = true →
      predecessor ∈ loop.blocks

/-- One block is listed as exiting exactly if it is the only one that leaves. -/
theorem exitingBlocks_eq_singleton_iff {exiting : BlockId} :
    loop.exitingBlocks graph = [exiting] ↔ ∀ block, loop.Leaves graph block ↔ block = exiting := by
  have distinct : (loop.exitingBlocks graph).Nodup :=
    loop.blocks.nodup_toList.filter _
  constructor
  · intro only block
    unfold Leaves
    rw [← mem_exitingBlocks, only, List.mem_singleton]
  · intro only
    apply List.perm_singleton.1
    rw [List.perm_ext_iff_of_nodup distinct (List.nodup_singleton exiting)]
    intro block
    rw [mem_exitingBlocks, List.mem_singleton]
    exact only block

theorem hasSideEntry_eq_false_iff :
    loop.hasSideEntry graph tree = false ↔ ∀ block ∈ loop.blocks, block ≠ loop.header →
      ∀ predecessor ∈ graph.predecessors block, tree.isReachable predecessor = true →
        predecessor ∈ loop.blocks := by
  unfold hasSideEntry
  simp only [List.any_eq_false, OrderedSet.mem_toList, Bool.and_eq_true, bne_iff_ne,
    List.any_eq_true, Bool.not_eq_true', not_and, not_exists, Bool.not_eq_false, contains_iff]

theorem uniqueHeader?_eq_some_iff {header : BlockId} :
    loop.uniqueHeader? graph tree = some header ↔
      header = loop.header ∧ loop.EnteredAtHeader graph tree := by
  unfold uniqueHeader? EnteredAtHeader
  rw [← hasSideEntry_eq_false_iff, ← contains_iff]
  simp only [Bool.and_eq_true, Bool.not_eq_true', Option.ite_none_right_eq_some,
    Option.some.injEq, eq_comm (a := header), and_comm]

/-- The loop may get barriers: in its header and in front of the exit branch. -/
structure Admits {σ : Type} (accepts : Function → Bool) (context : LoopContext σ)
    (function : Function) (notes : σ) (loop : Loop) (eligible : EligibleLoop) : Prop where
  accepted : accepts function = true
  unsynchronized : ∀ block ∈ loop.blocks, function.containsBarrier block = false
  innermost : loop.subLoops = []
  only : ∀ block, loop.Leaves context.graph block ↔ block = eligible.exiting
  header_eq : eligible.header = loop.header
  entered : loop.EnteredAtHeader context.graph context.dominators
  present : eligible.header < function.blocks.size
  uniformHeader : (context.oracle.block context.function eligible.header notes).1 = true
  /-- The condition is asked for with the notes that the first query leaves. -/
  uniformBranch : ∃ condition accept reject,
    function.terminatorInstruction? eligible.exiting =
      some (.condBranch condition accept reject) ∧
    (context.oracle.value context.function condition
      (context.oracle.block context.function eligible.header notes).2).1 = true

/-- The checks pass for the loops that admit barriers. -/
theorem admits_iff_checks {σ : Type} {accepts : Function → Bool} {context : LoopContext σ}
    {function : Function} {notes : σ} {eligible : EligibleLoop} :
    loop.Admits accepts context function notes eligible ↔
      EligibleLoop.check accepts loop function context.graph context.dominators = .ok eligible ∧
      ∃ terminator, (eligible.checkUniform function context.function context.oracle notes).1 =
        .ok terminator := by
  have branchOf (condition : Value) : (∃ accept reject,
      function.terminatorInstruction? eligible.exiting =
        some (.condBranch condition accept reject)) ↔
      ∃ terminator, eligible.exitBranch? function = some (terminator, condition) := by
    simp only [EligibleLoop.exitBranch?_eq_some_iff]
    unfold Function.terminatorInstruction?
    simp only [Option.bind_eq_some_iff]
    tauto
  rw [EligibleLoop.check_eq_ok_iff]
  simp only [EligibleLoop.checkUniform_eq_ok_iff, exitingBlocks_eq_singleton_iff,
    uniqueHeader?_eq_some_iff]
  constructor
  · intro ⟨accepted, unsynchronized, innermost, only, header_eq, entered, present, uniformHeader,
      condition, accept, reject, branch, uniformValue⟩
    obtain ⟨terminator, isBranch⟩ := (branchOf condition).1 ⟨accept, reject, branch⟩
    exact ⟨⟨accepted, unsynchronized, innermost, only, ⟨header_eq, entered⟩, present⟩, terminator,
      uniformHeader, condition, isBranch, uniformValue⟩
  · intro ⟨⟨accepted, unsynchronized, innermost, only, ⟨header_eq, entered⟩, present⟩, terminator,
      uniformHeader, condition, isBranch, uniformValue⟩
    obtain ⟨accept, reject, branch⟩ := (branchOf condition).2 ⟨terminator, isBranch⟩
    exact ⟨accepted, unsynchronized, innermost, only, header_eq, entered, present, uniformHeader,
      condition, accept, reject, branch, uniformValue⟩

end Loop

namespace Function

variable {before after : Function} {eligible : EligibleLoop} {terminator : InstId}

/-- The second function is the first one with two more barriers: one right
behind the leading phis of the header, one right in front of the terminator of
the exiting block. -/
structure GainsPair (before after : Function) (eligible : EligibleLoop) : Prop where
  instructions_eq :
    after.instructions.entries = before.instructions.entries ++ [.barrier, .barrier]
  /-- The two new handles are placed once each, the others as often as before. -/
  placed_perm : after.allPlaced.Perm
    (before.allPlaced ++ [before.instructions.size, before.instructions.size + 1])
  placed_eq : ∃ entry exit terminator front rest,
    [entry, exit].Perm [before.instructions.size, before.instructions.size + 1] ∧
    before.terminator? eligible.exiting = some terminator ∧
    after.placed eligible.header = before.leadingPhis eligible.header ++ entry :: rest ∧
    after.placed eligible.exiting = front ++ [exit, terminator]
  /-- Without the two new handles everything is as it was. -/
  withdraw_eq : after.withdraw before.instructions.size = before

/-- What ends a block as its terminator stands behind the phis. -/
theorem behindPhis_of_terminator? {block : BlockId}
    (isTerminator : before.terminator? block = some terminator) :
    ∃ rest, before.behindPhis block = rest ++ [terminator] := by
  obtain ⟨isLast, stored⟩ := Option.filter_eq_some_iff.1 isTerminator
  apply exists_behindPhis_eq isLast
  rw [Bool.eq_false_iff]
  intro isPhi
  rw [Synchronizes.not_isTerminator_of_leadsToPhi isPhi] at stored
  exact absurd stored nofun

/-- The two new handles of a synchronized loop, told apart by where they are. -/
theorem Synchronizes.exists_pair (synchronizes : before.Synchronizes after [eligible])
    (wellPlaced : before.WellPlaced)
    (isTerminator : before.terminator? eligible.exiting = some terminator) :
    ∃ entry exit front rest, entry ≠ exit ∧ before.instructions.size ≤ entry ∧
      before.instructions.size ≤ exit ∧
      after.placed eligible.header = before.leadingPhis eligible.header ++ entry :: rest ∧
      after.placed eligible.exiting = front ++ [exit, terminator] := by
  have afterPlaced := synchronizes.wellPlaced wellPlaced
  obtain ⟨behind, exitingRest⟩ := behindPhis_of_terminator? isTerminator
  obtain ⟨first, second, exitingPlaced, firstLength, secondLength, exitingNew⟩ :=
    synchronizes.placed_eq eligible.exiting
  rw [if_pos (by simp)] at secondLength
  obtain ⟨exit, rfl⟩ := List.length_eq_one_iff.1 secondLength
  rw [exitingRest, List.dropLast_concat, List.getLast?_concat] at exitingPlaced
  have exitingListed : after.placed eligible.exiting =
      (before.leadingPhis eligible.exiting ++ first ++ behind) ++ [exit, terminator] := by
    rw [exitingPlaced]
    simp
  have exitNew : before.instructions.size ≤ exit := exitingNew exit (by simp)
  by_cases same : eligible.header = eligible.exiting
  · -- One block holds both handles.
    rw [if_pos (by simp [same])] at firstLength
    obtain ⟨entry, rfl⟩ := List.length_eq_one_iff.1 firstLength
    have bothListed : after.placed eligible.header =
        before.leadingPhis eligible.header ++ entry :: (behind ++ [exit, terminator]) := by
      rw [same, exitingListed]
      simp
    have distinct := afterPlaced.nodup_placed eligible.header
    rw [bothListed] at distinct
    refine ⟨entry, exit, _, _, ?_, exitingNew entry (by simp), exitNew, bothListed, exitingListed⟩
    intro equal
    simp [equal, List.nodup_append] at distinct
  · obtain ⟨third, fourth, headerPlaced, thirdLength, -, headerNew⟩ :=
      synchronizes.placed_eq eligible.header
    rw [if_pos (by simp)] at thirdLength
    obtain ⟨entry, rfl⟩ := List.length_eq_one_iff.1 thirdLength
    have headerListed : after.placed eligible.header =
        before.leadingPhis eligible.header ++ entry ::
          ((before.behindPhis eligible.header).dropLast ++ fourth ++
            (before.behindPhis eligible.header).getLast?.toList) := by
      rw [headerPlaced]
      simp
    refine ⟨entry, exit, _, _, ?_, headerNew entry (by simp), exitNew, headerListed, exitingListed⟩
    intro equal
    have inHeader : entry ∈ after.placed eligible.header := by simp [headerListed]
    have inExiting : entry ∈ after.placed eligible.exiting := by simp [exitingListed, equal]
    exact same (afterPlaced.eq_of_mem_placed inHeader inExiting)

/-- A function with one synchronized loop has gained the pair of the loop. -/
theorem Synchronizes.gainsPair (synchronizes : before.Synchronizes after [eligible])
    (gains : before.Gains [.barrier, .barrier] after) (wellPlaced : before.WellPlaced)
    (isTerminator : before.terminator? eligible.exiting = some terminator) :
    before.GainsPair after eligible where
  instructions_eq := gains.instructions_eq
  placed_perm := gains.allPlaced_perm
  placed_eq := by
    obtain ⟨entry, exit, front, rest, distinct, entryNew, exitNew, headerListed, exitingListed⟩ :=
      synchronizes.exists_pair wellPlaced isTerminator
    have afterPlaced := synchronizes.wellPlaced wellPlaced
    have inHeader : entry ∈ after.placed eligible.header := by simp [headerListed]
    have inExiting : exit ∈ after.placed eligible.exiting := by simp [exitingListed]
    have entryBelow : entry < after.instructions.size := afterPlaced.stored_of_placed inHeader
    have exitBelow : exit < after.instructions.size := afterPlaced.stored_of_placed inExiting
    rw [gains.size_eq] at entryBelow exitBelow
    rw [List.length_cons, List.length_singleton] at entryBelow exitBelow
    have roles : [entry, exit].Perm [before.instructions.size, before.instructions.size + 1] := by
      have different : (entry : Nat) ≠ exit := distinct
      have either : (entry : Nat) = before.instructions.size ∧
            (exit : Nat) = before.instructions.size + 1 ∨
          (entry : Nat) = before.instructions.size + 1 ∧
            (exit : Nat) = before.instructions.size := by
        omega
      rcases either with ⟨rfl, rfl⟩ | ⟨rfl, rfl⟩
      · exact .refl _
      · exact .swap _ _ _
    exact ⟨entry, exit, terminator, front, rest, roles, isTerminator, headerListed, exitingListed⟩
  withdraw_eq := gains.withdraw_eq fun handle => wellPlaced.stored

end Function

namespace BarrierPass

variable {σ : Type} {pass : BarrierPass σ} {context : LoopContext σ} {loop : Loop}
  {function : Function} {journal : Journal σ} {eligible : EligibleLoop}

/-- The visit of a loop that admits barriers synchronizes it. -/
theorem runOnLoop_of_admits (isGroup : pass.factory = .group) (wellPlaced : function.WellPlaced)
    (admits : loop.Admits pass.accepts context function journal.notes eligible) :
    (pass.runOnLoop context loop function journal).changed = true ∧
      function.Synchronizes (pass.runOnLoop context loop function journal).function
        [eligible] := by
  obtain ⟨checked, terminator, isUniform⟩ := Loop.admits_iff_checks.1 admits
  obtain ⟨-, condition, branch, -⟩ := EligibleLoop.checkUniform_eq_ok_iff.1 isUniform
  obtain ⟨notes, placed⟩ := runOnLoop_of_checks checked isUniform
  rw [placed]
  exact place_group isGroup wellPlaced branch admits.present

/-- The visit of one loop.  It reports a change exactly if the loop admits
barriers; then the function gains the pair of barriers, and otherwise it stays
as it was. -/
theorem runOnLoop_exact (isGroup : pass.factory = .group) (wellPlaced : function.WellPlaced) :
    ((pass.runOnLoop context loop function journal).changed = true ↔
      ∃ eligible, loop.Admits pass.accepts context function journal.notes eligible) ∧
    (∀ eligible, loop.Admits pass.accepts context function journal.notes eligible →
      function.GainsPair (pass.runOnLoop context loop function journal).function eligible) ∧
    ((pass.runOnLoop context loop function journal).changed = false →
      (pass.runOnLoop context loop function journal).function = function) := by
  refine ⟨⟨fun changed => ?_, fun ⟨eligible, admits⟩ => ?_⟩, fun eligible admits => ?_,
    fun unchanged => ?_⟩
  · obtain ⟨eligible, terminator, -, checked, isUniform, -⟩ := granted_of_changed changed
    exact ⟨eligible, Loop.admits_iff_checks.2 ⟨checked, terminator, isUniform⟩⟩
  · exact (runOnLoop_of_admits isGroup wellPlaced admits).1
  · obtain ⟨changed, synchronizes⟩ := runOnLoop_of_admits isGroup wellPlaced admits
    have addsOne : pass.factory.AddsOne := by
      rw [isGroup]
      exact BarrierFactory.obeys_group.addsOne
    obtain ⟨condition, accept, reject, branch, -⟩ := admits.uniformBranch
    obtain ⟨terminator, isTerminator, -⟩ := Option.bind_eq_some_iff.1 branch
    exact synchronizes.gainsPair (gains_of_changed addsOne changed) wellPlaced isTerminator
  · rcases pass.runOnLoop_cases context loop function journal with ⟨-, kept⟩ | ⟨eligible, checked, tried⟩
    · exact kept
    rcases pass.tryInsert_cases context eligible function journal with
      ⟨-, kept⟩ | ⟨terminator, -, isUniform, -⟩
    · rw [tried, kept]
    have admits := Loop.admits_iff_checks.2 ⟨checked, terminator, isUniform⟩
    have changed := (runOnLoop_of_admits isGroup wellPlaced admits).1
    exact absurd (changed.symm.trans unchanged) nofun

end BarrierPass

namespace PhiSpin

/-- A loop of one block that holds a phi and the branch. -/
def kernel : Function where
  name := "k"
  kind := .kernel
  arguments := [⟨"c", .bool⟩]
  blocks := ⟨[⟨some "entry", [0]⟩, ⟨some "spin", [1, 2]⟩, ⟨some "exit", [3]⟩]⟩
  instructions := ⟨[.branch 1, .phi .bool [(.argument 0, 0), (.result 1, 1)],
    .condBranch (.result 1) 1 2, .ret none]⟩
  valueNames := .empty

def loop : Loop := ⟨1, .ofList [1], none, [], 1⟩

/-- Affirms the first query for a block and the second query for a value. -/
def context : LoopContext Nat where
  function := 0
  graph := kernel.graph
  dominators := kernel.graph.dominators
  forest := kernel.graph.loopForest kernel.graph.dominators
  oracle := ⟨fun _ _ asked => (asked == 0, asked + 1), fun _ _ asked => (asked == 1, asked + 1)⟩

def pass : BarrierPass Nat := ⟨fun _ => true, .group, none⟩

theorem wellPlaced : kernel.WellPlaced where
  stored := by
    have inside : ∀ handle ∈ kernel.allPlaced, handle < kernel.instructions.size := by decide
    exact fun {handle} => inside handle
  nodup := by decide

theorem admits : loop.Admits pass.accepts context kernel 0 ⟨1, 1⟩ :=
  Loop.admits_iff_checks.2 ⟨by decide +kernel, 2, by decide +kernel⟩

/-- Both barriers stand between the phi and the branch. -/
theorem pair_inserted : kernel.WellPlaced ∧
    (pass.runOnLoop context loop kernel (.start 0)).changed = true ∧
    kernel.GainsPair (pass.runOnLoop context loop kernel (.start 0)).function ⟨1, 1⟩ := by
  obtain ⟨changed_iff, gains, -⟩ :=
    @BarrierPass.runOnLoop_exact Nat pass context loop kernel (.start 0) rfl wellPlaced
  exact ⟨wellPlaced, changed_iff.2 ⟨_, admits⟩, gains _ admits⟩

end PhiSpin

end Workgroup

import Workgroup.Proofs.Barrier.Insertion

/-!
Contract: which loops the plain barrier pass changes, and how.

A loop qualifies by what the function, its graph and its facts say; the visit
of a qualifying loop synchronizes it, and the visit of any other loop leaves
the function as it is.

Owns:
- qualifying loops, as a condition and as a computed list;
- the answer of the plain pass for one natural loop.
-/

namespace Workgroup

/-- The loop gets barriers: in its header and in front of the exit branch. -/
structure Loop.Qualifies (filter : KernelFilter) (facts : Facts) (function : Function)
    (loop : Loop) (eligible : EligibleLoop) : Prop where
  accepted : filter.accepts function = true
  unsynchronized : ∀ block ∈ loop.blocks, function.containsBarrier block = false
  innermost : loop.subLoops = []
  only : loop.exitingBlocks function.graph = [eligible.exiting]
  header_eq : eligible.header = loop.header
  uniformHeader : facts.isUniformBlock loop.header = true
  uniformBranch : ∃ condition accept reject,
    function.terminatorInstruction? eligible.exiting =
      some (.condBranch condition accept reject) ∧ facts.isUniformValue condition = true

/-- The header and the exiting block of a loop that qualifies. -/
def Loop.qualifying? (filter : KernelFilter) (facts : Facts) (function : Function)
    (loop : Loop) : Option EligibleLoop :=
  match loop.exitingBlocks function.graph with
  | [exiting] =>
      if filter.accepts function && !loop.blocks.toList.any function.containsBarrier &&
          loop.subLoops.isEmpty && facts.isUniformBlock loop.header &&
          ((function.terminatorInstruction? exiting).bind Instruction.branchCondition?).any
            facts.isUniformValue then
        some ⟨loop.header, exiting⟩
      else none
  | _ => none

/-- The headers and exiting blocks of the loops of a function that qualify. -/
def Function.qualifyingLoops (filter : KernelFilter) (facts : Facts) (function : Function) :
    List EligibleLoop :=
  (function.graph.loopForest function.graph.dominators).loops.entries.filterMap
    (Loop.qualifying? filter facts function)

namespace Loop

variable {filter : KernelFilter} {facts : Facts} {function : Function} {loop : Loop}
  {eligible : EligibleLoop}

theorem qualifying?_eq_some_iff :
    loop.qualifying? filter facts function = some eligible ↔
      loop.Qualifies filter facts function eligible := by
  have conditionUniform (exiting : BlockId) :
      ((function.terminatorInstruction? exiting).bind Instruction.branchCondition?).any
        facts.isUniformValue = true ↔ ∃ condition accept reject,
          function.terminatorInstruction? exiting = some (.condBranch condition accept reject) ∧
            facts.isUniformValue condition = true := by
    rw [Option.any_eq_true]
    simp only [Option.bind_eq_some_iff, Instruction.branchCondition?_eq_some_iff]
    constructor
    · rintro ⟨condition, ⟨instruction, isLast, accept, reject, rfl⟩, isUniform⟩
      exact ⟨condition, accept, reject, isLast, isUniform⟩
    · rintro ⟨condition, accept, reject, isLast, isUniform⟩
      exact ⟨condition, ⟨_, isLast, accept, reject, rfl⟩, isUniform⟩
  have noBarrier : (!loop.blocks.toList.any function.containsBarrier) = true ↔
      ∀ block ∈ loop.blocks, function.containsBarrier block = false := by
    simp only [Bool.not_eq_true', List.any_eq_false, Bool.not_eq_true, OrderedSet.mem_toList]
  unfold qualifying?
  constructor
  · intro found
    split at found
    · next exiting only =>
      split at found
      · next holds =>
        cases found
        simp only [Bool.and_eq_true, noBarrier, conditionUniform, List.isEmpty_iff] at holds
        obtain ⟨⟨⟨⟨accepted, unsynchronized⟩, innermost⟩, uniformHeader⟩, uniformBranch⟩ := holds
        exact ⟨accepted, unsynchronized, innermost, only, rfl, uniformHeader, uniformBranch⟩
      · exact absurd found nofun
    · exact absurd found nofun
  · intro qualifies
    obtain ⟨header, exiting⟩ := eligible
    have isHeader : header = loop.header := qualifies.header_eq
    simp only [qualifies.only]
    rw [if_pos, isHeader]
    simp only [Bool.and_eq_true, noBarrier, conditionUniform, List.isEmpty_iff]
    exact ⟨⟨⟨⟨qualifies.accepted, qualifies.unsynchronized⟩, qualifies.innermost⟩,
      qualifies.uniformHeader⟩, qualifies.uniformBranch⟩

/-- The header of a natural loop that qualifies is a block of the loop. -/
theorem Qualifies.header_mem (qualifies : loop.Qualifies filter facts function eligible)
    (natural : loop.Natural function.graph) : eligible.header ∈ loop.blocks := by
  rw [qualifies.header_eq]
  exact natural.header_mem

theorem Qualifies.exiting_mem (qualifies : loop.Qualifies filter facts function eligible) :
    eligible.exiting ∈ loop.blocks := by
  have listed : eligible.exiting ∈ loop.exitingBlocks function.graph := by
    rw [qualifies.only]
    exact List.mem_singleton_self eligible.exiting
  exact (mem_exitingBlocks.1 listed).1

/-- A loop that qualifies in a function qualifies in any other one that looks the
same to the checks. -/
theorem Qualifies.transfer {other : Function}
    (qualifies : loop.Qualifies filter facts function eligible)
    (sameAccepts : filter.accepts other = filter.accepts function)
    (sameGraph : other.graph = function.graph)
    (sameBranch : other.terminatorInstruction? eligible.exiting =
      function.terminatorInstruction? eligible.exiting)
    (noBarriers : ∀ block ∈ loop.blocks, function.containsBarrier block = false →
      other.containsBarrier block = false) : loop.Qualifies filter facts other eligible where
  accepted := sameAccepts.trans qualifies.accepted
  unsynchronized := fun block member =>
    noBarriers block member (qualifies.unsynchronized block member)
  innermost := qualifies.innermost
  only := by
    rw [sameGraph]
    exact qualifies.only
  header_eq := qualifies.header_eq
  uniformHeader := qualifies.uniformHeader
  uniformBranch := by
    rw [sameBranch]
    exact qualifies.uniformBranch

/-- A natural loop qualifies exactly if it passes all checks. -/
theorem qualifies_iff_checks {σ : Type} {table : FactTable} {handle : FuncId} {notes : σ}
    (natural : loop.Natural function.graph) :
    loop.Qualifies filter (table.factsOf handle) function eligible ↔
      EligibleLoop.check filter.accepts loop function function.graph function.graph.dominators =
        .ok eligible ∧
      ∃ terminator, (eligible.checkUniform function handle (.ofFacts table) notes).1 =
        .ok terminator := by
  have coherent := function.coherent_graph
  have entry := natural.uniqueHeader? coherent
  rw [EligibleLoop.check_eq_ok_iff, entry]
  simp only [EligibleLoop.checkUniform_eq_ok_iff, EligibleLoop.exitBranch?_eq_some_iff]
  constructor
  · intro qualifies
    obtain ⟨condition, accept, reject, branch, isUniform⟩ := qualifies.uniformBranch
    obtain ⟨terminator, isLast, stored⟩ := Option.bind_eq_some_iff.1 branch
    have below : eligible.header < function.blocks.size := by
      rw [qualifies.header_eq]
      exact Function.lt_size_of_reachable natural.reachable_header
    refine ⟨⟨qualifies.accepted, qualifies.unsynchronized, qualifies.innermost, qualifies.only,
      congrArg some qualifies.header_eq.symm, below⟩, terminator, ?_, condition,
      ⟨isLast, accept, reject, stored⟩, isUniform⟩
    rw [qualifies.header_eq]
    exact qualifies.uniformHeader
  · rintro ⟨⟨accepted, unsynchronized, innermost, only, isHeader, -⟩, terminator, uniformHeader,
      condition, ⟨isLast, accept, reject, stored⟩, uniformCondition⟩
    have isHeader := Option.some.inj isHeader
    refine ⟨accepted, unsynchronized, innermost, only, isHeader.symm, ?_, condition, accept,
      reject, ?_, uniformCondition⟩
    · rw [isHeader]
      exact uniformHeader
    · unfold Function.terminatorInstruction?
      rw [isLast]
      exact stored

end Loop

namespace BarrierPass

variable {σ : Type} {filter : KernelFilter} {sink : Option (DecisionSink σ)} {loop : Loop}
  {function : Function} {journal : Journal σ} {eligible : EligibleLoop} {terminator : InstId}

/-- The plain factory inserts at a place that is found. -/
theorem group_eq {point : InsertPoint} {index : Nat} (notes : σ)
    (found : function.position point = .ok index) :
    BarrierFactory.group point function notes =
      ⟨.ok function.instructions.size, function.insertAt point.block index .barrier, notes⟩ := by
  unfold BarrierFactory.group Function.insert
  rw [found]

/-- The exit branch is placed last in its block, and it is no phi. -/
theorem last_of_exitBranch? {condition : Value}
    (branch : eligible.exitBranch? function = some (terminator, condition)) :
    (function.placed eligible.exiting).getLast? = some terminator ∧
      function.leadsToPhi terminator = false := by
  obtain ⟨isLast, accept, reject, stored⟩ := EligibleLoop.exitBranch?_eq_some_iff.1 branch
  refine ⟨(Option.filter_eq_some_iff.1 isLast).1, ?_⟩
  unfold Function.leadsToPhi
  rw [stored]
  rfl

/-- Plain barriers go to both places one after the other, if these are found. -/
theorem runAll_group {i j first : Nat} (notes : σ)
    (exitFound : function.position (.before eligible.exiting terminator) = .ok i)
    (entryFoundFirst : function.position (function.firstNonPhi eligible.header) = .ok first)
    (entryFound : (function.insertAt eligible.exiting i .barrier).position
      (function.firstNonPhi eligible.header) = .ok j) :
    function.misplacement? (eligible.points function terminator) = none ∧
      BarrierFactory.group.runAll (eligible.points function terminator) function notes =
        ⟨none, (function.insertAt eligible.exiting i .barrier).insertAt
          (function.firstNonPhi eligible.header).block j .barrier, notes⟩ := by
  constructor
  · unfold Function.misplacement? EligibleLoop.points
    simp only [List.findSome?_cons, List.findSome?_nil, exitFound, entryFoundFirst]
  · unfold EligibleLoop.points
    simp only [BarrierFactory.runAll, group_eq notes exitFound, InsertPoint.block,
      group_eq notes entryFound]

/-- In a well-placed function both places are found, and plain barriers go there. -/
theorem exists_runAll_group (wellPlaced : function.WellPlaced) {condition : Value}
    (branch : eligible.exitBranch? function = some (terminator, condition))
    (headerPresent : eligible.header < function.blocks.size) (notes : σ) :
    ∃ changed, function.misplacement? (eligible.points function terminator) = none ∧
      BarrierFactory.group.runAll (eligible.points function terminator) function notes =
        ⟨none, changed, notes⟩ ∧
      function.Synchronizes changed [eligible] := by
  obtain ⟨isLast, notPhi⟩ := last_of_exitBranch? branch
  obtain ⟨i, j, exitFound, entryFound, synchronizes⟩ :=
    Function.exists_insertions wellPlaced isLast notPhi headerPresent
  have headerNodup := wellPlaced.nodup_placed eligible.header
  rw [function.placed_eq_leadingPhis_append] at headerNodup
  have entryFoundFirst : function.position (function.firstNonPhi eligible.header) =
      .ok (function.leadingPhis eligible.header).length :=
    Function.position_firstNonPhi headerPresent (function.placed_eq_leadingPhis_append _) rfl
      fun handle isHead member => (List.nodup_append.1 headerNodup).2.2 handle member handle
        (List.mem_of_head? isHead) rfl
  obtain ⟨inPlace, whole⟩ := runAll_group notes exitFound entryFoundFirst entryFound
  have entryBlock : (function.firstNonPhi eligible.header).block = eligible.header := by
    rw [Function.firstNonPhi_eq]
    cases function.behindPhis eligible.header <;> rfl
  rw [entryBlock] at whole
  exact ⟨_, inPlace, whole, synchronizes⟩

/-- A pass with the plain factory inserts both barriers into a well-placed function. -/
theorem place_group {pass : BarrierPass σ} (isGroup : pass.factory = .group)
    (wellPlaced : function.WellPlaced) {condition : Value}
    (branch : eligible.exitBranch? function = some (terminator, condition))
    (headerPresent : eligible.header < function.blocks.size) :
    (pass.place eligible terminator function journal).changed = true ∧
      function.Synchronizes (pass.place eligible terminator function journal).function
        [eligible] := by
  obtain ⟨changed, inPlace, whole, synchronizes⟩ :=
    exists_runAll_group wellPlaced branch headerPresent journal.notes
  unfold place
  simp only [inPlace, isGroup, whole, true_and]
  exact synchronizes

/-- The answer of the plain pass for one natural loop. -/
theorem runOnLoop_plain (filter : KernelFilter) (sink : Option (DecisionSink σ))
    (journal : Journal σ) {table : FactTable} {context : LoopContext σ}
    (wellPlaced : function.WellPlaced) (natural : loop.Natural function.graph)
    (graph_eq : context.graph = function.graph)
    (dominators_eq : context.dominators = function.graph.dominators)
    (oracle_eq : context.oracle = .ofFacts table) :
    match loop.qualifying? filter (table.factsOf context.function) function with
    | none =>
        ((plain filter sink).runOnLoop context loop function journal).changed = false ∧
          ((plain filter sink).runOnLoop context loop function journal).function = function
    | some eligible =>
        ((plain filter sink).runOnLoop context loop function journal).changed = true ∧
          function.Synchronizes ((plain filter sink).runOnLoop context loop function
            journal).function [eligible] := by
  have checks {eligible : EligibleLoop} :
      loop.Qualifies filter (table.factsOf context.function) function eligible ↔
        EligibleLoop.check (plain filter sink).accepts loop function context.graph
          context.dominators = .ok eligible ∧
        ∃ terminator, (eligible.checkUniform function context.function context.oracle
          journal.notes).1 = .ok terminator := by
    rw [graph_eq, dominators_eq, oracle_eq]
    exact Loop.qualifies_iff_checks natural
  cases found : loop.qualifying? filter (table.factsOf context.function) function with
  | none =>
      rcases (plain filter sink).kept_or_placed context loop function journal with
        kept | ⟨eligible, terminator, -, checked, isUniform, -⟩
      · exact kept
      have qualifies := Loop.qualifying?_eq_some_iff.2 (checks.2 ⟨checked, terminator, isUniform⟩)
      exact absurd (found.symm.trans qualifies) nofun
  | some eligible =>
      obtain ⟨checked, terminator, isUniform⟩ := checks.1 (Loop.qualifying?_eq_some_iff.1 found)
      obtain ⟨-, condition, branch, -⟩ := EligibleLoop.checkUniform_eq_ok_iff.1 isUniform
      obtain ⟨-, -, -, -, -, headerPresent⟩ := EligibleLoop.check_eq_ok_iff.1 checked
      obtain ⟨notes, placed⟩ := runOnLoop_of_checks checked isUniform
      rw [placed]
      exact place_group rfl wellPlaced branch headerPresent

end BarrierPass

end Workgroup

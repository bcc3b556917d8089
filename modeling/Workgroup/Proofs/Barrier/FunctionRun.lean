import Workgroup.Proofs.Barrier.Qualification
import Workgroup.Proofs.Flow.LoopNesting

/-!
Contract: the plain barrier pass on all loops of one function.

Loops are visited one after the other, each on what the visits before it left.
The loops that qualify are innermost and therefore disjoint, so a visit finds
its loop as it was in the beginning, and the outcome is read off the function
as it was before the first visit.

Owns:
- analyses that keep serving the oracle they were supplied with;
- the invariant of the visits, its step and its run;
- the run of the pass over a function.
-/

namespace Workgroup

/-! ## Analyses -/

/-- An oracle is supplied and nowhere stale. -/
structure Analyses.Serves {σ : Type} (analyses : Analyses σ) (oracle : Oracle σ) : Prop where
  oracle_eq : analyses.oracle = some oracle
  fresh : ∀ handle, (handle, AnalysisKind.uniformity) ∉ analyses.stale

namespace Analyses.Serves

variable {σ : Type} {analyses : Analyses σ} {oracle : Oracle σ} {handle : FuncId}

theorem supplied_oracle (oracle : Oracle σ) : (Analyses.supplied oracle).Serves oracle where
  oracle_eq := rfl
  fresh := fun _ => List.not_mem_nil

theorem supplied (table : FactTable) :
    (Analyses.supplied (.ofFacts table) : Analyses σ).Serves (.ofFacts table) :=
  supplied_oracle _

theorem isAvailable (serves : analyses.Serves oracle) (handle : FuncId) (kind : AnalysisKind) :
    analyses.isAvailable handle kind = true := by
  cases kind with
  | dominators => rfl
  | loops => rfl
  | uniformity =>
      have notStale : analyses.stale.contains (handle, AnalysisKind.uniformity) = false := by
        rw [Bool.eq_false_iff]
        exact fun contained => serves.fresh handle (List.contains_iff_mem.1 contained)
      unfold Analyses.isAvailable
      rw [serves.oracle_eq, notStale]
      rfl

theorem oracleFor_eq (serves : analyses.Serves oracle) : analyses.oracleFor handle = oracle := by
  unfold oracleFor
  rw [serves.isAvailable, serves.oracle_eq]
  rfl

/-- A change by a pass that keeps uniformity leaves the facts available. -/
theorem invalidate (serves : analyses.Serves oracle) {usage : AnalysisUsage}
    (preserves : usage.preserves .uniformity = true) :
    (analyses.invalidate handle usage).Serves oracle where
  oracle_eq := serves.oracle_eq
  fresh := by
    intro other member
    rcases List.mem_append.1 member with before | added
    · exact serves.fresh other before
    · obtain ⟨kind, listed, same⟩ := List.mem_map.1 added
      have notPreserved := (List.mem_filter.1 listed).2
      rw [(Prod.mk.inj same).2, preserves] at notPreserved
      exact absurd notPreserved nofun

end Analyses.Serves

namespace Function

variable {before after : Function} {loops more : List EligibleLoop} {loop : Loop}
  {filter : KernelFilter} {facts : Facts} {eligible : EligibleLoop}

/-! ## Qualification while loops are synchronized -/

/-- A loop whose blocks are not touched qualifies afterwards exactly if it
qualified before. -/
theorem Synchronizes.qualifies_iff (synchronizes : before.Synchronizes after loops)
    (wellPlaced : before.WellPlaced)
    (untouched : loop.subLoops = [] → ∀ block ∈ loop.blocks,
      block ∉ loops.map EligibleLoop.header ∧ block ∉ loops.map EligibleLoop.exiting) :
    loop.Qualifies filter facts after eligible ↔ loop.Qualifies filter facts before eligible := by
  have sameGraph := synchronizes.graph_eq wellPlaced
  have sameBranch := synchronizes.terminatorInstruction?_eq wellPlaced eligible.exiting
  have sameAccepts :=
    accepts_eq filter synchronizes.name_eq synchronizes.kind_eq synchronizes.size_blocks
  have sameBarrier (innermost : loop.subLoops = []) (block : BlockId)
      (member : block ∈ loop.blocks) :
      after.containsBarrier block = before.containsBarrier block :=
    synchronizes.containsBarrier_of_not_mem wellPlaced (untouched innermost block member).1
      (untouched innermost block member).2
  constructor
  · intro qualifies
    apply qualifies.transfer sameAccepts.symm sameGraph.symm sameBranch.symm
    intro block member noBarrier
    exact (sameBarrier qualifies.innermost block member).symm.trans noBarrier
  · intro qualifies
    apply qualifies.transfer sameAccepts sameGraph sameBranch
    intro block member noBarrier
    exact (sameBarrier qualifies.innermost block member).trans noBarrier

theorem Synchronizes.perm (synchronizes : before.Synchronizes after loops)
    (same : loops.Perm more) : before.Synchronizes after more where
  name_eq := synchronizes.name_eq
  kind_eq := synchronizes.kind_eq
  arguments_eq := synchronizes.arguments_eq
  valueNames_eq := synchronizes.valueNames_eq
  labels_eq := synchronizes.labels_eq
  instructions_eq := same.length_eq ▸ synchronizes.instructions_eq
  placed_perm := same.length_eq ▸ synchronizes.placed_perm
  placed_eq := by
    intro block
    obtain ⟨first, second, placed, firstLength, secondLength, new⟩ := synchronizes.placed_eq block
    refine ⟨first, second, placed, ?_, ?_, new⟩
    · simp only [← (same.map EligibleLoop.header).mem_iff]
      exact firstLength
    · simp only [← (same.map EligibleLoop.exiting).mem_iff]
      exact secondLength

end Function

namespace LoopRun

variable {σ : Type} {function : Function} {table : FactTable} {handle : FuncId}
  {filter : KernelFilter} {sink : Option (DecisionSink σ)} {visited : List LoopId}
  {next : LoopId} {run : LoopRun σ} {loop : Loop}

/-- The loops of some handles that qualify in a function. -/
def qualifying (filter : KernelFilter) (facts : Facts) (function : Function)
    (handles : List LoopId) : List EligibleLoop :=
  (handles.filterMap (function.graph.loopForest function.graph.dominators).loops.get?).filterMap
    (Loop.qualifying? filter facts function)

/-- The invariant of the visits: the loops visited so far that qualified in the
beginning are synchronized, and the analyses are those of the beginning. -/
structure Progress (filter : KernelFilter) (table : FactTable) (handle : FuncId)
    (function : Function) (visited : List LoopId) (run : LoopRun σ) : Prop where
  synchronizes : function.Synchronizes run.function
    (qualifying filter (table.factsOf handle) function visited)
  graph_eq : run.graph = function.graph
  dominators_eq : run.dominators = function.graph.dominators
  serves : run.analyses.Serves (.ofFacts table)
  changed_iff : run.changed = true ↔
    qualifying filter (table.factsOf handle) function visited ≠ []

/-- What qualifies among some handles comes from one of their loops. -/
theorem exists_of_mem_qualifying {facts : Facts} {eligible : EligibleLoop}
    (member : eligible ∈ qualifying filter facts function visited) :
    ∃ other ∈ visited, ∃ inner,
      (function.graph.loopForest function.graph.dominators).loops.get? other = some inner ∧
      inner.Qualifies filter facts function eligible := by
  obtain ⟨inner, listed, found⟩ := List.mem_filterMap.1 member
  obtain ⟨other, otherMember, isInner⟩ := List.mem_filterMap.1 listed
  exact ⟨other, otherMember, inner, isInner, Loop.qualifying?_eq_some_iff.1 found⟩

/-- An innermost loop that has not been visited shares no header and no exiting
block with the loops that have been. -/
theorem untouched (filter : KernelFilter) (facts : Facts)
    (isLoop : (function.graph.loopForest function.graph.dominators).loops.get? next = some loop)
    (fresh : next ∉ visited) (innermost : loop.subLoops = []) :
    ∀ block ∈ loop.blocks,
      block ∉ (qualifying filter facts function visited).map EligibleLoop.header ∧
      block ∉ (qualifying filter facts function visited).map EligibleLoop.exiting := by
  intro block blockMember
  have coherent := function.coherent_graph
  have apart {eligible : EligibleLoop}
      (member : eligible ∈ qualifying filter facts function visited) :
      block ≠ eligible.header ∧ block ≠ eligible.exiting := by
    obtain ⟨other, otherVisited, inner, isInner, qualifies⟩ := exists_of_mem_qualifying member
    have separate : block ∉ inner.blocks := by
      intro innerMember
      have same := coherent.innermost_disjoint isLoop isInner innermost qualifies.innermost
        blockMember innerMember
      exact fresh (same ▸ otherVisited)
    have headerMember := qualifies.header_mem (coherent.natural isInner)
    have exitingMember := qualifies.exiting_mem
    exact ⟨fun same => separate (same ▸ headerMember),
      fun same => separate (same ▸ exitingMember)⟩
  constructor
  · intro listed
    obtain ⟨eligible, member, same⟩ := List.mem_map.1 listed
    exact (apart member).1 same.symm
  · intro listed
    obtain ⟨eligible, member, same⟩ := List.mem_map.1 listed
    exact (apart member).2 same.symm

theorem qualifying_snoc {facts : Facts}
    (isLoop : (function.graph.loopForest function.graph.dominators).loops.get? next = some loop) :
    qualifying filter facts function (visited ++ [next]) =
      qualifying filter facts function visited ++
        (loop.qualifying? filter facts function).toList := by
  unfold qualifying
  rw [List.filterMap_append, List.filterMap_append]
  congr 1
  simp only [List.filterMap_cons, isLoop, List.filterMap_nil]
  cases loop.qualifying? filter facts function <;> rfl

/-- The plain pass has all analyses it requires. -/
theorem visit_eq {oracle : Oracle σ} (serves : run.analyses.Serves oracle) (forest : LoopForest) :
    run.visit handle forest loop (BarrierPass.plain filter sink).toLoopPass =
      if ((BarrierPass.plain filter sink).runOnLoop (run.context handle forest) loop run.function
          run.journal).changed then
        run.accept handle loop (BarrierPass.plain filter sink).toLoopPass
          ((BarrierPass.plain filter sink).runOnLoop (run.context handle forest) loop run.function
            run.journal)
      else
        run.keep ((BarrierPass.plain filter sink).runOnLoop (run.context handle forest) loop
          run.function run.journal) := by
  have available :
      run.missing? handle (BarrierPass.plain filter sink).toLoopPass = none := by
    unfold missing?
    rw [List.find?_eq_none]
    intro kind _
    rw [serves.isAvailable]
    exact Bool.false_ne_true
  unfold visit
  rw [available]
  rfl

/-- The visit of a loop that does not qualify leaves the function alone. -/
theorem Progress.keep (progress : Progress filter table handle function visited run)
    (isLoop : (function.graph.loopForest function.graph.dominators).loops.get? next = some loop)
    (nothing : loop.qualifying? filter (table.factsOf handle) function = none)
    {outcome : LoopOutcome σ} (kept : outcome.function = run.function) :
    Progress filter table handle function (visited ++ [next]) (run.keep outcome) := by
  have sameList : qualifying filter (table.factsOf handle) function (visited ++ [next]) =
      qualifying filter (table.factsOf handle) function visited := by
    rw [qualifying_snoc isLoop, nothing]
    exact List.append_nil _
  refine ⟨?_, progress.graph_eq, progress.dominators_eq, progress.serves, ?_⟩
  · rw [sameList]
    unfold LoopRun.keep
    dsimp only
    rw [kept]
    exact progress.synchronizes
  · rw [sameList]
    exact progress.changed_iff

/-- The visit of a qualifying loop adds it to the synchronized ones. -/
theorem Progress.accept (progress : Progress filter table handle function visited run)
    (wellPlaced : function.WellPlaced)
    (isLoop : (function.graph.loopForest function.graph.dominators).loops.get? next = some loop)
    (fresh : next ∉ visited) {eligible : EligibleLoop}
    (found : loop.qualifying? filter (table.factsOf handle) function = some eligible)
    {outcome : LoopOutcome σ}
    (synchronizes : run.function.Synchronizes outcome.function [eligible]) :
    Progress filter table handle function (visited ++ [next])
      (run.accept handle loop (BarrierPass.plain filter sink).toLoopPass outcome) := by
  have qualifies := Loop.qualifying?_eq_some_iff.1 found
  have longerList : qualifying filter (table.factsOf handle) function (visited ++ [next]) =
      qualifying filter (table.factsOf handle) function visited ++ [eligible] := by
    rw [qualifying_snoc isLoop, found]
    rfl
  have headerMember := qualifies.header_mem (function.coherent_graph.natural isLoop)
  have exitingMember := qualifies.exiting_mem
  have apart := untouched filter (table.factsOf handle) isLoop fresh qualifies.innermost
  have headerApart := apart eligible.header headerMember
  have exitingApart := apart eligible.exiting exitingMember
  refine ⟨?_, progress.graph_eq, progress.dominators_eq, progress.serves.invalidate (by rfl), ?_⟩
  · rw [longerList]
    refine progress.synchronizes.trans synchronizes wellPlaced fun block touched => ?_
    simp only [List.map_cons, List.map_nil, List.mem_singleton]
    constructor
    · rintro rfl
      exact touched.elim headerApart.1 headerApart.2
    · rintro rfl
      exact touched.elim exitingApart.1 exitingApart.2
  · rw [longerList]
    exact ⟨fun _ => List.append_ne_nil_of_right_ne_nil _ (List.cons_ne_nil _ _), fun _ => rfl⟩

/-- One visit keeps the invariant. -/
theorem Progress.visitLoop (progress : Progress filter table handle function visited run)
    (wellPlaced : function.WellPlaced)
    (isLoop : (function.graph.loopForest function.graph.dominators).loops.get? next = some loop)
    (fresh : next ∉ visited) (forest : LoopForest) :
    Progress filter table handle function (visited ++ [next])
      (run.visitLoop handle forest [(BarrierPass.plain filter sink).toLoopPass] loop) := by
  have sameGraph := progress.synchronizes.graph_eq wellPlaced
  have natural : loop.Natural run.function.graph := by
    rw [sameGraph]
    exact function.coherent_graph.natural isLoop
  have graph_eq : (run.context handle forest).graph = run.function.graph :=
    progress.graph_eq.trans sameGraph.symm
  have dominators_eq : (run.context handle forest).dominators = run.function.graph.dominators := by
    rw [sameGraph]
    exact progress.dominators_eq
  have oracle_eq : (run.context handle forest).oracle = .ofFacts table :=
    progress.serves.oracleFor_eq
  have answer := BarrierPass.runOnLoop_plain filter sink run.journal
    (progress.synchronizes.wellPlaced wellPlaced) natural graph_eq dominators_eq oracle_eq
  have sameQualifying : loop.qualifying? filter (table.factsOf handle) run.function =
      loop.qualifying? filter (table.factsOf handle) function := by
    refine Option.ext fun eligible => ?_
    rw [Loop.qualifying?_eq_some_iff, Loop.qualifying?_eq_some_iff]
    exact progress.synchronizes.qualifies_iff wellPlaced (untouched filter _ isLoop fresh)
  have handle_eq : (run.context handle forest).function = handle := rfl
  rw [handle_eq, sameQualifying] at answer
  unfold LoopRun.visitLoop
  rw [List.foldl_cons, List.foldl_nil, visit_eq progress.serves]
  cases found : loop.qualifying? filter (table.factsOf handle) function with
  | none =>
      rw [found] at answer
      obtain ⟨unchanged, kept⟩ := answer
      rw [if_neg (Bool.eq_false_iff.1 unchanged)]
      exact progress.keep isLoop found kept
  | some eligible =>
      rw [found] at answer
      obtain ⟨changed, synchronizes⟩ := answer
      rw [if_pos changed]
      exact progress.accept wellPlaced isLoop fresh found synchronizes

/-- The visits of different loops keep the invariant. -/
theorem Progress.foldl_visitLoop (start : Progress filter table handle function [] run)
    (sink : Option (DecisionSink σ)) (wellPlaced : function.WellPlaced) (forest : LoopForest)
    {handles : List LoopId} (nodup : handles.Nodup)
    (stored : ∀ next ∈ handles,
      next < (function.graph.loopForest function.graph.dominators).loops.size) :
    Progress filter table handle function handles
      ((handles.filterMap
          (function.graph.loopForest function.graph.dominators).loops.get?).foldl
        (LoopRun.visitLoop handle forest [(BarrierPass.plain filter sink).toLoopPass]) run) := by
  -- Induction from the last loop on: it meets what the others have left.
  induction handles using List.reverseRecOn with
  | nil => exact start
  | append_singleton handles next inductionHypothesis =>
      obtain ⟨nodupBefore, -, disjoint⟩ := List.nodup_append.1 nodup
      have fresh : next ∉ handles := fun member =>
        disjoint next member next (List.mem_singleton_self next) rfl
      have before := inductionHypothesis nodupBefore fun other member =>
        stored other (List.mem_append_left _ member)
      have below := stored next (List.mem_append_right _ (List.mem_singleton_self next))
      obtain ⟨loop, isLoop⟩ := Option.isSome_iff_exists.1 (Table.get?_isSome_iff.2 below)
      have listed : [next].filterMap
          (function.graph.loopForest function.graph.dominators).loops.get? = [loop] := by
        simp only [List.filterMap_cons, isLoop, List.filterMap_nil]
      rw [List.filterMap_append, List.foldl_append, listed]
      exact before.visitLoop wellPlaced isLoop fresh forest

end LoopRun

theorem Table.filterMap_handles {α : Type} (table : Table α) :
    table.handles.filterMap table.get? = table.entries := by
  obtain ⟨entries⟩ := table
  unfold handles get? size
  induction entries using List.reverseRecOn with
  | nil => rfl
  | append_singleton entries last inductionHypothesis =>
      have sameFront :
          (List.range entries.length).filterMap (fun handle => (entries ++ [last])[handle]?) =
            (List.range entries.length).filterMap fun handle => entries[handle]? :=
        List.filterMap_congr fun handle member =>
          List.getElem?_append_left (List.mem_range.1 member)
      dsimp only at inductionHypothesis ⊢
      rw [List.length_append, List.length_singleton, List.range_succ, List.filterMap_append,
        sameFront, inductionHypothesis]
      simp

namespace Function

variable {σ : Type} {function : Function} {table : FactTable} {analyses : Analyses σ}

/-- The postorder visits the loops that the list of qualifying loops goes over. -/
theorem qualifying_postorder_perm (filter : KernelFilter) (facts : Facts) (function : Function) :
    (LoopRun.qualifying filter facts function
      (function.graph.loopForest function.graph.dominators).postorder).Perm
      (function.qualifyingLoops filter facts) := by
  have perm := (function.graph.nests_loopForest function.graph.dominators).postorder_perm
  unfold LoopRun.qualifying qualifyingLoops
  rw [← Table.filterMap_handles]
  exact (perm.filterMap _).filterMap _

/-- The plain pass synchronizes the qualifying loops of a function and reports a
change if there are any. -/
theorem runLoopPasses_plain (wellPlaced : function.WellPlaced)
    (serves : analyses.Serves (.ofFacts table)) (filter : KernelFilter)
    (sink : Option (DecisionSink σ)) (handle : FuncId) (journal : Journal σ) :
    function.Synchronizes
        (function.runLoopPasses handle [(BarrierPass.plain filter sink).toLoopPass] analyses
          journal).function
        (function.qualifyingLoops filter (table.factsOf handle)) ∧
      (function.runLoopPasses handle [(BarrierPass.plain filter sink).toLoopPass] analyses
        journal).analyses.Serves (.ofFacts table) ∧
      ((function.runLoopPasses handle [(BarrierPass.plain filter sink).toLoopPass] analyses
          journal).changed = true ↔
        function.qualifyingLoops filter (table.factsOf handle) ≠ []) := by
  have postorderPerm := (function.graph.nests_loopForest function.graph.dominators).postorder_perm
  have samePerm := qualifying_postorder_perm filter (table.factsOf handle) function
  have start : LoopRun.Progress filter table handle function []
      { function := function
        graph := function.graph
        dominators := function.graph.dominators
        analyses := analyses
        journal := journal.write
          ((function.graph.loopForest function.graph.dominators).report function)
        changed := false } :=
    ⟨.refl function, rfl, rfl, serves,
      ⟨fun changed => absurd changed nofun, fun some => absurd rfl some⟩⟩
  have progress := start.foldl_visitLoop sink wellPlaced
    (function.graph.loopForest function.graph.dominators)
    (postorderPerm.nodup_iff.2 List.nodup_range)
    fun next member => List.mem_range.1 (postorderPerm.mem_iff.1 member)
  refine ⟨progress.synchronizes.perm samePerm, progress.serves, ?_⟩
  refine progress.changed_iff.trans (not_congr ?_)
  rw [← List.length_eq_zero_iff, ← List.length_eq_zero_iff, samePerm.length_eq]

/-- Nothing qualifies in a function whose qualifying loops are synchronized. -/
theorem Synchronizes.qualifyingLoops_eq_nil {before after : Function} {filter : KernelFilter}
    {facts : Facts}
    (synchronizes : before.Synchronizes after (before.qualifyingLoops filter facts))
    (wellPlaced : before.WellPlaced) : after.qualifyingLoops filter facts = [] := by
  rw [List.eq_nil_iff_forall_not_mem]
  intro eligible member
  obtain ⟨loop, listed, found⟩ := List.mem_filterMap.1 member
  have qualifies := Loop.qualifying?_eq_some_iff.1 found
  have sameGraph := synchronizes.graph_eq wellPlaced
  have sameBranch := synchronizes.terminatorInstruction?_eq wellPlaced eligible.exiting
  have qualified : loop.Qualifies filter facts before eligible := by
    have sameAccepts :=
      accepts_eq filter synchronizes.name_eq synchronizes.kind_eq synchronizes.size_blocks
    apply qualifies.transfer sameAccepts.symm sameGraph.symm sameBranch.symm
    intro block member noBarrier
    rw [Bool.eq_false_iff]
    intro barrier
    have still := synchronizes.containsBarrier_of_before wellPlaced barrier
    exact absurd (still.symm.trans noBarrier) nofun
  have isHeader : eligible.header ∈
      (before.qualifyingLoops filter facts).map EligibleLoop.header := by
    apply List.mem_map_of_mem
    rw [sameGraph] at listed
    exact List.mem_filterMap.2 ⟨loop, listed, Loop.qualifying?_eq_some_iff.2 qualified⟩
  have headerMember : eligible.header ∈ loop.blocks := by
    obtain ⟨handle, isLoop⟩ := List.mem_iff_getElem?.1 listed
    exact qualifies.header_mem (after.coherent_graph.natural isLoop)
  have barrier := synchronizes.containsBarrier_header wellPlaced isHeader
  exact absurd (barrier.symm.trans (qualifies.unsynchronized _ headerMember)) nofun

/-- No loop of a declaration qualifies. -/
theorem qualifyingLoops_of_isDeclaration (filter : KernelFilter) (facts : Facts)
    (declaration : function.isDeclaration = true) : function.qualifyingLoops filter facts = [] := by
  rw [List.eq_nil_iff_forall_not_mem]
  intro eligible member
  obtain ⟨loop, -, found⟩ := List.mem_filterMap.1 member
  have accepted := (Loop.qualifying?_eq_some_iff.1 found).accepted
  unfold KernelFilter.accepts at accepted
  rw [declaration] at accepted
  simp at accepted

end Function

end Workgroup

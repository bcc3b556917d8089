import Workgroup.Proofs.Barrier.Settled

/-!
Contract: walks of the barrier pass that agree.

What a visit does to its loop is decided by the function, the graph and the
oracle; the notes of the run and the sink have no part in it.  A second visit
finds the loop refused.  So a walk with several listings of the pass and a walk
with one leave the same module.  Without an oracle every visit is skipped.

Owns:
- visits whose answers do not depend on the journal and the sink;
- runs that agree, from one visit up to a module;
- runs without an oracle.
-/

namespace Workgroup

variable {σ : Type} {filter : KernelFilter} {sink other : Option (DecisionSink σ)}
  {oracle : Oracle σ} {handle : FuncId} {forest : LoopForest} {loop : Loop}

/-! ## Answers that do not depend on the journal -/

/-- The answers report the same and leave the same function. -/
structure LoopOutcome.Agrees (left right : LoopOutcome σ) : Prop where
  changed_eq : left.changed = right.changed
  function_eq : left.function = right.function

namespace BarrierPass

variable {context : LoopContext σ} {function : Function} {eligible : EligibleLoop}
  {terminator : InstId} {first second : Journal σ}

/-- The notes have no part in what the plain factory does. -/
theorem runAll_group_eq (points : List InsertPoint) (function : Function) (notes more : σ) :
    (BarrierFactory.group.runAll points function notes).failure =
        (BarrierFactory.group.runAll points function more).failure ∧
      (BarrierFactory.group.runAll points function notes).function =
        (BarrierFactory.group.runAll points function more).function := by
  induction points generalizing function notes more with
  | nil => exact ⟨rfl, rfl⟩
  | cons point points inductionHypothesis =>
      unfold BarrierFactory.runAll BarrierFactory.group
      cases function.insert point .barrier with
      | error fault => exact ⟨rfl, rfl⟩
      | ok inserted => exact inductionHypothesis inserted.1 notes more

theorem place_agrees :
    ((plain filter sink).place eligible terminator function first).Agrees
      ((plain filter other).place eligible terminator function second) := by
  obtain ⟨sameFailure, sameFunction⟩ := runAll_group_eq (eligible.points function terminator)
    function first.notes second.notes
  unfold place plain
  dsimp only
  cases function.misplacement? (eligible.points function terminator) with
  | some fault => exact ⟨rfl, rfl⟩
  | none =>
      dsimp only
      rw [sameFailure]
      cases (BarrierFactory.group.runAll (eligible.points function terminator) function
          second.notes).failure with
      | none => exact ⟨rfl, sameFunction⟩
      | some fault =>
          dsimp only
          rw [sameFunction]
          exact ⟨rfl, rfl⟩

/-- A pure oracle answers the uniformity checks with whatever notes it is asked. -/
theorem checkUniform_eq (isPure : oracle.IsPure) (notes more : σ) :
    (eligible.checkUniform function handle oracle notes).1 =
      (eligible.checkUniform function handle oracle more).1 := by
  obtain ⟨blockAnswer, valueAnswer, rfl⟩ := isPure
  unfold EligibleLoop.checkUniform Oracle.pure
  dsimp only
  split
  · rfl
  · split
    · rfl
    · split
      · rfl
      · rfl

theorem runOnLoop_agrees (filter : KernelFilter) (sink other : Option (DecisionSink σ))
    (isPure : context.oracle.IsPure) (loop : Loop) (function : Function)
    (first second : Journal σ) :
    ((plain filter sink).runOnLoop context loop function first).Agrees
      ((plain filter other).runOnLoop context loop function second) := by
  unfold runOnLoop checkEligibility
  have sameAccepts : (plain filter sink).accepts = (plain filter other).accepts := rfl
  rw [sameAccepts]
  cases EligibleLoop.check (plain filter other).accepts loop function context.graph
      context.dominators with
  | error decision => exact ⟨rfl, rfl⟩
  | ok eligible =>
      dsimp only
      unfold tryInsert
      dsimp only
      rw [checkUniform_eq isPure first.notes second.notes]
      cases (eligible.checkUniform function context.function context.oracle second.notes).1 with
      | error decision => exact ⟨rfl, rfl⟩
      | ok terminator => exact place_agrees

end BarrierPass

/-! ## Runs that agree -/

namespace LoopRun

variable {left right run : LoopRun σ} {passes : List (LoopPass σ)}

/-- The runs have come to the same function and the same report, and their analyses
serve the same oracle. -/
structure Agrees (oracle : Oracle σ) (left right : LoopRun σ) : Prop where
  function_eq : left.function = right.function
  graph_eq : left.graph = right.graph
  dominators_eq : left.dominators = right.dominators
  changed_eq : left.changed = right.changed
  serves_left : left.analyses.Serves oracle
  serves_right : right.analyses.Serves oracle

theorem Agrees.context_eq (agrees : Agrees oracle left right) :
    left.context handle forest = right.context handle forest := by
  unfold context
  rw [agrees.graph_eq, agrees.dominators_eq, agrees.serves_left.oracleFor_eq,
    agrees.serves_right.oracleFor_eq]

/-- A visit of both runs, by passes with the same filter. -/
theorem Agrees.visit (agrees : Agrees oracle left right) (isPure : oracle.IsPure) :
    Agrees oracle (left.visit handle forest loop (BarrierPass.plain filter sink).toLoopPass)
      (right.visit handle forest loop (BarrierPass.plain filter other).toLoopPass) := by
  have isPureHere : (right.context handle forest).oracle.IsPure := by
    show (right.analyses.oracleFor handle).IsPure
    rw [agrees.serves_right.oracleFor_eq]
    exact isPure
  rw [visit_eq agrees.serves_left, visit_eq agrees.serves_right, agrees.context_eq,
    agrees.function_eq]
  obtain ⟨sameReport, sameFunction⟩ := BarrierPass.runOnLoop_agrees filter sink other isPureHere
    loop right.function left.journal right.journal
  rw [sameReport]
  split
  · exact ⟨sameFunction, agrees.graph_eq, agrees.dominators_eq, rfl,
      agrees.serves_left.invalidate (by rfl), agrees.serves_right.invalidate (by rfl)⟩
  · exact ⟨sameFunction, agrees.graph_eq, agrees.dominators_eq, agrees.changed_eq,
      agrees.serves_left, agrees.serves_right⟩

/-- After a visit the loop is refused. -/
theorem refuses_visit (serves : run.analyses.Serves oracle) (isPure : oracle.IsPure) :
    (run.visit handle forest loop (BarrierPass.plain filter sink).toLoopPass).function.Refuses
      filter.accepts
      ((run.visit handle forest loop (BarrierPass.plain filter sink).toLoopPass).context handle
        forest) loop := by
  have isPureHere : (run.context handle forest).oracle.IsPure := by
    show (run.analyses.oracleFor handle).IsPure
    rw [serves.oracleFor_eq]
    exact isPure
  have refuses := (BarrierPass.runOnLoop_refuses filter sink isPureHere loop run.function
    run.journal).2
  have sameContext : (run.visit handle forest loop
      (BarrierPass.plain filter sink).toLoopPass).context handle forest =
      run.context handle forest := by
    rw [visit_eq serves]
    split
    · unfold context accept
      dsimp only
      rw [(serves.invalidate (by rfl)).oracleFor_eq, serves.oracleFor_eq]
      rfl
    · rfl
  rw [sameContext, visit_eq serves]
  split <;> exact refuses

/-- A refused loop is visited in vain. -/
theorem Agrees.visit_of_refuses (agrees : Agrees oracle left right)
    (refuses : left.function.Refuses filter.accepts (left.context handle forest) loop) :
    Agrees oracle (left.visit handle forest loop (BarrierPass.plain filter sink).toLoopPass)
      right := by
  obtain ⟨unchanged, sameFunction⟩ :=
    (BarrierPass.plain filter sink).runOnLoop_of_refuses left.journal refuses
  rw [visit_eq agrees.serves_left, if_neg (Bool.eq_false_iff.1 unchanged)]
  exact ⟨sameFunction.trans agrees.function_eq, agrees.graph_eq, agrees.dominators_eq,
    agrees.changed_eq, agrees.serves_left, agrees.serves_right⟩

/-- Any number of visits of the loop that was visited last change nothing more. -/
theorem Agrees.revisit (agrees : Agrees oracle left right) (isPure : oracle.IsPure)
    (refuses : left.function.Refuses filter.accepts (left.context handle forest) loop)
    (plain : ∀ pass ∈ passes, pass = (BarrierPass.plain filter sink).toLoopPass) :
    Agrees oracle (passes.foldl (LoopRun.visit handle forest loop) left) right := by
  induction passes generalizing left with
  | nil => exact agrees
  | cons pass passes inductionHypothesis =>
      rw [List.foldl_cons, plain pass List.mem_cons_self]
      apply inductionHypothesis (agrees.visit_of_refuses refuses)
        (refuses_visit agrees.serves_left isPure)
      exact fun later member => plain later (List.mem_cons_of_mem pass member)

/-- All passes on one loop do what a single one does. -/
theorem Agrees.visitLoop (agrees : Agrees oracle left right) (isPure : oracle.IsPure)
    (some : passes ≠ [])
    (plain : ∀ pass ∈ passes, pass = (BarrierPass.plain filter sink).toLoopPass) (loop : Loop) :
    Agrees oracle (LoopRun.visitLoop handle forest passes left loop)
      (LoopRun.visitLoop handle forest [(BarrierPass.plain filter other).toLoopPass] right
        loop) := by
  obtain ⟨pass, rest, rfl⟩ := List.exists_cons_of_ne_nil some
  have first : Agrees oracle
      (left.visit handle forest loop (BarrierPass.plain filter sink).toLoopPass)
      (right.visit handle forest loop (BarrierPass.plain filter other).toLoopPass) :=
    agrees.visit isPure
  unfold LoopRun.visitLoop
  rw [List.foldl_cons, List.foldl_cons, List.foldl_nil, plain pass List.mem_cons_self]
  exact first.revisit isPure (refuses_visit agrees.serves_left isPure)
    fun later member => plain later (List.mem_cons_of_mem pass member)

end LoopRun

/-- A walk with several passes and one with a single pass agree. -/
theorem Function.runLoopPasses_agrees (isPure : oracle.IsPure) {passes : List (LoopPass σ)}
    (some : passes ≠ [])
    (plain : ∀ pass ∈ passes, pass = (BarrierPass.plain filter sink).toLoopPass)
    {first second : Analyses σ} (serves : first.Serves oracle) (alsoServes : second.Serves oracle)
    (function : Function) (handle : FuncId) (journal more : Journal σ) :
    LoopRun.Agrees oracle (function.runLoopPasses handle passes first journal)
      (function.runLoopPasses handle [(BarrierPass.plain filter other).toLoopPass] second
        more) := by
  have general (loops : List Loop) {left right : LoopRun σ}
      (agrees : LoopRun.Agrees oracle left right) :
      LoopRun.Agrees oracle
        (loops.foldl (LoopRun.visitLoop handle
          (function.graph.loopForest function.graph.dominators) passes) left)
        (loops.foldl (LoopRun.visitLoop handle
          (function.graph.loopForest function.graph.dominators)
          [(BarrierPass.plain filter other).toLoopPass]) right) := by
    induction loops generalizing left right with
    | nil => exact agrees
    | cons loop loops inductionHypothesis =>
        exact inductionHypothesis (agrees.visitLoop isPure some plain loop)
  exact general _ ⟨rfl, rfl, rfl, rfl, serves, alsoServes⟩

/-- The answers leave the same module and report the same, and their analyses serve
the same oracle. -/
structure PassOutcome.Agrees (oracle : Oracle σ) (left right : PassOutcome σ) : Prop where
  module_eq : left.state.module = right.state.module
  changed_eq : left.changed = right.changed
  serves_left : left.state.analyses.Serves oracle
  serves_right : right.state.analyses.Serves oracle

namespace PassState

variable {passes : List (LoopPass σ)} {left right : PassOutcome σ} {first second : PassState σ}

theorem runOnFunction_agrees (agrees : left.Agrees oracle right) (isPure : oracle.IsPure)
    (some : passes ≠ [])
    (plain : ∀ pass ∈ passes, pass = (BarrierPass.plain filter sink).toLoopPass)
    (handle : FuncId) :
    (runOnFunction passes left handle).Agrees oracle
      (runOnFunction [(BarrierPass.plain filter other).toLoopPass] right handle) := by
  unfold runOnFunction
  rw [agrees.module_eq]
  cases right.state.module.functions.get? handle with
  | none => exact agrees
  | some function =>
      dsimp only
      split
      · exact agrees
      · have runs : LoopRun.Agrees oracle
            (function.runLoopPasses handle passes left.state.analyses left.state.journal)
            (function.runLoopPasses handle [(BarrierPass.plain filter other).toLoopPass]
              right.state.analyses right.state.journal) :=
          function.runLoopPasses_agrees isPure some plain agrees.serves_left agrees.serves_right
            handle left.state.journal right.state.journal
        rw [runs.function_eq, runs.changed_eq, agrees.changed_eq]
        exact ⟨rfl, rfl, runs.serves_left, runs.serves_right⟩

/-- On the same module, several passes that share a walk agree with a single one. -/
theorem runLoopPasses_agrees (sameModule : first.module = second.module)
    (serves : first.analyses.Serves oracle) (alsoServes : second.analyses.Serves oracle)
    (isPure : oracle.IsPure) (some : passes ≠ [])
    (plain : ∀ pass ∈ passes, pass = (BarrierPass.plain filter sink).toLoopPass) :
    (first.runLoopPasses passes).Agrees oracle
      (second.runLoopPasses [(BarrierPass.plain filter other).toLoopPass]) := by
  have general (handles : List FuncId) {left right : PassOutcome σ}
      (agrees : left.Agrees oracle right) :
      (handles.foldl (runOnFunction passes) left).Agrees oracle
        (handles.foldl (runOnFunction [(BarrierPass.plain filter other).toLoopPass]) right) := by
    induction handles generalizing left right with
    | nil => exact agrees
    | cons handle handles inductionHypothesis =>
        exact inductionHypothesis (runOnFunction_agrees agrees isPure some plain handle)
  unfold runLoopPasses
  rw [sameModule]
  exact general _ ⟨sameModule, rfl, serves, alsoServes⟩

end PassState

/-! ## Runs without an oracle -/

section Unsupplied

variable {run : LoopRun σ} {passes : List (LoopPass σ)}

/-- Without an oracle the pass is skipped. -/
theorem LoopRun.visit_of_unsupplied (handle : FuncId) (forest : LoopForest) (loop : Loop)
    (filter : KernelFilter) (sink : Option (DecisionSink σ))
    (unsupplied : run.analyses.oracle = none) :
    ∃ journal, run.visit handle forest loop (BarrierPass.plain filter sink).toLoopPass =
      { run with journal := journal } := by
  have missing : run.missing? handle (BarrierPass.plain filter sink).toLoopPass =
      some .uniformity := by
    show [AnalysisKind.dominators, .uniformity].find? _ = _
    simp [Analyses.isAvailable, unsupplied]
  unfold visit
  rw [missing]
  exact ⟨_, rfl⟩

/-- Steps that without an oracle only write into the journal do no more together. -/
theorem LoopRun.foldl_of_writes {α : Type} {step : LoopRun σ → α → LoopRun σ} {items : List α}
    (writes : ∀ item ∈ items, ∀ run : LoopRun σ, run.analyses.oracle = none →
      ∃ journal, step run item = { run with journal := journal })
    (run : LoopRun σ) (unsupplied : run.analyses.oracle = none) :
    ∃ journal, items.foldl step run = { run with journal := journal } := by
  induction items generalizing run with
  | nil => exact ⟨run.journal, rfl⟩
  | cons item items inductionHypothesis =>
      obtain ⟨written, first⟩ := writes item List.mem_cons_self run unsupplied
      rw [List.foldl_cons, first]
      obtain ⟨later, rest⟩ := inductionHypothesis
        (fun other member => writes other (List.mem_cons_of_mem item member))
        { run with journal := written } unsupplied
      exact ⟨later, rest⟩

/-- Any walk of the pass without an oracle only writes into the journal. -/
theorem Function.runLoopPasses_of_unsupplied {analyses : Analyses σ}
    (unsupplied : analyses.oracle = none)
    (plain : ∀ pass ∈ passes, pass = (BarrierPass.plain filter sink).toLoopPass)
    (function : Function) (handle : FuncId) (journal : Journal σ) :
    (function.runLoopPasses handle passes analyses journal).function = function ∧
      (function.runLoopPasses handle passes analyses journal).changed = false ∧
      (function.runLoopPasses handle passes analyses journal).analyses = analyses := by
  have visitLoop (forest : LoopForest) (loop : Loop) (run : LoopRun σ)
      (without : run.analyses.oracle = none) :
      ∃ journal, LoopRun.visitLoop handle forest passes run loop =
        { run with journal := journal } := by
    apply LoopRun.foldl_of_writes _ run without
    intro pass member run without
    rw [plain pass member]
    exact run.visit_of_unsupplied handle forest loop filter sink without
  obtain ⟨written, walked⟩ : ∃ written, function.runLoopPasses handle passes analyses journal =
      { LoopRun.start function analyses journal with journal := written } :=
    LoopRun.foldl_of_writes (fun loop _ => visitLoop _ loop) _ unsupplied
  rw [walked]
  exact ⟨rfl, rfl, rfl⟩

theorem PassState.runLoopPasses_of_unsupplied {state : PassState σ}
    (unsupplied : state.analyses.oracle = none)
    (plain : ∀ pass ∈ passes, pass = (BarrierPass.plain filter sink).toLoopPass) :
    (state.runLoopPasses passes).state.module = state.module ∧
      (state.runLoopPasses passes).changed = false ∧
      (state.runLoopPasses passes).state.analyses = state.analyses := by
  unfold runLoopPasses
  induction state.module.functions.handles using List.reverseRecOn with
  | nil => exact ⟨rfl, rfl, rfl⟩
  | append_singleton handles handle inductionHypothesis =>
      rw [List.foldl_append, List.foldl_cons, List.foldl_nil]
      generalize handles.foldl (runOnFunction passes) ⟨false, state⟩ = outcome at *
      obtain ⟨sameModule, unchanged, sameAnalyses⟩ := inductionHypothesis
      unfold runOnFunction
      cases isFunction : outcome.state.module.functions.get? handle with
      | none => exact ⟨sameModule, unchanged, sameAnalyses⟩
      | some function =>
          dsimp only
          split
          · exact ⟨sameModule, unchanged, sameAnalyses⟩
          · obtain ⟨sameFunction, functionUnchanged, functionAnalyses⟩ :=
              function.runLoopPasses_of_unsupplied (sameAnalyses ▸ unsupplied) plain handle
                outcome.state.journal
            dsimp only
            rw [sameFunction, Table.set_eq_self isFunction, unchanged, functionUnchanged,
              functionAnalyses]
            exact ⟨sameModule, rfl, sameAnalyses⟩

end Unsupplied

end Workgroup

import Workgroup.Proofs.Barrier.Persistence
import Workgroup.Proofs.Barrier.PipelineRun
import Workgroup.Proofs.Pass.Assembly
import Workgroup.Proofs.Pass.Calls

/-!
Contract: one round of built-in passes leaves nothing to do.

A visit leaves its loop refused, and refusals stand, so a walk over all loops
leaves every loop of the function refused.  The next walk finds the same graph
and therefore the same loops, and does nothing.  Hence one round settles a
module for all later rounds and runs, however often the pass is listed, how its
listings are grouped, and whether the limit on rounds cuts the first run off.

Owns:
- settled functions and modules;
- the invariants of the walk over loops, of the run over functions and of a round;
- pipelines of built-in passes, which are idempotent.
-/

namespace Workgroup

variable {σ : Type} {filter : KernelFilter} {sink : Option (DecisionSink σ)} {oracle : Oracle σ}
  {handle : FuncId}

/-! ## The loops of a function -/

namespace Function

/-- What a pass over the loops of the function is handed. -/
def context (function : Function) (handle : FuncId) (oracle : Oracle σ) : LoopContext σ where
  function := handle
  graph := function.graph
  dominators := function.graph.dominators
  forest := function.graph.loopForest function.graph.dominators
  oracle := oracle

/-- Every loop of the function is refused. -/
def Settled (filter : KernelFilter) (oracle : Oracle σ) (handle : FuncId)
    (function : Function) : Prop :=
  ∀ loop ∈ (function.graph.loopForest function.graph.dominators).loops.entries,
    function.Refuses filter.accepts (function.context handle oracle) loop

theorem settled_of_isDeclaration {function : Function} (filter : KernelFilter) (oracle : Oracle σ)
    (handle : FuncId) (declaration : function.isDeclaration = true) :
    function.Settled filter oracle handle := by
  intro loop _ notes eligible admits
  have accepted := admits.accepted
  unfold KernelFilter.accepts at accepted
  simp [declaration] at accepted

end Function

namespace LoopRun

variable {function : Function} {visited : List Loop} {run : LoopRun σ} {loop : Loop}
  {passes : List (LoopPass σ)}

/-- The invariant of the visits: the control flow is that of the beginning and
the loops visited so far are refused.  If all loops were refused in the
beginning, nothing has happened. -/
structure Settles (filter : KernelFilter) (oracle : Oracle σ) (handle : FuncId)
    (function : Function) (visited : List Loop) (run : LoopRun σ) : Prop where
  keeps : function.KeepsControl run.function
  graph_eq : run.graph = function.graph
  dominators_eq : run.dominators = function.graph.dominators
  serves : run.analyses.Serves oracle
  refused : ∀ loop ∈ visited,
    run.function.Refuses filter.accepts (function.context handle oracle) loop
  idle : function.Settled filter oracle handle → run.function = function ∧ run.changed = false

theorem Settles.context_eq (settles : Settles filter oracle handle function visited run) :
    run.context handle (function.graph.loopForest function.graph.dominators) =
      function.context handle oracle := by
  unfold LoopRun.context Function.context
  rw [settles.graph_eq, settles.dominators_eq, settles.serves.oracleFor_eq]

/-- One visit keeps the invariant and leaves its loop refused. -/
theorem Settles.visit (settles : Settles filter oracle handle function visited run)
    (isPure : oracle.IsPure) (sink : Option (DecisionSink σ))
    (listed : loop ∈ (function.graph.loopForest function.graph.dominators).loops.entries) :
    Settles filter oracle handle function (loop :: visited)
      (run.visit handle (function.graph.loopForest function.graph.dominators) loop
        (BarrierPass.plain filter sink).toLoopPass) := by
  rw [visit_eq settles.serves, settles.context_eq]
  have isPureHere : (function.context handle oracle).oracle.IsPure := isPure
  obtain ⟨keeps, refuses⟩ :=
    BarrierPass.runOnLoop_refuses filter sink isPureHere loop run.function run.journal
  generalize answer : (BarrierPass.plain filter sink).runOnLoop
    (function.context handle oracle) loop run.function run.journal = outcome
  rw [answer] at keeps refuses
  have refused : ∀ other ∈ loop :: visited,
      outcome.function.Refuses filter.accepts (function.context handle oracle) other := by
    intro other member
    rcases List.mem_cons.1 member with rfl | earlier
    · exact refuses
    · exact (settles.refused other earlier).keepsControl keeps isPure
  have idle (settled : function.Settled filter oracle handle) :
      outcome.changed = false ∧ outcome.function = function := by
    have sameFunction := (settles.idle settled).1
    have stillRefused : run.function.Refuses filter.accepts (function.context handle oracle)
        loop := by
      rw [sameFunction]
      exact settled loop listed
    have leftAlone :=
      (BarrierPass.plain filter sink).runOnLoop_of_refuses run.journal stillRefused
    rw [answer] at leftAlone
    exact ⟨leftAlone.1, leftAlone.2.trans sameFunction⟩
  split
  · next changed =>
    exact ⟨settles.keeps.trans keeps, settles.graph_eq, settles.dominators_eq,
      settles.serves.invalidate (by rfl), refused,
      fun settled => absurd (changed.symm.trans (idle settled).1) nofun⟩
  · exact ⟨settles.keeps.trans keeps, settles.graph_eq, settles.dominators_eq, settles.serves,
      refused, fun settled => ⟨(idle settled).2, (settles.idle settled).2⟩⟩

/-- Further visits of the same loop keep the invariant. -/
theorem Settles.revisit (settles : Settles filter oracle handle function (loop :: visited) run)
    (isPure : oracle.IsPure)
    (listed : loop ∈ (function.graph.loopForest function.graph.dominators).loops.entries)
    (plain : ∀ pass ∈ passes, pass = (BarrierPass.plain filter sink).toLoopPass) :
    Settles filter oracle handle function (loop :: visited)
      (passes.foldl (LoopRun.visit handle
        (function.graph.loopForest function.graph.dominators) loop) run) := by
  induction passes generalizing run with
  | nil => exact settles
  | cons pass passes inductionHypothesis =>
      rw [List.foldl_cons, plain pass List.mem_cons_self]
      have visitedAgain := settles.visit isPure sink listed
      have once : Settles filter oracle handle function (loop :: visited)
          (run.visit handle (function.graph.loopForest function.graph.dominators) loop
            (BarrierPass.plain filter sink).toLoopPass) :=
        { visitedAgain with
          refused := fun other member =>
            visitedAgain.refused other (List.mem_cons_of_mem loop member) }
      exact inductionHypothesis once fun other member => plain other (List.mem_cons_of_mem _ member)

/-- The walk over some loops leaves them refused, if there is any pass at all. -/
theorem Settles.foldl_visitLoop (settles : Settles filter oracle handle function visited run)
    (isPure : oracle.IsPure) (some : passes ≠ [])
    (plain : ∀ pass ∈ passes, pass = (BarrierPass.plain filter sink).toLoopPass)
    {loops : List Loop}
    (listed : ∀ loop ∈ loops,
      loop ∈ (function.graph.loopForest function.graph.dominators).loops.entries) :
    Settles filter oracle handle function (loops.reverse ++ visited)
      (loops.foldl (LoopRun.visitLoop handle
        (function.graph.loopForest function.graph.dominators) passes) run) := by
  induction loops generalizing visited run with
  | nil => exact settles
  | cons loop loops inductionHypothesis =>
      have isListed := listed loop List.mem_cons_self
      obtain ⟨pass, rest, rfl⟩ := List.exists_cons_of_ne_nil some
      have first := settles.visit isPure sink isListed
      rw [← plain pass List.mem_cons_self] at first
      have all := first.revisit isPure isListed fun other member =>
        plain other (List.mem_cons_of_mem pass member)
      rw [List.reverse_cons, List.append_assoc]
      exact inductionHypothesis all fun other member => listed other (List.mem_cons_of_mem _ member)

end LoopRun

namespace Function

variable {function : Function} {passes : List (LoopPass σ)}

/-- A walk over all loops settles the function, and leaves a settled one alone. -/
theorem runLoopPasses_settles (isPure : oracle.IsPure) (some : passes ≠ [])
    (plain : ∀ pass ∈ passes, pass = (BarrierPass.plain filter sink).toLoopPass)
    {analyses : Analyses σ} (serves : analyses.Serves oracle) (function : Function)
    (handle : FuncId) (journal : Journal σ) :
    (function.runLoopPasses handle passes analyses journal).analyses.Serves oracle ∧
      (function.runLoopPasses handle passes analyses journal).function.Settled filter oracle
        handle ∧
      (function.Settled filter oracle handle →
        (function.runLoopPasses handle passes analyses journal).function = function ∧
        (function.runLoopPasses handle passes analyses journal).changed = false) := by
  have begins : LoopRun.Settles filter oracle handle function []
      (.start function analyses journal) :=
    ⟨.refl function, rfl, rfl, serves, fun _ member => absurd member List.not_mem_nil,
      fun _ => ⟨rfl, rfl⟩⟩
  have visitsAll : (((function.graph.loopForest function.graph.dominators).postorder.filterMap
      (function.graph.loopForest function.graph.dominators).loops.get?)).Perm
      (function.graph.loopForest function.graph.dominators).loops.entries := by
    rw [← Table.filterMap_handles]
    exact (function.graph.nests_loopForest function.graph.dominators).postorder_perm.filterMap _
  have ends : LoopRun.Settles filter oracle handle function _
      (function.runLoopPasses handle passes analyses journal) :=
    begins.foldl_visitLoop isPure some plain fun loop member => visitsAll.mem_iff.1 member
  refine ⟨ends.serves, ?_, ends.idle⟩
  intro loop listed
  have sameGraph := ends.keeps.graph_eq
  have sameContext : (function.runLoopPasses handle passes analyses journal).function.context
      handle oracle = function.context handle oracle := by
    unfold context
    exact congrArg (fun graph => (⟨handle, graph, graph.dominators,
      graph.loopForest graph.dominators, oracle⟩ : LoopContext σ)) sameGraph
  rw [sameContext]
  apply ends.refused
  rw [List.append_nil, List.mem_reverse, visitsAll.mem_iff]
  exact sameGraph ▸ listed

end Function

/-! ## The functions of a module -/

/-- Every loop of every function is refused. -/
def Module.Settled (filter : KernelFilter) (oracle : Oracle σ) (module : Module) : Prop :=
  ∀ {handle function}, module.functions.get? handle = some function →
    function.Settled filter oracle handle

namespace PassState

variable {before : Module} {visited : List FuncId} {outcome : PassOutcome σ}
  {passes : List (LoopPass σ)}

/-- The invariant of the run over functions: those visited so far are settled.
If all were settled in the beginning, nothing has happened. -/
structure Settles (filter : KernelFilter) (oracle : Oracle σ) (before : Module)
    (visited : List FuncId) (outcome : PassOutcome σ) : Prop where
  size_eq : outcome.state.module.functions.size = before.functions.size
  serves : outcome.state.analyses.Serves oracle
  settled : ∀ {handle function}, handle ∈ visited →
    outcome.state.module.functions.get? handle = some function →
    function.Settled filter oracle handle
  idle : before.Settled filter oracle → outcome.state.module = before ∧ outcome.changed = false

/-- The run over one more function keeps the invariant and settles it. -/
theorem Settles.runOnFunction (settles : Settles filter oracle before visited outcome)
    (isPure : oracle.IsPure) (some : passes ≠ [])
    (plain : ∀ pass ∈ passes, pass = (BarrierPass.plain filter sink).toLoopPass)
    (next : FuncId) :
    Settles filter oracle before (next :: visited)
      (PassState.runOnFunction passes outcome next) := by
  unfold PassState.runOnFunction
  cases isNext : outcome.state.module.functions.get? next with
  | none =>
      refine ⟨settles.size_eq, settles.serves, fun member isFunction => ?_, settles.idle⟩
      rcases List.mem_cons.1 member with rfl | earlier
      · exact absurd (isNext.symm.trans isFunction) nofun
      · exact settles.settled earlier isFunction
  | some function =>
      dsimp only
      split
      · next declaration =>
        refine ⟨settles.size_eq, settles.serves, fun member isFunction => ?_, settles.idle⟩
        rcases List.mem_cons.1 member with rfl | earlier
        · cases isNext.symm.trans isFunction
          exact function.settled_of_isDeclaration filter oracle _ declaration
        · exact settles.settled earlier isFunction
      · obtain ⟨serves, settled, idle⟩ := Function.runLoopPasses_settles isPure some plain
          settles.serves function next outcome.state.journal
        have present : next < outcome.state.module.functions.size :=
          Table.get?_isSome_iff.1 (by rw [isNext]; rfl)
        refine ⟨(Table.size_set _ _ _).trans settles.size_eq, serves,
          fun {other found} member isFunction => ?_, fun allSettled => ?_⟩
        · rw [Table.get?_set _ _ _ _ present] at isFunction
          by_cases same : next = other
          · subst same
            rw [if_pos rfl] at isFunction
            cases isFunction
            exact settled
          · rw [if_neg same] at isFunction
            have earlier := (List.mem_cons.1 member).resolve_left (Ne.symm same)
            exact settles.settled earlier isFunction
        · obtain ⟨sameModule, unchanged⟩ := settles.idle allSettled
          rw [sameModule] at isNext
          obtain ⟨sameFunction, unchangedNext⟩ := idle (allSettled isNext)
          dsimp only
          rw [sameFunction, unchanged, unchangedNext, sameModule, Table.set_eq_self isNext]
          exact ⟨rfl, rfl⟩

/-- A run over all functions settles the module, and leaves a settled one alone. -/
theorem runLoopPasses_settles (isPure : oracle.IsPure) (some : passes ≠ [])
    (plain : ∀ pass ∈ passes, pass = (BarrierPass.plain filter sink).toLoopPass)
    (state : PassState σ) (serves : state.analyses.Serves oracle) :
    (state.runLoopPasses passes).state.analyses.Serves oracle ∧
      (state.runLoopPasses passes).state.module.Settled filter oracle ∧
      (state.module.Settled filter oracle →
        (state.runLoopPasses passes).state.module = state.module ∧
        (state.runLoopPasses passes).changed = false) := by
  have progress (handles : List FuncId) :
      Settles filter oracle state.module handles.reverse
        (handles.foldl (PassState.runOnFunction passes) ⟨false, state⟩) := by
    induction handles using List.reverseRecOn with
    | nil =>
        exact ⟨rfl, serves, fun member => absurd member List.not_mem_nil, fun _ => ⟨rfl, rfl⟩⟩
    | append_singleton handles next inductionHypothesis =>
        rw [List.foldl_append, List.reverse_concat]
        exact inductionHypothesis.runOnFunction isPure some plain next
  have whole : Settles filter oracle state.module _ (state.runLoopPasses passes) :=
    progress state.module.functions.handles
  refine ⟨whole.serves, fun {handle function} isFunction => ?_, whole.idle⟩
  have below : handle < state.module.functions.size := by
    rw [← whole.size_eq]
    exact Table.get?_isSome_iff.1 (by rw [isFunction]; rfl)
  exact whole.settled (List.mem_reverse.2 (List.mem_range.2 below)) isFunction

end PassState

/-! ## Rounds -/

/-- The stage repeats the plain pass on every loop, or it only looks at the module. -/
def Stage.IsBuiltin (filter : KernelFilter) (sink : Option (DecisionSink σ)) : Stage σ → Prop
  | .loops passes =>
      passes ≠ [] ∧ ∀ pass ∈ passes, pass = (BarrierPass.plain filter sink).toLoopPass
  | .module pass => ∀ state, (pass.run state).changed = false ∧
      (pass.run state).state.module = state.module ∧
      (pass.run state).state.analyses = state.analyses

namespace Pipeline

variable {stages visited : List (Stage σ)} {stage : Stage σ} {before : Module}
  {outcome : PassOutcome σ} {state : PassState σ} {round left : Nat}

/-- The stages have nothing to do: unless none of them visits loops, the module
is settled. -/
def Quiet (filter : KernelFilter) (oracle : Oracle σ) (stages : List (Stage σ))
    (module : Module) : Prop :=
  (∃ passes, Stage.loops passes ∈ stages) → module.Settled filter oracle

/-- The invariant of a round: the stages so far have nothing left to do, and if
they had nothing to do in the beginning, nothing has happened. -/
structure Settles (filter : KernelFilter) (oracle : Oracle σ) (before : Module)
    (visited : List (Stage σ)) (outcome : PassOutcome σ) : Prop where
  serves : outcome.state.analyses.Serves oracle
  quiet : Quiet filter oracle visited outcome.state.module
  idle : Quiet filter oracle visited before →
    outcome.state.module = before ∧ outcome.changed = false

/-- One more stage keeps the invariant. -/
theorem Settles.step (settles : Settles filter oracle before visited outcome)
    (isPure : oracle.IsPure) (builtin : stage.IsBuiltin filter sink) (round : Nat) :
    Settles filter oracle before (stage :: visited) (Pipeline.step round outcome stage) := by
  cases stage with
  | module pass =>
      obtain ⟨unchanged, sameModule, sameAnalyses⟩ := builtin outcome.state
      have sameQuiet (module : Module) :
          Quiet filter oracle (.module pass :: visited) module ↔
            Quiet filter oracle visited module := by
        unfold Quiet
        simp
      unfold Pipeline.step Stage.run
      dsimp only
      rw [if_neg (Bool.eq_false_iff.1 unchanged)]
      refine ⟨?_, ?_, ?_⟩
      · rw [sameAnalyses]
        exact settles.serves
      · rw [sameQuiet, sameModule]
        exact settles.quiet
      · rw [sameQuiet, sameModule]
        exact settles.idle
  | loops passes =>
      obtain ⟨serves, settled, idle⟩ := outcome.state.runLoopPasses_settles isPure builtin.1
        builtin.2 settles.serves
      have quietIf {module : Module} (isSettled : module.Settled filter oracle) :
          Quiet filter oracle visited module := fun _ => isSettled
      have settledIf {module : Module}
          (quiet : Quiet filter oracle (.loops passes :: visited) module) :
          module.Settled filter oracle := quiet ⟨passes, List.mem_cons_self⟩
      have idleStep (quiet : Quiet filter oracle (.loops passes :: visited) before) :
          (outcome.state.runLoopPasses passes).state.module = before ∧ outcome.changed = false ∧
            (outcome.state.runLoopPasses passes).changed = false := by
        obtain ⟨sameModule, unchanged⟩ := settles.idle (quietIf (settledIf quiet))
        rw [← sameModule] at quiet ⊢
        exact ⟨(idle (settledIf quiet)).1, unchanged, (idle (settledIf quiet)).2⟩
      unfold Pipeline.step Stage.run
      dsimp only
      split
      · next changed =>
        exact ⟨serves, fun _ => settled,
          fun quiet => absurd (changed.symm.trans (idleStep quiet).2.2) nofun⟩
      · exact ⟨serves, fun _ => settled, fun quiet => ⟨(idleStep quiet).1, (idleStep quiet).2.1⟩⟩

/-- After a round its stages have nothing left to do. -/
theorem runRound_settles (isPure : oracle.IsPure)
    (builtin : ∀ stage ∈ stages, stage.IsBuiltin filter sink) (round : Nat) (state : PassState σ)
    (serves : state.analyses.Serves oracle) :
    Settles filter oracle state.module stages.reverse (runRound stages round state) := by
  unfold runRound
  induction stages using List.reverseRecOn with
  | nil => exact ⟨serves, fun ⟨_, member⟩ => absurd member List.not_mem_nil, fun _ => ⟨rfl, rfl⟩⟩
  | append_singleton stages stage inductionHypothesis =>
      rw [List.foldl_append, List.reverse_concat]
      have earlier := inductionHypothesis fun other member =>
        builtin other (List.mem_append_left _ member)
      exact earlier.step isPure (builtin stage (List.mem_append_right _ List.mem_cons_self)) round

theorem quiet_reverse_iff {module : Module} :
    Quiet filter oracle stages.reverse module ↔ Quiet filter oracle stages module := by
  unfold Quiet
  simp only [List.mem_reverse]

/-- Rounds that have nothing to do report no change and leave the module alone. -/
theorem runRounds_of_quiet (isPure : oracle.IsPure)
    (builtin : ∀ stage ∈ stages, stage.IsBuiltin filter sink) (left round : Nat)
    (state : PassState σ) (serves : state.analyses.Serves oracle)
    (quiet : Quiet filter oracle stages state.module) :
    (runRounds stages left round state).changed = false ∧
      (runRounds stages left round state).state.module = state.module := by
  cases left with
  | zero => exact ⟨rfl, rfl⟩
  | succ left =>
      have settles := runRound_settles isPure builtin round state serves
      obtain ⟨sameModule, unchanged⟩ := settles.idle (quiet_reverse_iff.2 quiet)
      unfold runRounds
      dsimp only
      rw [if_neg (Bool.eq_false_iff.1 unchanged)]
      exact ⟨unchanged, sameModule⟩

/-- A run leaves its stages nothing to do, whatever the limit on rounds is. -/
theorem quiet_run (isPure : oracle.IsPure) (pipeline : Pipeline σ)
    (builtin : ∀ stage ∈ pipeline.stages, stage.IsBuiltin filter sink) (state : PassState σ)
    (serves : state.analyses.Serves oracle) :
    Quiet filter oracle pipeline.stages (pipeline.run state).state.module := by
  obtain ⟨left, atLeastOne⟩ : ∃ left, max 1 pipeline.maxRounds = left + 1 :=
    ⟨max 1 pipeline.maxRounds - 1, by omega⟩
  have settles := runRound_settles isPure builtin 0 state serves
  have quiet := quiet_reverse_iff.1 settles.quiet
  unfold run
  rw [atLeastOne]
  unfold runRounds
  dsimp only
  split
  · rw [(runRounds_of_quiet isPure builtin left 1 _ settles.serves quiet).2]
    exact quiet
  · exact quiet

/-- A second run on the module that a first one has left does nothing. -/
theorem run_again (isPure : oracle.IsPure) (pipeline : Pipeline σ)
    (builtin : ∀ stage ∈ pipeline.stages, stage.IsBuiltin filter sink) (state : PassState σ)
    (serves : state.analyses.Serves oracle) {fresh : Analyses σ} (freshServes : fresh.Serves oracle)
    (journal : Journal σ) :
    (pipeline.run ⟨(pipeline.run state).state.module, fresh, journal⟩).changed = false ∧
      (pipeline.run ⟨(pipeline.run state).state.module, fresh, journal⟩).state.module =
        (pipeline.run state).state.module :=
  runRounds_of_quiet isPure builtin _ 0 _ freshServes
    (quiet_run isPure pipeline builtin state serves)

end Pipeline

/-! ## Pipelines of built-in passes -/

namespace Component

variable {options : PassOptions} {components : List (Component σ)}

/-- The component is the barrier pass of the options or the validation pass. -/
def IsBuiltin (options : PassOptions) (component : Component σ) : Prop :=
  component = .loop (BarrierPass.ofOptions options).toLoopPass ∨ component = .module .verify

theorem isBuiltin_loop_iff {pass : LoopPass σ} : (Component.loop pass).IsBuiltin options ↔
    pass = (BarrierPass.ofOptions options).toLoopPass := by
  simp [IsBuiltin]

theorem isBuiltin_module_iff {pass : ModulePass σ} : (Component.module pass).IsBuiltin options ↔
    pass = .verify := by
  simp [IsBuiltin]

/-- Built-in components make built-in stages, whichever stand next to each other. -/
theorem isBuiltin_of_mem_group
    (builtin : ∀ component ∈ components, component.IsBuiltin options) :
    ∀ stage ∈ group components, stage.IsBuiltin ⟨options.kernelName⟩
      (if options.traceBarriers then some .log else none) := by
  intro stage member
  have some := components_ne_nil_of_mem_group stage member
  have parts := fun component listed => builtin component (mem_of_mem_group member listed)
  cases stage with
  | loops passes =>
      refine ⟨fun none => some (by rw [none]; rfl), fun pass listed => ?_⟩
      exact isBuiltin_loop_iff.1 (parts (.loop pass) (List.mem_map_of_mem listed))
  | module pass =>
      obtain rfl := isBuiltin_module_iff.1 (parts (.module pass) List.mem_cons_self)
      exact fun state => ⟨rfl, rfl, rfl⟩

end Component

namespace Registry

/-- The built-in registry builds built-in components. -/
theorem isBuiltin_build {pass : RegisteredPass σ} (options : PassOptions)
    (member : pass ∈ (builtin : Registry σ).passes) :
    (pass.builder.build options).IsBuiltin options := by
  simp only [builtin, List.mem_cons, List.not_mem_nil, or_false] at member
  rcases member with rfl | rfl
  · exact .inl rfl
  · exact .inr rfl

/-- Any list of built-in names is assembled, into built-in stages. -/
theorem build_builtin {names : List String} (options : PassOptions) (journal : Journal σ)
    (known : ∀ name ∈ names, ((builtin : Registry σ).find? name).isSome) :
    ∃ pipeline written, builtin.build names options journal = .ok (pipeline, written) ∧
      ∀ stage ∈ pipeline.stages, stage.IsBuiltin ⟨options.kernelName⟩
        (if options.traceBarriers then some .log else none) := by
  have registered := fun name listed => isSome_find?_iff.1 (known name listed)
  refine ⟨_, _, (build_eq_ok_iff Reached.builtin.nodup).2 ⟨assembles_pipelineOf registered, rfl⟩,
    Component.isBuiltin_of_mem_group ?_⟩
  refine List.forall_mem_map.2 fun pass listed => isBuiltin_build options ?_
  obtain ⟨name, -, found⟩ := List.mem_filterMap.1 listed
  exact List.mem_of_find?_eq_some found

/-- A pipeline of built-in passes is idempotent.  Whatever names it is built from
and wherever the limit on rounds cuts it off, a second run with fresh analyses
over the same facts reports no change and leaves the module as the first run
left it. -/
theorem builtin_idempotent (program : Program) {names : List String} (options : PassOptions)
    (journal : Journal σ) (known : ∀ name ∈ names, ((builtin : Registry σ).find? name).isSome) :
    ∃ pipeline written, builtin.build names options journal = .ok (pipeline, written) ∧
      ∀ again : Journal σ,
        let first := (pipeline.run
          ⟨program.module, .supplied (.ofFacts program.facts), written⟩).state.module
        (pipeline.run ⟨first, .supplied (.ofFacts program.facts), again⟩).changed = false ∧
          (pipeline.run ⟨first, .supplied (.ofFacts program.facts), again⟩).state.module =
            first := by
  obtain ⟨pipeline, written, built, areBuiltin⟩ := build_builtin options journal known
  refine ⟨pipeline, written, built, fun again => ?_⟩
  exact Pipeline.run_again (Oracle.isPure_ofFacts program.facts) pipeline areBuiltin
    ⟨program.module, .supplied (.ofFacts program.facts), written⟩ (.supplied program.facts)
    (.supplied program.facts) again

end Registry

namespace UniformSpin

/-- One round, in which the barrier pass runs before and behind the validation. -/
def options : PassOptions := ⟨some "k", true, 1⟩

/-- The first run changes the module although it is cut off after one round; the
second one does not. -/
theorem second_run_idle :
    (∀ name ∈ [BarrierPass.name, "verify", BarrierPass.name],
      ((Registry.builtin : Registry Unit).find? name).isSome) ∧
    ∃ pipeline written,
      Registry.builtin.build [BarrierPass.name, "verify", BarrierPass.name] options (.start ()) =
        .ok (pipeline, written) ∧
      let first := pipeline.run ⟨program.module, .supplied (.ofFacts program.facts), written⟩
      first.changed = true ∧
        (pipeline.run ⟨first.state.module, .supplied (.ofFacts program.facts), written⟩).changed =
          false := by
  have known : ∀ name ∈ [BarrierPass.name, "verify", BarrierPass.name],
      ((Registry.builtin : Registry Unit).find? name).isSome := by decide
  obtain ⟨pipeline, written, built, idle⟩ :=
    Registry.builtin_idempotent program options (.start ()) known
  refine ⟨known, pipeline, written, built, ?_, (idle written).1⟩
  cases built
  decide +kernel

end UniformSpin

end Workgroup

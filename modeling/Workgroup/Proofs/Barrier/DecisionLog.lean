import Workgroup.Proofs.Barrier.Schedule
import Workgroup.Proofs.Barrier.Verdict

/-!
Contract: every decision in the log of a run has a loop behind it.

Built-in stages write decisions when they visit a loop and at no other time.
Through a run the functions keep their control flow and the names of their
blocks.  So a decision, in whichever round it was made, is the verdict on a loop
of the module that the run began with.

Owns:
- functions that differ in what is placed in front of their terminators;
- the cases that arise from a function, and the decisions that a module explains;
- the log of a run, from one visit up to a pipeline of built-in passes.
-/

namespace Workgroup

/-! ## Decisions and their cases -/

namespace Function

variable {before middle after : Function}

/-- The second function has the control flow of the first one and calls its
blocks by the same names. -/
structure Resembles (before after : Function) : Prop where
  control : before.KeepsControl after
  blockName_eq : ∀ block, after.blockName block = before.blockName block

theorem Resembles.refl (function : Function) : function.Resembles function :=
  ⟨.refl function, fun _ => rfl⟩

theorem Resembles.trans (first : before.Resembles middle) (second : middle.Resembles after) :
    before.Resembles after where
  control := first.control.trans second.control
  blockName_eq := fun block => (second.blockName_eq block).trans (first.blockName_eq block)

end Function

/-- Plain barriers leave the control flow and the names of blocks alone. -/
theorem BarrierPass.runOnLoop_resembles {σ : Type} {pass : BarrierPass σ}
    (isGroup : pass.factory = .group) (context : LoopContext σ) (loop : Loop)
    (function : Function) (journal : Journal σ) :
    function.Resembles (pass.runOnLoop context loop function journal).function := by
  rcases runOnLoop_eq_or_keepsControl isGroup with kept | ⟨changed, keeps⟩
  · rw [kept]
    exact .refl function
  · have gains := gains_of_changed (isGroup ▸ BarrierFactory.obeys_group.addsOne) changed
    exact ⟨keeps, gains.blockName_eq⟩

section Decisions

variable {σ : Type}

/-- The case is about a loop of the function with the graph and the dominators of
the function, which may have got barriers since. -/
structure BarrierCase.Arises (given : BarrierCase σ) (function : Function) : Prop where
  listed : ∃ position,
    (function.graph.loopForest function.graph.dominators).loops.get? position = some given.loop
  resembles : function.Resembles given.function
  graph_eq : given.context.graph = function.graph
  dominators_eq : given.context.dominators = function.graph.dominators

/-- The decision is the verdict in a case that arises from a function of this name. -/
def Module.Explains (σ : Type) (module : Module) (name : String) (decision : BarrierDecision) :
    Prop :=
  ∃ handle function, module.functions.get? handle = some function ∧ function.name = name ∧
    ∃ given : BarrierCase σ, given.Arises function ∧ given.Verdict decision

/-- Something has been written behind a log, and the module explains the decisions
in it. -/
def Module.Accounts (module : Module) (written : List LogEntry) (journal : Journal σ) : Prop :=
  ∃ entries, journal.log = written ++ entries ∧
    ∀ {name decision}, .decided name decision ∈ entries → module.Explains σ name decision

end Decisions

namespace Module.Accounts

variable {σ : Type} {module : Module} {written : List LogEntry} {journal : Journal σ}

theorem start (module : Module) (journal : Journal σ) : module.Accounts journal.log journal :=
  ⟨[], (List.append_nil _).symm, fun member => absurd member List.not_mem_nil⟩

theorem writeAll (accounts : module.Accounts written journal) {entries : List LogEntry}
    (explained : ∀ {name decision}, .decided name decision ∈ entries →
      module.Explains σ name decision) :
    module.Accounts written (journal.writeAll entries) := by
  obtain ⟨earlier, log_eq, earlierExplained⟩ := accounts
  refine ⟨earlier ++ entries, ?_, fun member => ?_⟩
  · unfold Journal.writeAll
    rw [log_eq, List.append_assoc]
  · rcases List.mem_append.1 member with old | new
    · exact earlierExplained old
    · exact explained new

theorem write (accounts : module.Accounts written journal) {entry : LogEntry}
    (explained : ∀ {name decision}, entry = .decided name decision →
      module.Explains σ name decision) :
    module.Accounts written (journal.write entry) :=
  accounts.writeAll fun member => explained (List.mem_singleton.1 member).symm

/-- The pass of the options writes its decisions into the log or nowhere. -/
theorem record (accounts : module.Accounts written journal) (options : PassOptions)
    {function : Function} {decision : BarrierDecision}
    (explained : module.Explains σ function.name decision) :
    module.Accounts written
      ((BarrierPass.ofOptions options).record function decision journal) := by
  unfold BarrierPass.record BarrierPass.ofOptions BarrierPass.plain
  dsimp only
  cases options.traceBarriers with
  | false => exact accounts
  | true =>
      refine accounts.write fun same => ?_
      cases same
      exact explained

end Module.Accounts

/-! ## The log of a run -/

/-- The stage was grouped from built-in components. -/
def Stage.IsListed {σ : Type} (options : PassOptions) (stage : Stage σ) : Prop :=
  ∀ component ∈ stage.components, component.IsBuiltin options

variable {σ : Type} {module : Module} {written : List LogEntry} {options : PassOptions}

namespace LoopRun

/-- The invariant of the visits: the function resembles that of the module, the
analyses are those of the latter, and the decisions are explained. -/
structure Accounts (module : Module) (written : List LogEntry) (function : Function)
    (run : LoopRun σ) : Prop where
  resembles : function.Resembles run.function
  graph_eq : run.graph = function.graph
  dominators_eq : run.dominators = function.graph.dominators
  accounted : module.Accounts written run.journal

variable {function : Function} {run : LoopRun σ} {handle : FuncId} {forest : LoopForest}
  {loop : Loop}

/-- One visit hands at most one decision on, the verdict on its loop. -/
theorem Accounts.visit (accounts : Accounts module written function run)
    (isFunction : ∃ origin, module.functions.get? origin = some function)
    (isLoop : ∃ position,
      (function.graph.loopForest function.graph.dominators).loops.get? position = some loop) :
    Accounts module written function
      (run.visit handle forest loop (BarrierPass.ofOptions options).toLoopPass) := by
  obtain ⟨origin, isFunction⟩ := isFunction
  unfold LoopRun.visit
  split
  · exact ⟨accounts.resembles, accounts.graph_eq, accounts.dominators_eq,
      accounts.accounted.write nofun⟩
  · have isGroup : (BarrierPass.ofOptions options : BarrierPass σ).factory = .group := rfl
    obtain ⟨decision, queries, verdict, -, journal_eq, -⟩ := BarrierPass.runOnLoop_verdict isGroup
      (run.context handle forest) loop run.function run.journal
    have resembles := accounts.resembles.trans (BarrierPass.runOnLoop_resembles isGroup
      (run.context handle forest) loop run.function run.journal)
    have explained : module.Explains σ run.function.name decision := by
      refine ⟨origin, function, isFunction, accounts.resembles.control.name_eq.symm, _, ?_, verdict⟩
      exact ⟨isLoop, accounts.resembles, accounts.graph_eq, accounts.dominators_eq⟩
    have accounted : module.Accounts written ((BarrierPass.ofOptions options).runOnLoop
        (run.context handle forest) loop run.function run.journal).journal := by
      rw [journal_eq]
      have asked : module.Accounts written (run.journal.setNotes
        ((run.context handle forest).oracle.askAll handle queries run.journal.notes)) :=
          accounts.accounted
      exact asked.record options explained
    dsimp only
    split
    · exact ⟨resembles, accounts.graph_eq, accounts.dominators_eq, accounted.write nofun⟩
    · exact ⟨resembles, accounts.graph_eq, accounts.dominators_eq, accounted⟩

end LoopRun

/-- The run over the loops of a function that resembles one of the module. -/
theorem Function.runLoopPasses_accounts {function current : Function} {journal : Journal σ}
    {passes : List (LoopPass σ)} (resembles : function.Resembles current)
    (isFunction : ∃ origin, module.functions.get? origin = some function)
    (accounted : module.Accounts written journal)
    (barriers : ∀ pass ∈ passes, pass = (BarrierPass.ofOptions options).toLoopPass)
    (handle : FuncId) (analyses : Analyses σ) :
    LoopRun.Accounts module written function
      (current.runLoopPasses handle passes analyses journal) := by
  have sameGraph := resembles.control.graph_eq
  have begins : LoopRun.Accounts module written function (.start current analyses journal) :=
    ⟨resembles, sameGraph, congrArg FlowGraph.dominators sameGraph, accounted.write nofun⟩
  refine List.foldlRecOn _ _ begins fun run accounts loop listed => ?_
  refine List.foldlRecOn _ _ accounts fun run accounts pass member => ?_
  obtain ⟨position, -, isLoop⟩ := List.mem_filterMap.1 listed
  rw [sameGraph] at isLoop
  rw [barriers pass member]
  exact accounts.visit isFunction ⟨position, isLoop⟩

namespace PassState

/-- The invariant of the stages: the functions resemble those of the module, and
the decisions are explained. -/
structure Accounts (module : Module) (written : List LogEntry) (state : PassState σ) : Prop where
  resembles : ∀ {handle current}, state.module.functions.get? handle = some current →
    ∃ function, module.functions.get? handle = some function ∧ function.Resembles current
  accounted : module.Accounts written state.journal

variable {state : PassState σ} {passes : List (LoopPass σ)}

theorem Accounts.start (state : PassState σ) : Accounts state.module state.journal.log state :=
  ⟨fun {_ current} isCurrent => ⟨current, isCurrent, .refl current⟩, .start _ _⟩

theorem Accounts.runOnFunction {outcome : PassOutcome σ}
    (accounts : Accounts module written outcome.state)
    (barriers : ∀ pass ∈ passes, pass = (BarrierPass.ofOptions options).toLoopPass)
    (handle : FuncId) :
    Accounts module written (PassState.runOnFunction passes outcome handle).state := by
  obtain ⟨-, unchanged⟩ | ⟨current, run, isCurrent, rfl, -, outcome_eq⟩ :=
    runOnFunction_cases passes outcome handle
  · rw [unchanged]
    exact accounts
  obtain ⟨function, isFunction, resembles⟩ := accounts.resembles isCurrent
  have ends := Function.runLoopPasses_accounts resembles ⟨handle, isFunction⟩ accounts.accounted
    barriers handle outcome.state.analyses
  have present : handle < outcome.state.module.functions.size :=
    Table.get?_isSome_iff.1 (by rw [isCurrent]; rfl)
  rw [outcome_eq]
  refine ⟨fun {other found} isFound => ?_, ends.accounted⟩
  rw [Table.get?_set _ _ _ _ present] at isFound
  split at isFound
  · next same =>
    subst same
    cases isFound
    exact ⟨function, isFunction, ends.resembles⟩
  · exact accounts.resembles isFound

theorem Accounts.runLoopPasses (accounts : Accounts module written state)
    (barriers : ∀ pass ∈ passes, pass = (BarrierPass.ofOptions options).toLoopPass) :
    Accounts module written (state.runLoopPasses passes).state :=
  List.foldlRecOn (motive := fun outcome : PassOutcome σ => Accounts module written outcome.state)
    _ _ accounts fun _ accounts handle _ => accounts.runOnFunction barriers handle

theorem Accounts.runStage {stage : Stage σ} (accounts : Accounts module written state)
    (isListed : stage.IsListed options) : Accounts module written (stage.run state).state := by
  cases stage with
  | loops passes =>
      have barriers : ∀ pass ∈ passes, pass = (BarrierPass.ofOptions options).toLoopPass := by
        intro pass member
        exact Component.isBuiltin_loop_iff.1 (isListed (.loop pass) (List.mem_map_of_mem member))
      exact accounts.runLoopPasses barriers
  | module pass =>
      obtain rfl := Component.isBuiltin_module_iff.1 (isListed (.module pass) List.mem_cons_self)
      refine ⟨accounts.resembles, accounts.accounted.writeAll fun member => ?_⟩
      obtain ⟨function, -, reported⟩ := List.mem_flatMap.1 member
      obtain ⟨fault, -, same⟩ := List.mem_map.1 reported
      exact absurd same nofun

end PassState

namespace Pipeline

variable {stages : List (Stage σ)} {state : PassState σ}

theorem runRound_accounts (accounts : PassState.Accounts module written state)
    (listed : ∀ stage ∈ stages, stage.IsListed options) (round : Nat) :
    PassState.Accounts module written (runRound stages round state).state := by
  refine List.foldlRecOn
    (motive := fun outcome : PassOutcome σ => PassState.Accounts module written outcome.state) _ _
    accounts fun outcome accounts stage member => ?_
  have next := accounts.runStage (listed stage member)
  unfold step
  dsimp only
  split
  · exact ⟨next.resembles, next.accounted.write nofun⟩
  · exact next

theorem runRounds_accounts (listed : ∀ stage ∈ stages, stage.IsListed options) (left : Nat) :
    ∀ (round : Nat) {state : PassState σ}, PassState.Accounts module written state →
      PassState.Accounts module written (runRounds stages left round state).state := by
  induction left with
  | zero => exact fun _ _ accounts => accounts
  | succ left inductionHypothesis =>
      intro round state accounts
      have next := runRound_accounts accounts listed round
      unfold runRounds
      dsimp only
      split
      · exact inductionHypothesis (round + 1) next
      · exact next

end Pipeline

/-- The module that a pipeline of built-in passes is run on explains every decision
that the run adds to the log. -/
theorem Registry.builtin_accounts {names : List String}
    (known : ∀ name ∈ names, name = BarrierPass.name ∨ name = "verify") (options : PassOptions)
    (journal : Journal σ) :
    ∃ pipeline written, builtin.build names options journal = .ok (pipeline, written) ∧
      ∀ state : PassState σ,
        state.module.Accounts state.journal.log (pipeline.run state).state.journal := by
  obtain ⟨written, built⟩ := build_eq options journal known
  refine ⟨_, written, built, fun state => ?_⟩
  have listed : ∀ stage ∈ Component.group (names.map (Component.builtin options) : List (Component σ)),
      stage.IsListed options := by
    intro stage isStage component member
    obtain ⟨name, -, rfl⟩ := List.mem_map.1 (Component.mem_of_mem_group isStage member)
    exact Component.builtin_isBuiltin options name
  exact (Pipeline.runRounds_accounts listed _ 0 (.start state)).accounted

end Workgroup

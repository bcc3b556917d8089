import Workgroup.Proofs.Barrier.Agreement

/-!
Contract: the schedule of the built-in passes does not matter.

However often the barrier pass is listed, whichever stages share a walk and
wherever the rounds end, a module becomes what one walk of a single pass makes of
it: the first walk of a run does it, and the others find nothing to do.

Owns:
- stages that repeat a single walk, and the invariant of a round of them;
- a run against a single walk;
- the stages that are assembled from built-in names.
-/

namespace Workgroup

variable {σ : Type} {filter : KernelFilter} {sink : Option (DecisionSink σ)} {oracle : Oracle σ}

/-! ## Rounds against a single walk -/

/-- The stage does to a module what a single walk did to it, and nothing to the
module that the walk left; or it only looks at the module.  Either way it keeps
the analyses in the state it needs. -/
def Stage.Repeats (ready : Analyses σ → Prop) (before : Module) (single : PassOutcome σ) :
    Stage σ → Prop
  | .loops passes => ∀ state : PassState σ, ready state.analyses →
      ready (state.runLoopPasses passes).state.analyses ∧
      (state.module = before →
        (state.runLoopPasses passes).state.module = single.state.module ∧
        (state.runLoopPasses passes).changed = single.changed) ∧
      (state.module = single.state.module →
        (state.runLoopPasses passes).state.module = single.state.module ∧
        (state.runLoopPasses passes).changed = false)
  | .module pass => ∀ state, (pass.run state).changed = false ∧
      (pass.run state).state.module = state.module ∧
      (pass.run state).state.analyses = state.analyses

/-- To the module that the single walk left, the stage does what a walk does that
does nothing. -/
theorem Stage.Repeats.again {ready : Analyses σ → Prop} {before : Module}
    {single : PassOutcome σ} {stage : Stage σ} (repeats : stage.Repeats ready before single) :
    stage.Repeats ready single.state.module ⟨false, single.state⟩ := by
  cases stage with
  | module pass => exact repeats
  | loops passes =>
      intro state isReady
      obtain ⟨readyAfter, -, again⟩ := repeats state isReady
      exact ⟨readyAfter, again, again⟩

/-- Built-in stages repeat a walk of the barrier pass, with a pure oracle or none. -/
theorem Stage.IsBuiltin.repeats {stage : Stage σ} (builtin : stage.IsBuiltin filter sink)
    (isPure : oracle.IsPure) (state : PassState σ) (serves : state.analyses.Serves oracle)
    (other : Option (DecisionSink σ)) :
    stage.Repeats (Analyses.Serves · oracle) state.module
      (state.runLoopPasses [(BarrierPass.plain filter other).toLoopPass]) := by
  cases stage with
  | module pass => exact builtin
  | loops passes =>
      obtain ⟨some, plain⟩ := builtin
      have alone : ∀ pass ∈ [(BarrierPass.plain filter other).toLoopPass],
          pass = (BarrierPass.plain filter other).toLoopPass := fun _ => List.mem_singleton.1
      have isSettled : Module.Settled filter oracle
          (state.runLoopPasses [(BarrierPass.plain filter other).toLoopPass]).state.module :=
        (PassState.runLoopPasses_settles isPure (List.cons_ne_nil _ _) alone state serves).2.1
      intro later laterServes
      obtain ⟨servesAfter, -, idle⟩ :=
        PassState.runLoopPasses_settles isPure some plain later laterServes
      refine ⟨servesAfter, fun isBefore => ?_, fun isSingle => ?_⟩
      · have agrees : (later.runLoopPasses passes).Agrees oracle
            (state.runLoopPasses [(BarrierPass.plain filter other).toLoopPass]) :=
          PassState.runLoopPasses_agrees isBefore laterServes serves isPure some plain
        exact ⟨agrees.module_eq, agrees.changed_eq⟩
      · obtain ⟨sameModule, unchanged⟩ := idle (isSingle ▸ isSettled)
        exact ⟨sameModule.trans isSingle, unchanged⟩

theorem Stage.IsBuiltin.repeats_of_unsupplied {stage : Stage σ}
    (builtin : stage.IsBuiltin filter sink) (state : PassState σ)
    (unsupplied : state.analyses.oracle = none) (other : Option (DecisionSink σ)) :
    stage.Repeats (fun analyses => analyses.oracle = none) state.module
      (state.runLoopPasses [(BarrierPass.plain filter other).toLoopPass]) := by
  cases stage with
  | module pass => exact builtin
  | loops passes =>
      obtain ⟨-, plain⟩ := builtin
      have alone : ∀ pass ∈ [(BarrierPass.plain filter other).toLoopPass],
          pass = (BarrierPass.plain filter other).toLoopPass := fun _ => List.mem_singleton.1
      obtain ⟨singleModule, singleReport, -⟩ :=
        PassState.runLoopPasses_of_unsupplied unsupplied alone
      intro later laterUnsupplied
      obtain ⟨sameModule, unchanged, sameAnalyses⟩ :=
        PassState.runLoopPasses_of_unsupplied laterUnsupplied plain
      rw [sameAnalyses, sameModule, unchanged, singleModule, singleReport]
      exact ⟨laterUnsupplied, fun isBefore => ⟨isBefore, rfl⟩, fun isBefore => ⟨isBefore, rfl⟩⟩

/-- Some of the stages is a walk over loops. -/
def Stage.SomeWalks (stages : List (Stage σ)) : Prop := ∃ passes, Stage.loops passes ∈ stages

theorem Stage.someWalks_concat {stages : List (Stage σ)} {stage : Stage σ} :
    SomeWalks (stages ++ [stage]) ↔ SomeWalks stages ∨ ∃ passes, stage = .loops passes := by
  unfold SomeWalks
  simp only [List.mem_append, List.mem_singleton, exists_or, eq_comm (a := stage)]

namespace Pipeline

variable {ready : Analyses σ → Prop} {before : Module} {single outcome : PassOutcome σ}
  {stages visited : List (Stage σ)} {stage : Stage σ} {state : PassState σ}

/-- The invariant of a round: nothing has happened before the first walk, and from
then on the module is the one that the single walk left. -/
structure Follows (ready : Analyses σ → Prop) (before : Module) (single : PassOutcome σ)
    (visited : List (Stage σ)) (outcome : PassOutcome σ) : Prop where
  ready : ready outcome.state.analyses
  idle : ¬ Stage.SomeWalks visited →
    outcome.state.module = before ∧ outcome.changed = false
  done : Stage.SomeWalks visited →
    outcome.state.module = single.state.module ∧ outcome.changed = single.changed

theorem Follows.step (follows : Follows ready before single visited outcome)
    (repeats : stage.Repeats ready before single) (round : Nat) :
    Follows ready before single (visited ++ [stage]) (Pipeline.step round outcome stage) := by
  have sameModule := step_module round outcome stage
  have sameAnalyses := step_analyses round outcome stage
  have sameReport := step_changed round outcome stage
  cases stage with
  | module pass =>
      obtain ⟨unchanged, passModule, passAnalyses⟩ := repeats outcome.state
      have walks_iff : Stage.SomeWalks (visited ++ [.module pass]) ↔ Stage.SomeWalks visited := by
        rw [Stage.someWalks_concat]
        exact or_iff_left nofun
      have moduleKept : (Pipeline.step round outcome (.module pass)).state.module =
          outcome.state.module := sameModule.trans passModule
      have reportKept : (Pipeline.step round outcome (.module pass)).changed =
          outcome.changed := by
        rw [sameReport]
        show (outcome.changed || (pass.run outcome.state).changed) = _
        rw [unchanged, Bool.or_false]
      refine ⟨?_, ?_, ?_⟩
      · rw [sameAnalyses]
        exact passAnalyses ▸ follows.ready
      · rw [walks_iff, moduleKept, reportKept]
        exact follows.idle
      · rw [walks_iff, moduleKept, reportKept]
        exact follows.done
  | loops passes =>
      obtain ⟨readyAfter, first, again⟩ := repeats outcome.state follows.ready
      have walks : Stage.SomeWalks (visited ++ [.loops passes]) :=
        Stage.someWalks_concat.2 (.inr ⟨passes, rfl⟩)
      refine ⟨sameAnalyses ▸ readyAfter, fun none => absurd walks none, fun _ => ?_⟩
      rw [sameModule, sameReport]
      by_cases earlier : Stage.SomeWalks visited
      · obtain ⟨isSingle, report⟩ := follows.done earlier
        obtain ⟨stillSingle, unchanged⟩ := again isSingle
        refine ⟨stillSingle, ?_⟩
        show (outcome.changed || (outcome.state.runLoopPasses passes).changed) = _
        rw [report, unchanged, Bool.or_false]
      · obtain ⟨isBefore, unchanged⟩ := follows.idle earlier
        obtain ⟨isSingle, report⟩ := first isBefore
        refine ⟨isSingle, ?_⟩
        show (outcome.changed || (outcome.state.runLoopPasses passes).changed) = _
        rw [unchanged, report, Bool.false_or]

theorem runRound_follows (repeats : ∀ stage ∈ stages, stage.Repeats ready before single)
    (isReady : ready state.analyses) (isBefore : state.module = before) (round : Nat) :
    Follows ready before single stages (runRound stages round state) := by
  unfold runRound
  induction stages using List.reverseRecOn with
  | nil =>
      exact ⟨isReady, fun _ => ⟨isBefore, rfl⟩, fun ⟨_, member⟩ => absurd member List.not_mem_nil⟩
  | append_singleton stages stage inductionHypothesis =>
      rw [List.foldl_append]
      have earlier := inductionHypothesis fun other member =>
        repeats other (List.mem_append_left _ member)
      exact earlier.step (repeats stage (List.mem_append_right _ List.mem_cons_self)) round

/-- Rounds on the module that the single walk left have nothing to do. -/
theorem runRounds_after (repeats : ∀ stage ∈ stages, stage.Repeats ready before single)
    (isReady : ready state.analyses) (isSingle : state.module = single.state.module)
    (walks : Stage.SomeWalks stages) (left round : Nat) :
    (runRounds stages left round state).state.module = single.state.module := by
  cases left with
  | zero => exact isSingle
  | succ left =>
      have follows := runRound_follows (fun stage member => (repeats stage member).again) isReady
        isSingle round
      obtain ⟨stillSingle, unchanged⟩ := follows.done walks
      unfold runRounds
      dsimp only
      rw [if_neg (Bool.eq_false_iff.1 unchanged)]
      exact stillSingle

/-- A run comes to what the single walk left if some stage walks over the loops, and
does nothing otherwise, whatever the limit on rounds is. -/
theorem run_follows (pipeline : Pipeline σ) (state : PassState σ)
    (repeats : ∀ stage ∈ pipeline.stages, stage.Repeats ready state.module single)
    (isReady : ready state.analyses) :
    Follows (fun _ => True) state.module single pipeline.stages (pipeline.run state) := by
  obtain ⟨left, atLeastOne⟩ : ∃ left, max 1 pipeline.maxRounds = left + 1 :=
    ⟨max 1 pipeline.maxRounds - 1, by omega⟩
  have first := runRound_follows repeats isReady rfl 0
  unfold run
  rw [atLeastOne]
  unfold runRounds
  dsimp only
  split
  · next changed =>
    have walks : Stage.SomeWalks pipeline.stages := by
      by_contra none
      exact Bool.false_ne_true ((first.idle none).2.symm.trans changed)
    obtain ⟨isSingle, report⟩ := first.done walks
    refine ⟨trivial, fun none => absurd walks none, fun _ => ⟨?_, changed.symm.trans report⟩⟩
    exact runRounds_after repeats first.ready isSingle walks left 1
  · exact ⟨trivial, first.idle, first.done⟩

end Pipeline

/-! ## Pipelines of built-in passes -/

namespace Component

/-- What the built-in registry builds under one of its two names. -/
def builtin (options : PassOptions) (name : String) : Component σ :=
  if name = BarrierPass.name then .loop (BarrierPass.ofOptions options).toLoopPass
  else .module .verify

theorem builtin_isBuiltin (options : PassOptions) (name : String) :
    (builtin options name : Component σ).IsBuiltin options := by
  unfold builtin
  split
  · exact .inl rfl
  · exact .inr rfl

/-- Grouping makes a walk exactly if there is a loop pass. -/
theorem someWalks_group {components : List (Component σ)} :
    Stage.SomeWalks (group components) ↔ ∃ pass, Component.loop pass ∈ components := by
  constructor
  · rintro ⟨passes, isStage⟩
    have some := components_ne_nil_of_mem_group _ isStage
    obtain ⟨pass, member⟩ := List.exists_mem_of_ne_nil passes fun none => some (by rw [none]; rfl)
    exact ⟨pass, mem_of_mem_group isStage (List.mem_map_of_mem member)⟩
  · rintro ⟨pass, member⟩
    rw [← flatMap_group components] at member
    obtain ⟨stage, isStage, listed⟩ := List.mem_flatMap.1 member
    cases stage with
    | loops passes => exact ⟨passes, isStage⟩
    | module other => exact absurd (List.mem_singleton.1 listed) nofun

end Component

namespace Registry

theorem component_eq (options : PassOptions) {name : String}
    (known : name = BarrierPass.name ∨ name = "verify") :
    (builtin : Registry σ).component options name = .ok (Component.builtin options name) := by
  rcases known with rfl | rfl
  · rfl
  · rfl

/-- A list of built-in names is assembled into what stands behind the names. -/
theorem build_eq (options : PassOptions) (journal : Journal σ) {names : List String}
    (known : ∀ name ∈ names, name = BarrierPass.name ∨ name = "verify") :
    ∃ written, builtin.build names options journal =
      .ok (⟨Component.group (names.map (Component.builtin options)), options.maxRounds⟩,
        written) := by
  have components : names.mapM ((builtin : Registry σ).component options) =
      .ok (names.map (Component.builtin options)) := by
    induction names with
    | nil => rfl
    | cons name names inductionHypothesis =>
        rw [List.mapM_cons, component_eq options (known name List.mem_cons_self),
          inductionHypothesis fun other member => known other (List.mem_cons_of_mem name member)]
        rfl
  unfold build assemble
  rw [components]
  exact ⟨_, rfl⟩

/-- How the built-in passes are grouped, how often they are listed and how many
rounds there may be does not matter.  With a pure oracle or none, a pipeline that
lists the barrier pass leaves the module that a single walk of this pass alone
leaves, and reports the same, whatever that walk writes down; any other pipeline
of built-in passes leaves the module as it was and reports no change. -/
theorem builtin_schedule (module : Module) {supplied : Option (Oracle σ)}
    (isPure : ∀ oracle ∈ supplied, oracle.IsPure) {names : List String}
    (known : ∀ name ∈ names, name = BarrierPass.name ∨ name = "verify") (options : PassOptions)
    (journal : Journal σ) :
    ∃ pipeline written, builtin.build names options journal = .ok (pipeline, written) ∧
      let outcome := pipeline.run ⟨module, ⟨supplied, []⟩, written⟩
      (BarrierPass.name ∈ names → ∀ (sink : Option (DecisionSink σ)) (other : Journal σ),
        let single := PassState.runLoopPasses ⟨module, ⟨supplied, []⟩, other⟩
          [(BarrierPass.plain ⟨options.kernelName⟩ sink).toLoopPass]
        outcome.state.module = single.state.module ∧ outcome.changed = single.changed) ∧
      (BarrierPass.name ∉ names → outcome.state.module = module ∧ outcome.changed = false) := by
  obtain ⟨written, built⟩ := build_eq options journal known
  refine ⟨_, written, built, ?_⟩
  dsimp only
  generalize isPipeline : (⟨Component.group (names.map (Component.builtin options)),
    options.maxRounds⟩ : Pipeline σ) = pipeline
  have walks_iff : Stage.SomeWalks pipeline.stages ↔ BarrierPass.name ∈ names := by
    rw [← isPipeline, Component.someWalks_group]
    constructor
    · rintro ⟨pass, member⟩
      obtain ⟨name, listed, isLoop⟩ := List.mem_map.1 member
      unfold Component.builtin at isLoop
      split at isLoop
      · next isName => exact isName ▸ listed
      · exact absurd isLoop nofun
    · exact fun listed => ⟨_, List.mem_map.2 ⟨_, listed, if_pos rfl⟩⟩
  have areBuiltin : ∀ stage ∈ pipeline.stages, stage.IsBuiltin ⟨options.kernelName⟩
      (if options.traceBarriers then some .log else none) := by
    rw [← isPipeline]
    apply Component.isBuiltin_of_mem_group
    exact List.forall_mem_map.2 fun name _ => Component.builtin_isBuiltin options name
  have follows (sink : Option (DecisionSink σ)) (other : Journal σ) :
      Pipeline.Follows (fun _ => True) module
        (PassState.runLoopPasses ⟨module, ⟨supplied, []⟩, other⟩
          [(BarrierPass.plain ⟨options.kernelName⟩ sink).toLoopPass])
        pipeline.stages (pipeline.run ⟨module, ⟨supplied, []⟩, written⟩) := by
    cases supplied with
    | none =>
        have repeats := fun stage member => (areBuiltin stage member).repeats_of_unsupplied
          ⟨module, ⟨none, []⟩, other⟩ rfl sink
        exact pipeline.run_follows ⟨module, ⟨none, []⟩, written⟩ repeats rfl
    | some oracle =>
        have serves := Analyses.Serves.supplied_oracle oracle
        have repeats := fun stage member => (areBuiltin stage member).repeats (isPure oracle rfl)
          ⟨module, .supplied oracle, other⟩ serves sink
        exact pipeline.run_follows ⟨module, .supplied oracle, written⟩ repeats serves
  refine ⟨fun listed sink other => (follows sink other).done (walks_iff.2 listed),
    fun unlisted => (follows none written).idle fun walks => unlisted (walks_iff.1 walks)⟩

end Registry

namespace UniformSpin

/-- The passes in a roundabout schedule. -/
def roundabout : List String :=
  ["verify", BarrierPass.name, BarrierPass.name, "verify", BarrierPass.name]

/-- Three listings in two walks and several rounds come to what one walk comes to. -/
theorem roundabout_eq_single :
    (∀ oracle ∈ some (Oracle.ofFacts program.facts : Oracle Unit), oracle.IsPure) ∧
      (∀ name ∈ roundabout, name = BarrierPass.name ∨ name = "verify") ∧
      ∃ pipeline written,
        Registry.builtin.build roundabout .standard (.start ()) = .ok (pipeline, written) ∧
        let outcome := pipeline.run ⟨program.module, .supplied (.ofFacts program.facts), written⟩
        let single := PassState.runLoopPasses
          ⟨program.module, .supplied (.ofFacts program.facts), .start ()⟩
          [(BarrierPass.plain .all none).toLoopPass]
        outcome.state.module = single.state.module ∧ outcome.changed = true := by
  have isPure : ∀ oracle ∈ some (Oracle.ofFacts program.facts : Oracle Unit), oracle.IsPure := by
    rintro oracle ⟨⟩
    exact Oracle.isPure_ofFacts program.facts
  have known : ∀ name ∈ roundabout, name = BarrierPass.name ∨ name = "verify" := by decide
  obtain ⟨pipeline, written, built, listed, -⟩ :=
    Registry.builtin_schedule program.module isPure known .standard (.start ())
  obtain ⟨sameModule, sameReport⟩ := listed (by decide) none (.start ())
  refine ⟨isPure, known, pipeline, written, built, sameModule, sameReport.trans ?_⟩
  decide +kernel

end UniformSpin

end Workgroup

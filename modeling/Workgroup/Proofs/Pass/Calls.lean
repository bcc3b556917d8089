import Workgroup.Pass.Pipeline

/-!
Contract: the calls of a run that reported a change, and what they leave behind.

The state of a run does not remember which loops were changed, so the calls are
collected along its folds.  A relation between a function, the loops changed in
it and the function afterwards is established call by call; if it composes, it
holds of a run over all loops, of a module, and of every round of a pipeline.

Owns:
- notes taken along a fold;
- the calls that reported a change, from one visit up to a pipeline;
- relations that calls establish, and their way from one visit to a pipeline.
-/

namespace Workgroup

/-! ## Notes along a fold -/

section Collect

variable {α β γ : Type} {step : β → α → β} {note : β → α → List γ}

/-- What is noted at each step of a fold, in order. -/
def collect (step : β → α → β) (note : β → α → List γ) : β → List α → List γ
  | _, [] => []
  | state, item :: rest => note state item ++ collect step note (step state item) rest

/-- What every step keeps holds of the end of a fold and everything noted, also
if something has been noted before. -/
theorem append_collect_induction {motive : β → List γ → Prop} {items : List α} {start : β}
    {noted : List γ} (begins : motive start noted)
    (keeps : ∀ {state noted item}, item ∈ items → motive state noted →
      motive (step state item) (noted ++ note state item)) :
    motive (items.foldl step start) (noted ++ collect step note start items) := by
  induction items generalizing start noted with
  | nil =>
      rw [collect, List.append_nil]
      exact begins
  | cons item items inductionHypothesis =>
      rw [collect, List.foldl_cons, ← List.append_assoc]
      apply inductionHypothesis (keeps List.mem_cons_self begins)
      intro state noted other member
      exact keeps (List.mem_cons_of_mem item member)

theorem collect_induction {motive : β → List γ → Prop} {items : List α} {start : β}
    (begins : motive start [])
    (keeps : ∀ {state noted item}, item ∈ items → motive state noted →
      motive (step state item) (noted ++ note state item)) :
    motive (items.foldl step start) (collect step note start items) :=
  append_collect_induction begins keeps

/-- What holds of the notes of each step holds of everything noted. -/
theorem forall_mem_collect {holds : γ → Prop} {items : List α} {start : β}
    (noted : ∀ state, ∀ item ∈ items, note state item ⊆ collect step note start items →
      ∀ entry ∈ note state item, holds entry) :
    ∀ entry ∈ collect step note start items, holds entry := by
  induction items generalizing start with
  | nil => exact fun _ member => absurd member List.not_mem_nil
  | cons item items inductionHypothesis =>
      unfold collect at noted ⊢
      refine List.forall_mem_append.2 ⟨?_, inductionHypothesis fun state other listed part => ?_⟩
      · exact noted start item List.mem_cons_self (List.subset_append_left _ _)
      · exact noted state other (List.mem_cons_of_mem item listed)
          (List.Subset.trans part (List.subset_append_right _ _))

end Collect

/-! ## Calls that reported a change -/

section Calls

variable {σ : Type}

namespace LoopRun

/-- The run before the first visit. -/
def start (function : Function) (analyses : Analyses σ) (journal : Journal σ) : LoopRun σ where
  function := function
  graph := function.graph
  dominators := function.graph.dominators
  analyses := analyses
  journal := journal.write
    ((function.graph.loopForest function.graph.dominators).report function)
  changed := false

/-- The loop, if the visit by a pass reports a change. -/
def reported (handle : FuncId) (forest : LoopForest) (loop : Loop) (run : LoopRun σ)
    (pass : LoopPass σ) : List Loop :=
  match run.missing? handle pass with
  | some _ => []
  | none =>
      if (pass.runOnLoop (run.context handle forest) loop run.function run.journal).changed then
        [loop]
      else []

/-- The loop, once for each pass that reports a change of it. -/
def reportedByAll (handle : FuncId) (forest : LoopForest) (passes : List (LoopPass σ))
    (run : LoopRun σ) (loop : Loop) : List Loop :=
  collect (visit handle forest loop) (reported handle forest loop) run passes

end LoopRun

/-- The loops that a run of loop passes reports to have changed, call by call. -/
def Function.changedLoops (function : Function) (handle : FuncId) (passes : List (LoopPass σ))
    (analyses : Analyses σ) (journal : Journal σ) : List Loop :=
  let forest := function.graph.loopForest function.graph.dominators
  collect (LoopRun.visitLoop handle forest passes) (LoopRun.reportedByAll handle forest passes)
    (.start function analyses journal) (forest.postorder.filterMap forest.loops.get?)

namespace PassState

/-- The calls on one function that report a change. -/
def functionCalls (passes : List (LoopPass σ)) (outcome : PassOutcome σ) (handle : FuncId) :
    List (FuncId × Loop) :=
  match outcome.state.module.functions.get? handle with
  | none => []
  | some function =>
      if function.isDeclaration then []
      else
        (function.changedLoops handle passes outcome.state.analyses outcome.state.journal).map
          fun loop => (handle, loop)

/-- The calls on a module that report a change. -/
def calls (state : PassState σ) (passes : List (LoopPass σ)) : List (FuncId × Loop) :=
  collect (runOnFunction passes) (functionCalls passes) ⟨false, state⟩
    state.module.functions.handles

end PassState

/-- The calls of loop passes in a stage that report a change. -/
def Stage.calls (stage : Stage σ) (state : PassState σ) : List (FuncId × Loop) :=
  match stage with
  | .loops passes => state.calls passes
  | .module _ => []

namespace Pipeline

/-- The calls in one round that report a change. -/
def roundCalls (stages : List (Stage σ)) (round : Nat) (state : PassState σ) :
    List (FuncId × Loop) :=
  collect (step round) (fun outcome stage => stage.calls outcome.state) ⟨false, state⟩ stages

/-- The calls in several rounds that report a change. -/
def roundsCalls (stages : List (Stage σ)) : Nat → Nat → PassState σ → List (FuncId × Loop)
  | 0, _, _ => []
  | left + 1, round, state =>
      let outcome := runRound stages round state
      roundCalls stages round state ++
        if outcome.changed then roundsCalls stages left (round + 1) outcome.state else []

/-- The calls in a run of a pipeline that report a change. -/
def calls (pipeline : Pipeline σ) (state : PassState σ) : List (FuncId × Loop) :=
  roundsCalls pipeline.stages (max 1 pipeline.maxRounds) 0 state

end Pipeline

end Calls

/-- The loops of the calls on one function. -/
def loopsOn (handle : FuncId) (calls : List (FuncId × Loop)) : List Loop :=
  (calls.filter fun call => call.1 == handle).map Prod.snd

section LoopsOn

variable {handle other : FuncId} {first second : List (FuncId × Loop)} {loops : List Loop}

theorem loopsOn_append :
    loopsOn handle (first ++ second) = loopsOn handle first ++ loopsOn handle second := by
  simp [loopsOn]

theorem loopsOn_map_self : loopsOn handle (loops.map fun loop => (handle, loop)) = loops := by
  simp [loopsOn, List.filter_map, Function.comp_def]

theorem loopsOn_map_of_ne (different : other ≠ handle) :
    loopsOn handle (loops.map fun loop => (other, loop)) = [] := by
  simp [loopsOn, List.filter_map, Function.comp_def, different]

end LoopsOn

/-! ## Relations that calls establish -/

/-- A relation between a function, the loops changed in it and the function
afterwards composes, on the functions with some property. -/
structure Composes (sound : Function → Prop) (effect : Function → List Loop → Function → Prop) :
    Prop where
  nothing : ∀ {function}, sound function → effect function [] function
  sound_after : ∀ {before loops after}, sound before → effect before loops after → sound after
  trans : ∀ {before first middle second after}, sound before → effect before first middle →
    effect middle second after → effect before (first ++ second) after

/-- Every call of the pass that reports a change establishes a relation, and the
others leave the function alone.  The calls may rely on the analyses of a
function that is already related to theirs. -/
structure LoopPass.Causes {σ : Type} (pass : LoopPass σ) (sound : Function → Prop)
    (effect : Function → List Loop → Function → Prop) : Prop where
  preserves : pass.usage.preserves .dominators = true
  keeps : ∀ {context loop function journal}, sound function →
    (pass.runOnLoop context loop function journal).changed = false →
    (pass.runOnLoop context loop function journal).function = function
  changes : ∀ {before earlier context loop function journal}, sound before →
    effect before earlier function → context.graph = before.graph →
    context.dominators = before.graph.dominators →
    (∃ position,
      (before.graph.loopForest before.graph.dominators).loops.get? position = some loop) →
    (pass.runOnLoop context loop function journal).changed = true →
    effect function [loop] (pass.runOnLoop context loop function journal).function

namespace Module

/-- A property of all functions of a module. -/
def All (holds : Function → Prop) (module : Module) : Prop :=
  ∀ {handle function}, module.functions.get? handle = some function → holds function

/-- Every function is related to what has become of it by the calls on it, and
no function comes or goes. -/
structure Affected (effect : Function → List Loop → Function → Prop) (before : Module)
    (calls : List (FuncId × Loop)) (after : Module) : Prop where
  size_eq : after.functions.size = before.functions.size
  function : ∀ {handle function}, before.functions.get? handle = some function →
    ∃ changed, after.functions.get? handle = some changed ∧
      effect function (loopsOn handle calls) changed

variable {sound : Function → Prop} {effect : Function → List Loop → Function → Prop}
  {before middle after : Module} {first second : List (FuncId × Loop)}

theorem Affected.refl (composes : Composes sound effect) (allSound : before.All sound) :
    before.Affected effect [] before where
  size_eq := rfl
  function := fun {_ function} isFunction =>
    ⟨function, isFunction, composes.nothing (allSound isFunction)⟩

theorem Affected.exists_before (affected : before.Affected effect first after) {handle : FuncId}
    {changed : Function} (isChanged : after.functions.get? handle = some changed) :
    ∃ function, before.functions.get? handle = some function ∧
      effect function (loopsOn handle first) changed := by
  have below : handle < before.functions.size := by
    rw [← affected.size_eq]
    exact Table.get?_isSome_iff.1 (by rw [isChanged]; rfl)
  obtain ⟨function, isFunction⟩ := Option.isSome_iff_exists.1 (Table.get?_isSome_iff.2 below)
  obtain ⟨other, isOther, related⟩ := affected.function isFunction
  cases isChanged.symm.trans isOther
  exact ⟨function, isFunction, related⟩

theorem Affected.all (affected : before.Affected effect first after)
    (composes : Composes sound effect) (allSound : before.All sound) : after.All sound := by
  intro handle changed isChanged
  obtain ⟨function, isFunction, related⟩ := affected.exists_before isChanged
  exact composes.sound_after (allSound isFunction) related

theorem Affected.trans (earlier : before.Affected effect first middle)
    (later : middle.Affected effect second after) (composes : Composes sound effect)
    (allSound : before.All sound) : before.Affected effect (first ++ second) after where
  size_eq := later.size_eq.trans earlier.size_eq
  function := by
    intro handle function isFunction
    obtain ⟨between, isBetween, earlierRelated⟩ := earlier.function isFunction
    obtain ⟨changed, isChanged, laterRelated⟩ := later.function isBetween
    rw [loopsOn_append]
    exact ⟨changed, isChanged,
      composes.trans (allSound isFunction) earlierRelated laterRelated⟩

end Module

/-- A stage of loop passes that establish the relation, or of a module pass that
leaves the module alone. -/
def Stage.Causes {σ : Type} (sound : Function → Prop)
    (effect : Function → List Loop → Function → Prop) : Stage σ → Prop
  | .loops passes => ∀ pass ∈ passes, pass.Causes sound effect
  | .module pass => ∀ state, (pass.run state).state.module = state.module

section Effects

variable {σ : Type} {sound : Function → Prop} {effect : Function → List Loop → Function → Prop}

namespace LoopRun

/-- The invariant of the visits: the function is related to the one of the
beginning, whose control-flow analyses still serve. -/
structure Tracks (effect : Function → List Loop → Function → Prop) (function : Function)
    (run : LoopRun σ) (loops : List Loop) : Prop where
  related : effect function loops run.function
  graph_eq : run.graph = function.graph
  dominators_eq : run.dominators = function.graph.dominators

variable {handle : FuncId} {forest : LoopForest} {loop : Loop} {function : Function}
  {run : LoopRun σ} {loops : List Loop}

/-- A visit by one pass keeps the invariant. -/
theorem Tracks.visit (tracks : Tracks effect function run loops) (composes : Composes sound effect)
    (isSound : sound function) {pass : LoopPass σ} (causes : pass.Causes sound effect)
    (isLoop : ∃ position,
      (function.graph.loopForest function.graph.dominators).loops.get? position = some loop) :
    Tracks effect function (run.visit handle forest loop pass)
      (loops ++ run.reported handle forest loop pass) := by
  have stillSound := composes.sound_after isSound tracks.related
  unfold LoopRun.visit reported
  cases run.missing? handle pass with
  | some kind =>
      dsimp only
      rw [List.append_nil]
      exact ⟨tracks.related, tracks.graph_eq, tracks.dominators_eq⟩
  | none =>
      dsimp only
      split
      · next changed =>
        have caused : effect run.function [loop] (pass.runOnLoop (run.context handle forest) loop
            run.function run.journal).function :=
          causes.changes isSound tracks.related tracks.graph_eq tracks.dominators_eq isLoop changed
        refine ⟨composes.trans isSound tracks.related caused, ?_, ?_⟩
        · simp only [accept, causes.preserves, if_true]
          exact tracks.graph_eq
        · simp only [accept, causes.preserves, if_true]
          exact tracks.dominators_eq
      · next unchanged =>
        have kept := causes.keeps stillSound (Bool.eq_false_iff.2 unchanged)
        rw [List.append_nil]
        refine ⟨?_, tracks.graph_eq, tracks.dominators_eq⟩
        unfold keep
        dsimp only
        rw [kept]
        exact tracks.related

end LoopRun

/-- A run over all loops of a function establishes the relation. -/
theorem Function.runLoopPasses_causes (composes : Composes sound effect)
    {passes : List (LoopPass σ)} (causes : ∀ pass ∈ passes, pass.Causes sound effect)
    {function : Function} (isSound : sound function) (handle : FuncId) (analyses : Analyses σ)
    (journal : Journal σ) :
    effect function (function.changedLoops handle passes analyses journal)
      (function.runLoopPasses handle passes analyses journal).function := by
  have begins : LoopRun.Tracks effect function (.start function analyses journal) [] :=
    ⟨composes.nothing isSound, rfl, rfl⟩
  have ends : LoopRun.Tracks effect function
      (function.runLoopPasses handle passes analyses journal)
      (function.changedLoops handle passes analyses journal) := by
    apply collect_induction (motive := LoopRun.Tracks effect function) begins
    intro run noted loop listed tracks
    obtain ⟨position, -, isLoop⟩ := List.mem_filterMap.1 listed
    apply append_collect_induction (motive := LoopRun.Tracks effect function) tracks
    intro run noted pass member tracks
    exact tracks.visit composes isSound (causes pass member) ⟨position, isLoop⟩
  exact ends.related

namespace PassState

variable {passes : List (LoopPass σ)}

/-- A run over one function affects no other. -/
theorem runOnFunction_affects (composes : Composes sound effect)
    (causes : ∀ pass ∈ passes, pass.Causes sound effect) (outcome : PassOutcome σ)
    (handle : FuncId) (allSound : outcome.state.module.All sound) :
    outcome.state.module.Affected effect (functionCalls passes outcome handle)
      (runOnFunction passes outcome handle).state.module := by
  unfold functionCalls runOnFunction
  cases isFunction : outcome.state.module.functions.get? handle with
  | none => exact .refl composes allSound
  | some function =>
      dsimp only
      split
      · exact .refl composes allSound
      · have present : handle < outcome.state.module.functions.size :=
          Table.get?_isSome_iff.1 (by rw [isFunction]; rfl)
        refine ⟨Table.size_set _ _ _, fun {other otherFunction} isOther => ?_⟩
        rw [Table.get?_set _ _ _ _ present]
        by_cases same : handle = other
        · subst same
          cases isFunction.symm.trans isOther
          rw [if_pos rfl, loopsOn_map_self]
          exact ⟨_, rfl, Function.runLoopPasses_causes composes causes (allSound isFunction) _ _ _⟩
        · rw [if_neg same, loopsOn_map_of_ne same]
          exact ⟨otherFunction, isOther, composes.nothing (allSound isOther)⟩

/-- A run over all functions affects the module by the calls that reported a change. -/
theorem runLoopPasses_affects (composes : Composes sound effect)
    (causes : ∀ pass ∈ passes, pass.Causes sound effect) (state : PassState σ)
    (allSound : state.module.All sound) :
    state.module.Affected effect (state.calls passes)
      (state.runLoopPasses passes).state.module := by
  apply collect_induction (motive := fun (outcome : PassOutcome σ) noted =>
    state.module.Affected effect noted outcome.state.module)
  · exact .refl composes allSound
  · intro outcome noted handle _ affected
    have next := runOnFunction_affects composes causes outcome handle
      (affected.all composes allSound)
    exact affected.trans next composes allSound

end PassState

theorem Stage.run_affects (composes : Composes sound effect) {stage : Stage σ}
    (causes : stage.Causes sound effect) (state : PassState σ)
    (allSound : state.module.All sound) :
    state.module.Affected effect (stage.calls state) (stage.run state).state.module := by
  cases stage with
  | loops passes => exact state.runLoopPasses_affects composes causes allSound
  | module pass =>
      unfold Stage.run
      dsimp only
      rw [causes state]
      exact .refl composes allSound

namespace Pipeline

variable {stages : List (Stage σ)}

theorem step_module (round : Nat) (outcome : PassOutcome σ) (stage : Stage σ) :
    (step round outcome stage).state.module = (stage.run outcome.state).state.module := by
  unfold step
  dsimp only
  split <;> rfl

theorem step_analyses (round : Nat) (outcome : PassOutcome σ) (stage : Stage σ) :
    (step round outcome stage).state.analyses = (stage.run outcome.state).state.analyses := by
  unfold step
  dsimp only
  split <;> rfl

theorem step_changed (round : Nat) (outcome : PassOutcome σ) (stage : Stage σ) :
    (step round outcome stage).changed =
      (outcome.changed || (stage.run outcome.state).changed) := by
  unfold step
  dsimp only
  split
  · next changed => rw [changed, Bool.or_true]
  · next unchanged => rw [Bool.eq_false_iff.2 unchanged, Bool.or_false]

theorem runRound_affects (composes : Composes sound effect)
    (causes : ∀ stage ∈ stages, stage.Causes sound effect) (round : Nat) (state : PassState σ)
    (allSound : state.module.All sound) :
    state.module.Affected effect (roundCalls stages round state)
      (runRound stages round state).state.module := by
  apply collect_induction (motive := fun (outcome : PassOutcome σ) noted =>
    state.module.Affected effect noted outcome.state.module)
  · exact .refl composes allSound
  · intro outcome noted stage member affected
    have next := Stage.run_affects composes (causes stage member) outcome.state
      (affected.all composes allSound)
    rw [step_module]
    exact affected.trans next composes allSound

theorem runRounds_affects (composes : Composes sound effect)
    (causes : ∀ stage ∈ stages, stage.Causes sound effect) (left round : Nat)
    (state : PassState σ) (allSound : state.module.All sound) :
    state.module.Affected effect (roundsCalls stages left round state)
      (runRounds stages left round state).state.module := by
  induction left generalizing round state with
  | zero => exact .refl composes allSound
  | succ left inductionHypothesis =>
      have affected := runRound_affects composes causes round state allSound
      unfold roundsCalls runRounds
      dsimp only
      split
      · have rest := inductionHypothesis (round + 1) (runRound stages round state).state
          (affected.all composes allSound)
        exact affected.trans rest composes allSound
      · rw [List.append_nil]
        exact affected

/-- A run of a pipeline affects the module by the calls that reported a change. -/
theorem run_affects (composes : Composes sound effect) (pipeline : Pipeline σ)
    (causes : ∀ stage ∈ pipeline.stages, stage.Causes sound effect) (state : PassState σ)
    (allSound : state.module.All sound) :
    state.module.Affected effect (pipeline.calls state) (pipeline.run state).state.module :=
  runRounds_affects composes causes _ _ state allSound

end Pipeline

end Effects

end Workgroup

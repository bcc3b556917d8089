import Workgroup.Proofs.Pass.Calls

/-!
Contract: the visits of a run, one for each pass at each loop.

A visit remembers the run as it was before.  The visits of a run are collected
along its folds, skipped passes included, from one loop up to a pipeline.  Each
begins where the one before it ended: within one function everything carries
over, from one function or stage to the next the analyses do.

Owns:
- visits, what a pass is handed at one, answers to it and leaves behind;
- the visits of a run, from one loop up to a pipeline;
- chains of visits.
-/

namespace Workgroup

/-- A loop, a pass that is due there, and the run at that moment. -/
structure Visit (σ : Type) where
  handle : FuncId
  forest : LoopForest
  loop : Loop
  pass : LoopPass σ
  before : LoopRun σ

namespace Visit

variable {σ : Type}

/-- What the pass is handed. -/
def context (visit : Visit σ) : LoopContext σ := visit.before.context visit.handle visit.forest

/-- Whether the pass runs and is not skipped. -/
def invoked (visit : Visit σ) : Bool := (visit.before.missing? visit.handle visit.pass).isNone

/-- What the pass answers if it runs. -/
def outcome (visit : Visit σ) : LoopOutcome σ :=
  visit.pass.runOnLoop visit.context visit.loop visit.before.function visit.before.journal

/-- Whether the pass runs and reports a change. -/
def reports (visit : Visit σ) : Bool := visit.invoked && visit.outcome.changed

/-- The run after the visit. -/
def after (visit : Visit σ) : LoopRun σ :=
  visit.before.visit visit.handle visit.forest visit.loop visit.pass

/-- A visit skips the pass, keeps its answer or accepts it. -/
theorem after_cases (visit : Visit σ) :
    (∃ journal, visit.invoked = false ∧ visit.after = { visit.before with journal := journal }) ∨
      (visit.invoked = true ∧ visit.outcome.changed = false ∧
        visit.after = visit.before.keep visit.outcome) ∨
      (visit.invoked = true ∧ visit.outcome.changed = true ∧
        visit.after = visit.before.accept visit.handle visit.loop visit.pass visit.outcome) := by
  unfold invoked after LoopRun.visit
  cases visit.before.missing? visit.handle visit.pass with
  | some kind => exact .inl ⟨_, rfl, rfl⟩
  | none =>
      refine .inr ?_
      dsimp only
      split
      · next changed => exact .inr ⟨rfl, changed, rfl⟩
      · next unchanged => exact .inl ⟨rfl, Bool.eq_false_iff.2 unchanged, rfl⟩

/-- A reported change gives up what the pass does not preserve; nothing else
touches the analyses. -/
theorem after_analyses (visit : Visit σ) :
    visit.after.analyses =
      if visit.reports then visit.before.analyses.invalidate visit.handle visit.pass.usage
      else visit.before.analyses := by
  unfold reports
  obtain ⟨journal, skipped, after_eq⟩ | ⟨invoked, unchanged, after_eq⟩ |
    ⟨invoked, changed, after_eq⟩ := visit.after_cases
  · rw [skipped, after_eq]
    rfl
  · rw [invoked, unchanged, after_eq]
    rfl
  · rw [invoked, changed, after_eq]
    rfl

end Visit

/-! ## The visits of a run -/

section Visits

variable {σ : Type}

/-- The visits of one loop by all passes. -/
def LoopRun.visits (handle : FuncId) (forest : LoopForest) (passes : List (LoopPass σ))
    (run : LoopRun σ) (loop : Loop) : List (Visit σ) :=
  collect (visit handle forest loop) (fun run pass => [⟨handle, forest, loop, pass, run⟩]) run
    passes

/-- The visits of all loops of a function. -/
def Function.visits (function : Function) (handle : FuncId) (passes : List (LoopPass σ))
    (analyses : Analyses σ) (journal : Journal σ) : List (Visit σ) :=
  let forest := function.graph.loopForest function.graph.dominators
  collect (LoopRun.visitLoop handle forest passes) (LoopRun.visits handle forest passes)
    (.start function analyses journal) (forest.postorder.filterMap forest.loops.get?)

namespace PassState

/-- The visits of one function of a module. -/
def functionVisits (passes : List (LoopPass σ)) (outcome : PassOutcome σ) (handle : FuncId) :
    List (Visit σ) :=
  match outcome.state.module.functions.get? handle with
  | none => []
  | some function =>
      if function.isDeclaration then []
      else function.visits handle passes outcome.state.analyses outcome.state.journal

/-- The visits of all functions of a module. -/
def visits (state : PassState σ) (passes : List (LoopPass σ)) : List (Visit σ) :=
  collect (runOnFunction passes) (functionVisits passes) ⟨false, state⟩
    state.module.functions.handles

/-- A missing function and a declaration are left alone.  The loops of any other
function are visited, and the function that comes out takes its place. -/
theorem runOnFunction_cases (passes : List (LoopPass σ)) (outcome : PassOutcome σ)
    (handle : FuncId) :
    (functionVisits passes outcome handle = [] ∧ runOnFunction passes outcome handle = outcome) ∨
      ∃ function run, outcome.state.module.functions.get? handle = some function ∧
        function.runLoopPasses handle passes outcome.state.analyses outcome.state.journal = run ∧
        functionVisits passes outcome handle =
          function.visits handle passes outcome.state.analyses outcome.state.journal ∧
        runOnFunction passes outcome handle =
          ⟨outcome.changed || run.changed,
            ⟨⟨outcome.state.module.functions.set handle run.function⟩, run.analyses, run.journal⟩⟩ := by
  unfold functionVisits runOnFunction
  cases outcome.state.module.functions.get? handle with
  | none => exact .inl ⟨rfl, rfl⟩
  | some function =>
      dsimp only
      split
      · exact .inl ⟨rfl, rfl⟩
      · exact .inr ⟨function, _, rfl, rfl, rfl, rfl⟩

end PassState

/-- The visits of a stage. -/
def Stage.visits (stage : Stage σ) (state : PassState σ) : List (Visit σ) :=
  match stage with
  | .loops passes => state.visits passes
  | .module _ => []

namespace Pipeline

/-- The visits of one round. -/
def roundVisits (stages : List (Stage σ)) (round : Nat) (state : PassState σ) : List (Visit σ) :=
  collect (step round) (fun outcome stage => stage.visits outcome.state) ⟨false, state⟩ stages

/-- The visits of several rounds. -/
def roundsVisits (stages : List (Stage σ)) : Nat → Nat → PassState σ → List (Visit σ)
  | 0, _, _ => []
  | left + 1, round, state =>
      let outcome := runRound stages round state
      roundVisits stages round state ++
        if outcome.changed then roundsVisits stages left (round + 1) outcome.state else []

/-- The visits of a run of a pipeline. -/
def visits (pipeline : Pipeline σ) (state : PassState σ) : List (Visit σ) :=
  roundsVisits pipeline.stages (max 1 pipeline.maxRounds) 0 state

end Pipeline

end Visits

/-- What holds of the visits of each function holds of the visits of a module. -/
theorem PassState.forall_mem_visits {σ : Type} {state : PassState σ} {passes : List (LoopPass σ)}
    {holds : Visit σ → Prop}
    (ofFunction : ∀ (function : Function) handle analyses journal,
      function.visits handle passes analyses journal ⊆ state.visits passes →
      ∀ visit ∈ function.visits handle passes analyses journal, holds visit) :
    ∀ visit ∈ state.visits passes, holds visit := by
  apply forall_mem_collect
  intro outcome handle _
  unfold functionVisits
  split
  · exact fun _ _ member => absurd member List.not_mem_nil
  · next function _ =>
    split
    · exact fun _ _ member => absurd member List.not_mem_nil
    · exact ofFunction function handle _ _

/-! ## Chains of visits -/

/-- Each visit begins where the one before it ended, as far as a view of the
runs can tell. -/
inductive Chained {σ α : Type} (view : LoopRun σ → α) : α → List (Visit σ) → α → Prop where
  | done (point : α) : Chained view point [] point
  | next (visit : Visit σ) {rest : List (Visit σ)} {stop : α} :
      Chained view (view visit.after) rest stop →
        Chained view (view visit.before) (visit :: rest) stop

namespace Chained

variable {σ α : Type} {view : LoopRun σ → α} {begin middle stop : α}
  {first second rest : List (Visit σ)} {visit : Visit σ}

theorem append (earlier : Chained view begin first middle)
    (later : Chained view middle second stop) : Chained view begin (first ++ second) stop := by
  induction earlier with
  | done => exact later
  | next visit _ inductionHypothesis => exact .next visit (inductionHypothesis later)

/-- A chain can be cut before any of its visits. -/
theorem split (chained : Chained view begin (first ++ visit :: rest) stop) :
    Chained view begin first (view visit.before) := by
  induction first generalizing begin with
  | nil =>
      cases chained
      exact .done _
  | cons head first inductionHypothesis =>
      cases chained with
      | next _ later => exact .next head (inductionHypothesis later)

/-- A chain of whole runs is a chain for every view. -/
theorem ofWhole {start last : LoopRun σ} (chained : Chained id start first last) :
    Chained view (view start) first (view last) := by
  induction chained with
  | done => exact .done _
  | next visit _ inductionHypothesis => exact .next visit inductionHypothesis

/-- What every step of a fold chains is chained by the fold. -/
theorem ofCollect {β γ : Type} (point : β → α) {step : β → γ → β} {note : β → γ → List (Visit σ)}
    {items : List γ}
    (chained : ∀ state, ∀ item ∈ items,
      Chained view (point state) (note state item) (point (step state item))) (start : β) :
    Chained view (point start) (collect step note start items)
      (point (items.foldl step start)) := by
  apply collect_induction
    (motive := fun state noted => Chained view (point start) noted (point state))
  · exact .done _
  · intro state noted item member earlier
    exact earlier.append (chained state item member)

end Chained

section Chains

variable {σ : Type}

theorem LoopRun.visits_chained (handle : FuncId) (forest : LoopForest) (passes : List (LoopPass σ))
    (run : LoopRun σ) (loop : Loop) :
    Chained id run (run.visits handle forest passes loop)
      (run.visitLoop handle forest passes loop) :=
  .ofCollect id (fun run pass _ => .next ⟨handle, forest, loop, pass, run⟩ (.done _)) run

theorem Function.visits_chained (function : Function) (handle : FuncId) (passes : List (LoopPass σ))
    (analyses : Analyses σ) (journal : Journal σ) :
    Chained id (.start function analyses journal) (function.visits handle passes analyses journal)
      (function.runLoopPasses handle passes analyses journal) :=
  .ofCollect id (fun run loop _ => run.visits_chained handle _ passes loop) _

namespace PassState

/-- The functions share the analyses. -/
theorem functionVisits_chained (passes : List (LoopPass σ)) (outcome : PassOutcome σ)
    (handle : FuncId) :
    Chained LoopRun.analyses outcome.state.analyses (functionVisits passes outcome handle)
      (runOnFunction passes outcome handle).state.analyses := by
  obtain ⟨noVisits, unchanged⟩ | ⟨function, run, -, rfl, visits_eq, outcome_eq⟩ :=
    runOnFunction_cases passes outcome handle
  · rw [noVisits, unchanged]
    exact .done _
  · rw [visits_eq, outcome_eq]
    exact (function.visits_chained handle passes _ _).ofWhole

theorem visits_chained (state : PassState σ) (passes : List (LoopPass σ)) :
    Chained LoopRun.analyses state.analyses (state.visits passes)
      (state.runLoopPasses passes).state.analyses :=
  .ofCollect (fun outcome : PassOutcome σ => outcome.state.analyses)
    (fun outcome handle _ => functionVisits_chained passes outcome handle) ⟨false, state⟩

end PassState

namespace Pipeline

/-- The stages of a round share the analyses. -/
theorem roundVisits_chained (groups : List (List (LoopPass σ))) (round : Nat)
    (state : PassState σ) :
    Chained LoopRun.analyses state.analyses (roundVisits (groups.map .loops) round state)
      (runRound (groups.map .loops) round state).state.analyses := by
  refine .ofCollect (fun outcome : PassOutcome σ => outcome.state.analyses) ?_ ⟨false, state⟩
  intro outcome stage member
  obtain ⟨passes, -, rfl⟩ := List.mem_map.1 member
  rw [step_analyses]
  exact outcome.state.visits_chained passes

/-- The rounds share the analyses. -/
theorem roundsVisits_chained (groups : List (List (LoopPass σ))) (left round : Nat)
    (state : PassState σ) :
    Chained LoopRun.analyses state.analyses (roundsVisits (groups.map .loops) left round state)
      (runRounds (groups.map .loops) left round state).state.analyses := by
  induction left generalizing round state with
  | zero => exact .done _
  | succ left inductionHypothesis =>
      have chained := roundVisits_chained groups round state
      unfold roundsVisits runRounds
      dsimp only
      split
      · exact chained.append
          (inductionHypothesis (round + 1) (runRound (groups.map .loops) round state).state)
      · rw [List.append_nil]
        exact chained

/-- The visits of a pipeline of loop passes are chained by the analyses. -/
theorem visits_chained (groups : List (List (LoopPass σ))) (maxRounds : Nat)
    (state : PassState σ) :
    Chained LoopRun.analyses state.analyses
      ((⟨groups.map .loops, maxRounds⟩ : Pipeline σ).visits state)
      ((⟨groups.map .loops, maxRounds⟩ : Pipeline σ).run state).state.analyses :=
  roundsVisits_chained groups _ 0 state

end Pipeline

end Chains

end Workgroup

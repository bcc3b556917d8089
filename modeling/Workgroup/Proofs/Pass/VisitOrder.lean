import Workgroup.Proofs.Flow.LoopPostorder
import Workgroup.Proofs.Pass.Visits

/-!
Contract: which pass is at which loop when, and what it decides there.

The turns of a run are fixed before the first pass starts: functions in the order
of their handles, the loops that each of them has at the beginning, innermost
first, and all passes at each loop.  Passes change functions while the turns are
taken, but only the function that they are given, so every function is still the
original one when its first turn comes.

Owns:
- the turns of a module, read off before the run;
- what a visit decides, and what a chain of visits reports;
- the visits of a function among those of a module;
- the run as the turns taken in order.
-/

namespace Workgroup

/-- The views of what was noted, if they depend on the items alone. -/
theorem map_collect {α β γ δ : Type} {step : β → α → β} {note : β → α → List γ} {view : γ → δ}
    {due : α → List δ} (same : ∀ state item, (note state item).map view = due item)
    (items : List α) (start : β) :
    (collect step note start items).map view = items.flatMap due := by
  induction items generalizing start with
  | nil => rfl
  | cons item items inductionHypothesis =>
      rw [collect, List.map_append, same, inductionHypothesis, List.flatMap_cons]

section Turns

variable {σ : Type}

/-! ## Turns -/

/-- A pass and a loop at which it is due. -/
structure Turn (σ : Type) where
  handle : FuncId
  forest : LoopForest
  loop : Loop
  pass : LoopPass σ

def Visit.turn (visit : Visit σ) : Turn σ := ⟨visit.handle, visit.forest, visit.loop, visit.pass⟩

/-- The passes that are due at the loops of a function. -/
def Function.turns (function : Function) (handle : FuncId) (passes : List (LoopPass σ)) :
    List (Turn σ) :=
  let forest := function.graph.loopForest function.graph.dominators
  (forest.postorder.filterMap forest.loops.get?).flatMap fun loop =>
    passes.map fun pass => ⟨handle, forest, loop, pass⟩

namespace Module

/-- The passes that are due at the loops of one function of a module. -/
def turnsOf (module : Module) (passes : List (LoopPass σ)) (handle : FuncId) : List (Turn σ) :=
  match module.functions.get? handle with
  | none => []
  | some function => if function.isDeclaration then [] else function.turns handle passes

/-- The passes that are due at the loops of a module. -/
def turns (module : Module) (passes : List (LoopPass σ)) : List (Turn σ) :=
  module.functions.handles.flatMap (module.turnsOf passes)

end Module

theorem LoopRun.map_turn_visits (handle : FuncId) (forest : LoopForest)
    (passes : List (LoopPass σ)) (run : LoopRun σ) (loop : Loop) :
    (run.visits handle forest passes loop).map Visit.turn =
      passes.map fun pass => ⟨handle, forest, loop, pass⟩ := by
  let turnAt (pass : LoopPass σ) : Turn σ := ⟨handle, forest, loop, pass⟩
  have oneEach : (run.visits handle forest passes loop).map Visit.turn =
      passes.flatMap fun pass => [turnAt pass] := by
    refine map_collect ?_ passes run
    exact fun _ _ => rfl
  exact oneEach.trans List.map_eq_flatMap.symm

theorem Function.map_turn_visits (function : Function) (handle : FuncId)
    (passes : List (LoopPass σ)) (analyses : Analyses σ) (journal : Journal σ) :
    (function.visits handle passes analyses journal).map Visit.turn =
      function.turns handle passes :=
  map_collect (fun run loop => run.map_turn_visits handle _ passes loop) _ _

/-! ## Decisions -/

namespace Visit

/-- The pass runs once if all analyses that it requires are available at that
moment, and otherwise is skipped with a warning. -/
structure Decides (visit : Visit σ) : Prop where
  invoked_iff : visit.invoked = true ↔ ∀ kind ∈ visit.pass.usage.required,
    visit.before.analyses.isAvailable visit.handle kind = true
  runs : visit.invoked = true → visit.after =
    if visit.outcome.changed then
      visit.before.accept visit.handle visit.loop visit.pass visit.outcome
    else visit.before.keep visit.outcome
  skips : visit.invoked = false → ∃ kind ∈ visit.pass.usage.required,
    visit.before.analyses.isAvailable visit.handle kind = false ∧
      visit.after = { visit.before with
        journal := visit.before.journal.write
          (.skipped visit.pass.name visit.before.function.name kind) }

theorem decides (visit : Visit σ) : visit.Decides := by
  constructor
  case invoked_iff =>
    unfold Visit.invoked LoopRun.missing?
    simp
  case runs =>
    intro invoked
    have nothingMissing : visit.before.missing? visit.handle visit.pass = none :=
      Option.isNone_iff_eq_none.1 invoked
    show visit.before.visit visit.handle visit.forest visit.loop visit.pass = _
    unfold LoopRun.visit
    rw [nothingMissing]
    rfl
  case skips =>
    intro skipped
    obtain ⟨kind, isMissing⟩ :
        ∃ kind, visit.before.missing? visit.handle visit.pass = some kind := by
      unfold Visit.invoked at skipped
      rwa [Option.isNone_eq_false_iff, Option.isSome_iff_exists] at skipped
    refine ⟨kind, List.mem_of_find?_eq_some isMissing, ?_, ?_⟩
    · simpa using List.find?_some isMissing
    · show visit.before.visit visit.handle visit.forest visit.loop visit.pass = _
      unfold LoopRun.visit
      rw [isMissing]

theorem after_changed (visit : Visit σ) :
    visit.after.changed = (visit.before.changed || visit.reports) := by
  unfold reports
  obtain ⟨journal, skipped, after_eq⟩ | ⟨invoked, unchanged, after_eq⟩ |
    ⟨invoked, changed, after_eq⟩ := visit.after_cases
  · simp [skipped, after_eq]
  · simp [invoked, unchanged, after_eq, LoopRun.keep]
  · simp [invoked, changed, after_eq, LoopRun.accept]

end Visit

/-- A chain of visits remembers whether one of them has reported a change. -/
theorem Chained.changed_eq {start stop : LoopRun σ} {visits : List (Visit σ)}
    (chained : Chained id start visits stop) :
    stop.changed = (start.changed || visits.any Visit.reports) := by
  induction chained with
  | done => simp
  | next visit _ inductionHypothesis =>
      rw [inductionHypothesis, List.any_cons, ← Bool.or_assoc]
      exact congrArg (· || _) visit.after_changed

/-- What the functions of a module share: the analyses, and the notes that
oracles and passes keep. -/
def LoopRun.shared (run : LoopRun σ) : Analyses σ × σ := (run.analyses, run.journal.notes)

/-! ## One function among the others -/

namespace PassState

variable {passes : List (LoopPass σ)} {outcome : PassOutcome σ} {handle other : FuncId}
  {handles : List FuncId}

theorem handle_of_mem_functionVisits :
    ∀ visit ∈ functionVisits passes outcome handle, visit.handle = handle := by
  obtain ⟨noVisits, -⟩ | ⟨function, run, -, -, visits_eq, -⟩ :=
    runOnFunction_cases passes outcome handle
  · simp [noVisits]
  · rw [visits_eq]
    apply forall_mem_collect
    intro run loop _ _
    apply forall_mem_collect
    intro run pass _ _ visit member
    rw [List.mem_singleton.1 member]

theorem map_turn_functionVisits (passes : List (LoopPass σ)) (outcome : PassOutcome σ)
    (handle : FuncId) : (functionVisits passes outcome handle).map Visit.turn =
      outcome.state.module.turnsOf passes handle := by
  unfold functionVisits Module.turnsOf
  cases outcome.state.module.functions.get? handle with
  | none => rfl
  | some function =>
      dsimp only
      split
      · rfl
      · exact function.map_turn_visits handle passes _ _

/-- Passes that run on one function leave the others alone. -/
theorem get?_runOnFunction (different : handle ≠ other) :
    (runOnFunction passes outcome handle).state.module.functions.get? other =
      outcome.state.module.functions.get? other := by
  obtain ⟨-, unchanged⟩ | ⟨function, run, isFunction, -, -, outcome_eq⟩ :=
    runOnFunction_cases passes outcome handle
  · rw [unchanged]
  · have present : handle < outcome.state.module.functions.size :=
      Table.get?_isSome_iff.1 (by simp [isFunction])
    rw [outcome_eq, Table.get?_set _ _ _ _ present, if_neg different]

theorem get?_foldl_runOnFunction (absent : other ∉ handles) :
    (handles.foldl (runOnFunction passes) outcome).state.module.functions.get? other =
      outcome.state.module.functions.get? other := by
  induction handles generalizing outcome with
  | nil => rfl
  | cons handle handles inductionHypothesis =>
      obtain ⟨different, absentRest⟩ := List.ne_and_not_mem_of_not_mem_cons absent
      rw [List.foldl_cons, inductionHypothesis absentRest, get?_runOnFunction different.symm]

/-- Each function is the original one when its turns come. -/
theorem map_turn_collect (module : Module) (nodup : handles.Nodup)
    (same : ∀ handle ∈ handles,
      outcome.state.module.functions.get? handle = module.functions.get? handle) :
    (collect (runOnFunction passes) (functionVisits passes) outcome handles).map Visit.turn =
      handles.flatMap (module.turnsOf passes) := by
  induction handles generalizing outcome with
  | nil => rfl
  | cons handle handles inductionHypothesis =>
      obtain ⟨fresh, nodupRest⟩ := List.nodup_cons.1 nodup
      obtain ⟨sameFirst, sameRest⟩ := List.forall_mem_cons.1 same
      have sameTurns : outcome.state.module.turnsOf passes handle =
          module.turnsOf passes handle := by
        unfold Module.turnsOf
        rw [sameFirst]
      rw [collect, List.map_append, map_turn_functionVisits, sameTurns, List.flatMap_cons,
        inductionHypothesis nodupRest]
      intro other member
      have different : handle ≠ other := fun isSame => fresh (isSame ▸ member)
      rw [get?_runOnFunction different]
      exact sameRest other member

theorem filter_collect_of_not_mem (absent : other ∉ handles) :
    (collect (runOnFunction passes) (functionVisits passes) outcome handles).filter
      (fun visit => visit.handle == other) = [] := by
  rw [List.filter_eq_nil_iff]
  apply forall_mem_collect
  intro state handle member _ visit listed
  rw [handle_of_mem_functionVisits visit listed]
  have different : handle ≠ other := fun isSame => absent (isSame ▸ member)
  simp [different]

/-- The visits of one function lead from what is stored to what is stored then. -/
theorem exists_chained_functionVisits {function : Function} (passes : List (LoopPass σ))
    (outcome : PassOutcome σ)
    (isFunction : outcome.state.module.functions.get? handle = some function) :
    ∃ analyses journal last,
      Chained id (.start function analyses journal) (functionVisits passes outcome handle) last ∧
      (runOnFunction passes outcome handle).state.module.functions.get? handle =
        some last.function := by
  refine ⟨outcome.state.analyses, outcome.state.journal, ?_⟩
  obtain ⟨noVisits, unchanged⟩ | ⟨original, run, isOriginal, rfl, visits_eq, outcome_eq⟩ :=
    runOnFunction_cases passes outcome handle
  · rw [noVisits, unchanged]
    exact ⟨_, .done _, isFunction⟩
  · cases isFunction.symm.trans isOriginal
    have present : handle < outcome.state.module.functions.size :=
      Table.get?_isSome_iff.1 (by simp [isFunction])
    rw [visits_eq, outcome_eq]
    refine ⟨_, function.visits_chained handle passes _ _, ?_⟩
    rw [Table.get?_set _ _ _ _ present, if_pos rfl]

/-- The turns of the other functions come in between and change nothing. -/
theorem exists_chained_collect {function : Function} (outcome : PassOutcome σ)
    (nodup : handles.Nodup)
    (isFunction : outcome.state.module.functions.get? handle = some function) :
    ∃ analyses journal last,
      Chained id (.start function analyses journal)
        ((collect (runOnFunction passes) (functionVisits passes) outcome handles).filter
          fun visit => visit.handle == handle) last ∧
      (handles.foldl (runOnFunction passes) outcome).state.module.functions.get? handle =
        some last.function := by
  induction handles generalizing outcome with
  | nil => exact ⟨outcome.state.analyses, outcome.state.journal, _, .done _, isFunction⟩
  | cons first rest inductionHypothesis =>
      obtain ⟨fresh, nodupRest⟩ := List.nodup_cons.1 nodup
      rw [collect, List.filter_append, List.foldl_cons]
      by_cases same : first = handle
      · subst same
        have all : (functionVisits passes outcome first).filter
            (fun visit => visit.handle == first) = functionVisits passes outcome first :=
          List.filter_eq_self.2 fun visit listed =>
            beq_iff_eq.2 (handle_of_mem_functionVisits visit listed)
        rw [all, filter_collect_of_not_mem fresh, List.append_nil, get?_foldl_runOnFunction fresh]
        exact exists_chained_functionVisits passes outcome isFunction
      · have none : (functionVisits passes outcome first).filter
            (fun visit => visit.handle == handle) = [] := by
          rw [List.filter_eq_nil_iff]
          intro visit listed
          simp [handle_of_mem_functionVisits visit listed, same]
        rw [none, List.nil_append]
        apply inductionHypothesis _ nodupRest
        rw [get?_runOnFunction same]
        exact isFunction

theorem shared_chained (state : PassState σ) (passes : List (LoopPass σ)) :
    Chained LoopRun.shared (state.analyses, state.journal.notes) (state.visits passes)
      ((state.runLoopPasses passes).state.analyses,
        (state.runLoopPasses passes).state.journal.notes) := by
  refine .ofCollect
    (fun outcome : PassOutcome σ => (outcome.state.analyses, outcome.state.journal.notes)) ?_
    ⟨false, state⟩
  intro outcome handle _
  obtain ⟨noVisits, unchanged⟩ | ⟨function, run, -, rfl, visits_eq, outcome_eq⟩ :=
    runOnFunction_cases passes outcome handle
  · rw [noVisits, unchanged]
    exact .done _
  · rw [visits_eq, outcome_eq]
    exact (function.visits_chained handle passes _ _).ofWhole

theorem runOnFunction_changed (passes : List (LoopPass σ)) (outcome : PassOutcome σ)
    (handle : FuncId) : (runOnFunction passes outcome handle).changed =
      (outcome.changed || (functionVisits passes outcome handle).any Visit.reports) := by
  obtain ⟨noVisits, unchanged⟩ | ⟨function, run, -, rfl, visits_eq, outcome_eq⟩ :=
    runOnFunction_cases passes outcome handle
  · simp [noVisits, unchanged]
  · rw [visits_eq, outcome_eq, (function.visits_chained handle passes _ _).changed_eq]
    rfl

/-! ## The run -/

/-- A run of loop passes takes the turns of the module in order.  At each it
decides by the analyses of that moment; the visits of a function begin with the
original function and end with what is stored, and all visits hand on analyses
and notes. -/
structure TakesTurns (state : PassState σ) (passes : List (LoopPass σ)) : Prop where
  turns_eq : (state.visits passes).map Visit.turn = state.module.turns passes
  innermostFirst : ∀ {handle function}, state.module.functions.get? handle = some function →
    (function.graph.loopForest function.graph.dominators).InnermostFirst
      (function.graph.loopForest function.graph.dominators).postorder
  decides : ∀ visit ∈ state.visits passes, visit.Decides
  linked : ∀ {handle function}, state.module.functions.get? handle = some function →
    ∃ analyses journal last,
      Chained id (.start function analyses journal)
        ((state.visits passes).filter fun visit => visit.handle == handle) last ∧
      (state.runLoopPasses passes).state.module.functions.get? handle = some last.function
  shared : Chained LoopRun.shared (state.analyses, state.journal.notes) (state.visits passes)
    ((state.runLoopPasses passes).state.analyses,
      (state.runLoopPasses passes).state.journal.notes)
  changed_iff : (state.runLoopPasses passes).changed = true ↔
    ∃ visit ∈ state.visits passes, visit.reports = true

/-- Every run takes its turns, whatever the passes do to the functions. -/
theorem takesTurns (state : PassState σ) (passes : List (LoopPass σ)) :
    state.TakesTurns passes where
  turns_eq := map_turn_collect state.module List.nodup_range fun _ _ => rfl
  innermostFirst := fun {_ function} _ => function.innermostFirst_postorder
  decides := fun visit _ => visit.decides
  linked := exists_chained_collect ⟨false, state⟩ List.nodup_range
  shared := state.shared_chained passes
  changed_iff := by
    rw [← List.any_eq_true]
    apply Bool.eq_iff_iff.1
    apply collect_induction (motive := fun (outcome : PassOutcome σ) noted =>
      outcome.changed = noted.any Visit.reports)
    · rfl
    · intro outcome noted handle _ sofar
      rw [runOnFunction_changed, sofar, List.any_append]

end PassState

end Turns

end Workgroup

import Workgroup.Pass.Registry
import Workgroup.Proofs.Barrier.FunctionRun
import Workgroup.Proofs.Text.Placement

/-!
Contract: the barrier pipeline on a whole module.

Functions are visited one after the other and do not share anything but the
analyses, which keep serving the facts.  After the first round no loop
qualifies any more, so later rounds change nothing.

Owns:
- modules before and after all their qualifying loops got barriers;
- the run of the plain pass over a module, and what a later round finds;
- the pipeline that is assembled from the name of the pass.
-/

namespace Workgroup

namespace Module

/-- All qualifying loops of all functions are synchronized, and nothing else is
changed. -/
structure Synchronizes (before after : Module) (filter : KernelFilter) (table : FactTable) :
    Prop where
  size_eq : after.functions.size = before.functions.size
  function : ∀ {handle function}, before.functions.get? handle = some function →
    ∃ changed, after.functions.get? handle = some changed ∧
      function.Synchronizes changed (function.qualifyingLoops filter (table.factsOf handle))

/-- Some loop of some function qualifies. -/
def Qualifies (module : Module) (filter : KernelFilter) (table : FactTable) : Prop :=
  ∃ handle function, module.functions.get? handle = some function ∧
    function.qualifyingLoops filter (table.factsOf handle) ≠ []

/-- In every function of the module each handle is placed at most once. -/
def WellPlaced (module : Module) : Prop :=
  ∀ {handle function}, module.functions.get? handle = some function → function.WellPlaced

variable {before after : Module} {filter : KernelFilter} {table : FactTable}

theorem Synchronizes.of_get? (synchronizes : before.Synchronizes after filter table)
    {handle : FuncId} {changed : Function}
    (isFunction : after.functions.get? handle = some changed) :
    ∃ function, before.functions.get? handle = some function ∧
      function.Synchronizes changed (function.qualifyingLoops filter (table.factsOf handle)) := by
  have below : handle < before.functions.size := by
    rw [← synchronizes.size_eq]
    exact Table.get?_isSome_iff.1 (isFunction ▸ rfl)
  obtain ⟨function, isBefore⟩ := Option.isSome_iff_exists.1 (Table.get?_isSome_iff.2 below)
  obtain ⟨other, isAfter, functionSynchronizes⟩ := synchronizes.function isBefore
  cases isFunction.symm.trans isAfter
  exact ⟨function, isBefore, functionSynchronizes⟩

theorem Synchronizes.wellPlaced (synchronizes : before.Synchronizes after filter table)
    (wellPlaced : before.WellPlaced) : after.WellPlaced := by
  intro handle changed isFunction
  obtain ⟨function, isBefore, functionSynchronizes⟩ := synchronizes.of_get? isFunction
  exact functionSynchronizes.wellPlaced (wellPlaced isBefore)

/-- Nothing qualifies once all qualifying loops are synchronized. -/
theorem Synchronizes.not_qualifies (synchronizes : before.Synchronizes after filter table)
    (wellPlaced : before.WellPlaced) : ¬ after.Qualifies filter table := by
  rintro ⟨handle, changed, isFunction, some⟩
  obtain ⟨function, isBefore, functionSynchronizes⟩ := synchronizes.of_get? isFunction
  exact some (functionSynchronizes.qualifyingLoops_eq_nil (wellPlaced isBefore))

/-- A module in which nothing qualifies is synchronized with itself alone. -/
theorem Synchronizes.eq_of_not_qualifies (synchronizes : before.Synchronizes after filter table)
    (nothing : ¬ before.Qualifies filter table) : after = before := by
  have sameFunctions : after.functions = before.functions := by
    refine Table.ext (List.ext_getElem? fun handle => ?_)
    show after.functions.get? handle = before.functions.get? handle
    cases isBefore : before.functions.get? handle with
    | none =>
        rw [Table.get?_eq_none_iff] at isBefore ⊢
        rw [synchronizes.size_eq]
        exact isBefore
    | some function =>
        obtain ⟨changed, isAfter, functionSynchronizes⟩ := synchronizes.function isBefore
        have none : function.qualifyingLoops filter (table.factsOf handle) = [] := by
          by_contra some
          exact nothing ⟨handle, function, isBefore, some⟩
        rw [none] at functionSynchronizes
        rw [isAfter, functionSynchronizes.eq_of_nil]
  cases after
  cases before
  exact congrArg Module.mk sameFunctions

end Module

namespace PassState

variable {σ : Type} {filter : KernelFilter} {table : FactTable} {before : Module}
  {visited : List FuncId} {next : FuncId} {outcome : PassOutcome σ} {state : PassState σ}

/-- The invariant of the run over functions: those visited are synchronized and
the others are as they were. -/
structure Progress (filter : KernelFilter) (table : FactTable) (before : Module)
    (visited : List FuncId) (outcome : PassOutcome σ) : Prop where
  size_eq : outcome.state.module.functions.size = before.functions.size
  done : ∀ {handle function}, handle ∈ visited → before.functions.get? handle = some function →
    ∃ changed, outcome.state.module.functions.get? handle = some changed ∧
      function.Synchronizes changed (function.qualifyingLoops filter (table.factsOf handle))
  kept : ∀ {handle}, handle ∉ visited →
    outcome.state.module.functions.get? handle = before.functions.get? handle
  serves : outcome.state.analyses.Serves (.ofFacts table)
  changed_iff : outcome.changed = true ↔ ∃ handle ∈ visited, ∃ function,
    before.functions.get? handle = some function ∧
      function.qualifyingLoops filter (table.factsOf handle) ≠ []

/-- What one more visited function has to satisfy. -/
theorem Progress.extend (progress : Progress filter table before visited outcome)
    {later : PassOutcome σ} {function changed : Function}
    (isFunction : before.functions.get? next = some function)
    (size_eq : later.state.module.functions.size = outcome.state.module.functions.size)
    (isChanged : later.state.module.functions.get? next = some changed)
    (others : ∀ handle, handle ≠ next →
      later.state.module.functions.get? handle = outcome.state.module.functions.get? handle)
    (synchronizes :
      function.Synchronizes changed (function.qualifyingLoops filter (table.factsOf next)))
    (serves : later.state.analyses.Serves (.ofFacts table))
    (changed_iff : later.changed = true ↔
      outcome.changed = true ∨ function.qualifyingLoops filter (table.factsOf next) ≠ []) :
    Progress filter table before (visited ++ [next]) later where
  size_eq := size_eq.trans progress.size_eq
  done := by
    intro handle other member isOther
    by_cases same : handle = next
    · subst same
      cases isFunction.symm.trans isOther
      exact ⟨changed, isChanged, synchronizes⟩
    · have old := (List.mem_append.1 member).resolve_right fun new =>
        same (List.mem_singleton.1 new)
      rw [others handle same]
      exact progress.done old isOther
  kept := by
    intro handle outside
    rw [List.mem_append, List.mem_singleton] at outside
    obtain ⟨notOld, notNew⟩ := not_or.1 outside
    rw [others handle notNew]
    exact progress.kept notOld
  serves := serves
  changed_iff := by
    rw [changed_iff, progress.changed_iff]
    constructor
    · rintro (⟨handle, old, other, isOther, some⟩ | some)
      · exact ⟨handle, List.mem_append_left _ old, other, isOther, some⟩
      · exact ⟨next, List.mem_append_right _ (List.mem_singleton_self next), function, isFunction,
          some⟩
    · rintro ⟨handle, member, other, isOther, some⟩
      rcases List.mem_append.1 member with old | new
      · exact .inl ⟨handle, old, other, isOther, some⟩
      · obtain rfl := List.mem_singleton.1 new
        cases isFunction.symm.trans isOther
        exact .inr some

/-- The run over one more function keeps the invariant. -/
theorem Progress.runOnFunction (progress : Progress filter table before visited outcome)
    (sink : Option (DecisionSink σ)) (wellPlaced : before.WellPlaced) (fresh : next ∉ visited)
    (present : next < before.functions.size) :
    Progress filter table before (visited ++ [next])
      (PassState.runOnFunction [(BarrierPass.plain filter sink).toLoopPass] outcome next) := by
  obtain ⟨function, isFunction⟩ := Option.isSome_iff_exists.1 (Table.get?_isSome_iff.2 present)
  have found : outcome.state.module.functions.get? next = some function :=
    (progress.kept fresh).trans isFunction
  unfold PassState.runOnFunction
  simp only [found]
  by_cases declaration : function.isDeclaration = true
  · rw [if_pos declaration]
    have none := function.qualifyingLoops_of_isDeclaration filter (table.factsOf next) declaration
    refine progress.extend isFunction rfl found (fun _ _ => rfl) ?_ progress.serves ?_
    · rw [none]
      exact .refl function
    · rw [none]
      simp
  · rw [if_neg declaration]
    obtain ⟨synchronizes, serves, changed_iff⟩ := Function.runLoopPasses_plain
      (wellPlaced isFunction) progress.serves filter sink next outcome.state.journal
    have presentStill : next < outcome.state.module.functions.size := by
      rw [progress.size_eq]
      exact present
    refine progress.extend isFunction (Table.size_set _ _ _)
      ((Table.get?_set _ _ _ _ presentStill).trans (if_pos rfl))
      (fun handle different => ?_) synchronizes serves ?_
    · exact (Table.get?_set _ _ _ _ presentStill).trans (if_neg (Ne.symm different))
    · rw [Bool.or_eq_true, changed_iff]

/-- The plain pass synchronizes all functions of a module. -/
theorem runLoopPasses_plain (state : PassState σ) (filter : KernelFilter)
    (sink : Option (DecisionSink σ)) (wellPlaced : state.module.WellPlaced)
    (serves : state.analyses.Serves (.ofFacts table)) :
    state.module.Synchronizes
        (state.runLoopPasses [(BarrierPass.plain filter sink).toLoopPass]).state.module filter
        table ∧
      (state.runLoopPasses
        [(BarrierPass.plain filter sink).toLoopPass]).state.analyses.Serves (.ofFacts table) ∧
      ((state.runLoopPasses [(BarrierPass.plain filter sink).toLoopPass]).changed = true ↔
        state.module.Qualifies filter table) := by
  have start : Progress filter table state.module [] (⟨false, state⟩ : PassOutcome σ) :=
    ⟨rfl, fun member => absurd member List.not_mem_nil, fun _ => rfl, serves,
      ⟨fun changed => absurd changed nofun, fun ⟨_, member, _⟩ => absurd member List.not_mem_nil⟩⟩
  have progress : ∀ handles : List FuncId, handles.Nodup →
      (∀ next ∈ handles, next < state.module.functions.size) →
      Progress filter table state.module handles
        (handles.foldl (PassState.runOnFunction [(BarrierPass.plain filter sink).toLoopPass])
          ⟨false, state⟩) := by
    intro handles nodup present
    induction handles using List.reverseRecOn with
    | nil => exact start
    | append_singleton handles next inductionHypothesis =>
        obtain ⟨nodupBefore, -, disjoint⟩ := List.nodup_append.1 nodup
        have before := inductionHypothesis nodupBefore fun other member =>
          present other (List.mem_append_left _ member)
        rw [List.foldl_append, List.foldl_cons, List.foldl_nil]
        refine before.runOnFunction sink wellPlaced (fun member => ?_)
          (present next (List.mem_append_right _ (List.mem_singleton_self next)))
        exact disjoint next member next (List.mem_singleton_self next) rfl
  have whole := progress state.module.functions.handles List.nodup_range
    fun next member => List.mem_range.1 member
  have listed {handle : FuncId} {function : Function}
      (isFunction : state.module.functions.get? handle = some function) :
      handle ∈ state.module.functions.handles :=
    List.mem_range.2 (Table.get?_isSome_iff.1 (isFunction ▸ rfl))
  refine ⟨⟨whole.size_eq, fun isFunction => whole.done (listed isFunction) isFunction⟩,
    whole.serves, whole.changed_iff.trans ?_⟩
  constructor
  · rintro ⟨handle, -, function, isFunction, some⟩
    exact ⟨handle, function, isFunction, some⟩
  · rintro ⟨handle, function, isFunction, some⟩
    exact ⟨handle, listed isFunction, function, isFunction, some⟩

end PassState

namespace Pipeline

variable {σ : Type} {filter : KernelFilter} {table : FactTable} {sink : Option (DecisionSink σ)}

/-- A round of one stage does what the stage does, apart from the log. -/
theorem runRound_single (stage : Stage σ) (round : Nat) (state : PassState σ) :
    (runRound [stage] round state).changed = (stage.run state).changed ∧
      (runRound [stage] round state).state.module = (stage.run state).state.module ∧
      (runRound [stage] round state).state.analyses = (stage.run state).state.analyses := by
  unfold runRound
  rw [List.foldl_cons, List.foldl_nil]
  unfold step
  dsimp only
  split
  · next changed => exact ⟨changed.symm, rfl, rfl⟩
  · next unchanged => exact ⟨(Bool.eq_false_iff.2 unchanged).symm, rfl, rfl⟩

/-- Rounds on a module in which nothing qualifies leave it as it is. -/
theorem runRounds_of_not_qualifies (sink : Option (DecisionSink σ)) (left round : Nat)
    (state : PassState σ) (wellPlaced : state.module.WellPlaced)
    (serves : state.analyses.Serves (.ofFacts table))
    (nothing : ¬ state.module.Qualifies filter table) :
    (runRounds [.loops [(BarrierPass.plain filter sink).toLoopPass]] left round
      state).state.module = state.module := by
  cases left with
  | zero => rfl
  | succ left =>
      obtain ⟨synchronizes, -, changed_iff⟩ :=
        state.runLoopPasses_plain filter sink wellPlaced serves
      obtain ⟨changed_eq, module_eq, -⟩ :=
        runRound_single (.loops [(BarrierPass.plain filter sink).toLoopPass]) round state
      unfold runRounds
      have unchanged : (runRound [.loops [(BarrierPass.plain filter sink).toLoopPass]] round
          state).changed = false := by
        rw [changed_eq, Bool.eq_false_iff]
        exact fun changed => nothing (changed_iff.1 changed)
      dsimp only
      rw [if_neg (Bool.eq_false_iff.1 unchanged)]
      exact module_eq.trans (synchronizes.eq_of_not_qualifies nothing)

/-- The pipeline of the plain pass synchronizes a module and reports a change if
some loop qualifies, whatever the limit on rounds is. -/
theorem run_plain (state : PassState σ) (maxRounds : Nat) (wellPlaced : state.module.WellPlaced)
    (serves : state.analyses.Serves (.ofFacts table)) :
    state.module.Synchronizes
        ((⟨[.loops [(BarrierPass.plain filter sink).toLoopPass]], maxRounds⟩ :
          Pipeline σ).run state).state.module filter table ∧
      (((⟨[.loops [(BarrierPass.plain filter sink).toLoopPass]], maxRounds⟩ :
          Pipeline σ).run state).changed = true ↔ state.module.Qualifies filter table) := by
  obtain ⟨synchronizes, servesAfter, changed_iff⟩ :=
    state.runLoopPasses_plain filter sink wellPlaced serves
  obtain ⟨changed_eq, module_eq, analyses_eq⟩ :=
    runRound_single (.loops [(BarrierPass.plain filter sink).toLoopPass]) 0 state
  obtain ⟨left, atLeastOne⟩ : ∃ left, max 1 maxRounds = left + 1 :=
    ⟨max 1 maxRounds - 1, by omega⟩
  unfold run
  dsimp only
  rw [atLeastOne]
  unfold runRounds
  dsimp only
  split
  · next changed =>
    have later := runRounds_of_not_qualifies sink left 1
      (runRound [.loops [(BarrierPass.plain filter sink).toLoopPass]] 0 state).state
      (by
        rw [module_eq]
        exact synchronizes.wellPlaced wellPlaced)
      (by
        rw [analyses_eq]
        exact servesAfter)
      (by
        rw [module_eq]
        exact synchronizes.not_qualifies wellPlaced)
    rw [later, module_eq]
    refine ⟨synchronizes, fun _ => ?_, fun _ => rfl⟩
    exact changed_iff.1 (changed_eq.symm.trans changed)
  · rw [module_eq, changed_eq]
    exact ⟨synchronizes, changed_iff⟩

end Pipeline

namespace BarrierPass

theorem build_name {σ : Type} (options : PassOptions) (journal : Journal σ) :
    ∃ written, Registry.builtin.build [name] options journal =
      .ok (⟨[.loops [(ofOptions options).toLoopPass]], options.maxRounds⟩, written) :=
  ⟨_, rfl⟩

/-- The barrier pipeline on a program that has been read: what becomes of the
module depends on the qualifying loops of the original module alone. -/
theorem pipeline_synchronizes {σ : Type} {source : String} {program : Program}
    (parsed : Program.parse source = .ok program) (options : PassOptions) (journal : Journal σ) :
    ∃ pipeline written, Registry.builtin.build [name] options journal = .ok (pipeline, written) ∧
      program.module.Synchronizes
        (pipeline.run
          ⟨program.module, .supplied (.ofFacts program.facts), written⟩).state.module
        ⟨options.kernelName⟩ program.facts ∧
      ((pipeline.run ⟨program.module, .supplied (.ofFacts program.facts), written⟩).changed = true ↔
        program.module.Qualifies ⟨options.kernelName⟩ program.facts) := by
  obtain ⟨written, built⟩ := build_name options journal
  have wellPlaced : program.module.WellPlaced := fun isFunction =>
    Program.wellPlaced_of_parse parsed _ (List.mem_of_getElem? isFunction)
  refine ⟨_, written, built, ?_⟩
  exact Pipeline.run_plain ⟨program.module, .supplied (.ofFacts program.facts), written⟩
    options.maxRounds wellPlaced (.supplied program.facts)

end BarrierPass

namespace UniformSpin

/-- A kernel that spins in a uniform loop. -/
def source : String :=
  "kernel @k(%n: bool) \x7b\n  uniform head, %n\nentry:\n  br head\nhead:\n" ++
    "  condbr %n, head, exit\nexit:\n  ret\n\x7d\n"

def kernel : Function where
  name := "k"
  kind := .kernel
  arguments := [⟨"n", .bool⟩]
  blocks := ⟨[⟨some "entry", [0]⟩, ⟨some "head", [1]⟩, ⟨some "exit", [2]⟩]⟩
  instructions := ⟨[.branch 1, .condBranch (.argument 0) 1 2, .ret none]⟩
  valueNames := .empty

def program : Program where
  module := ⟨⟨[kernel]⟩⟩
  facts := IndexMap.empty.insert 0 ((Facts.empty.markBlock 1).markValue (.argument 0))

theorem parse_source : Program.parse source = .ok program := by
  apply eq_ok_of_toOption
  decide +kernel

theorem qualifies : program.module.Qualifies .all program.facts :=
  ⟨0, kernel, rfl, by decide +kernel⟩

theorem barriers_inserted : ∃ pipeline written,
    Registry.builtin.build [BarrierPass.name] .standard (.start ()) = .ok (pipeline, written) ∧
      program.module.Synchronizes
        (pipeline.run
          ⟨program.module, .supplied (.ofFacts program.facts), written⟩).state.module
        .all program.facts ∧
      (pipeline.run ⟨program.module, .supplied (.ofFacts program.facts), written⟩).changed =
        true := by
  obtain ⟨pipeline, written, built, result, changed_iff⟩ :=
    BarrierPass.pipeline_synchronizes parse_source .standard (.start ())
  exact ⟨pipeline, written, built, result, changed_iff.2 qualifies⟩

end UniformSpin

end Workgroup

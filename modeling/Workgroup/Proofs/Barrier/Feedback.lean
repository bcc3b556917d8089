import Workgroup.Proofs.Barrier.CompletePairs
import Workgroup.Proofs.Barrier.Renaming
import Workgroup.Proofs.Text.WellFormed

/-!
Contract: what a pipeline has written can be given to it again.

Barriers have no result and name nothing, so a program that can be printed can
still be printed after barriers were inserted, and its results keep their order.
Its text is therefore accepted and is the text of what is read.  That is the
program with its handles renumbered, which is as settled as the one that was
printed.

Owns:
- functions that have gained barriers, and their text;
- programs of which every result is named;
- the second run on what was read from the text of the first one.
-/

namespace Workgroup

/-! ## Functions that have gained barriers -/

namespace Function

variable {before after : Function} {count : Nat} {handle : InstId} {value : Value}
  {instruction : Instruction} {facts : Facts}

namespace Gains

theorem get?_of_ge (gains : before.Gains (.replicate count .barrier) after)
    (isNew : before.instructions.size ≤ handle)
    (stored : after.instructions.get? handle = some instruction) : instruction = .barrier := by
  unfold Table.get? at stored
  rw [gains.instructions_eq, List.getElem?_append_right isNew] at stored
  exact List.eq_of_mem_replicate (List.mem_of_getElem? stored)

theorem get?_of_lt {instructions : List Instruction} (gains : before.Gains instructions after)
    (isOld : handle < before.instructions.size) :
    after.instructions.get? handle = before.instructions.get? handle := by
  unfold Table.get?
  rw [gains.instructions_eq, List.getElem?_append_left isOld]

/-- Barriers have no result. -/
theorem hasResult_eq (gains : before.Gains (.replicate count .barrier) after) :
    after.hasResult = before.hasResult := by
  funext handle
  unfold hasResult
  by_cases isOld : handle < before.instructions.size
  · rw [gains.get?_of_lt isOld]
  · have missing : before.instructions.get? handle = none :=
      Table.get?_eq_none_iff.2 (Nat.le_of_not_lt isOld)
    rw [missing]
    cases stored : after.instructions.get? handle with
    | none => rfl
    | some instruction =>
        rw [gains.get?_of_ge (Nat.le_of_not_lt isOld) stored]
        rfl

/-- The instructions with a result are placed in the same order. -/
theorem results_eq (gains : before.Gains (.replicate count .barrier) after)
    (placed : ∀ handle ∈ before.allPlaced, handle < before.instructions.size) :
    after.results = before.results := by
  have isStored (handle : InstId) (hasResult : before.hasResult handle = true) :
      handle < before.instructions.size := by
    obtain ⟨instruction, stored, -⟩ := (Option.any_eq_true _ _).1 hasResult
    exact Table.get?_isSome_iff.1 (by rw [stored]; rfl)
  unfold results
  rw [gains.hasResult_eq, ← gains.filter_allPlaced placed, List.filter_filter]
  refine List.filter_congr fun handle _ => ?_
  cases hasResult : before.hasResult handle with
  | false => rfl
  | true => simp [isStored handle hasResult]

theorem defines_iff (gains : before.Gains (.replicate count .barrier) after)
    (placed : ∀ handle ∈ before.allPlaced, handle < before.instructions.size) :
    after.Defines value ↔ before.Defines value := by
  cases value with
  | result handle => rw [← mem_results, ← mem_results, gains.results_eq placed]
  | argument index =>
      obtain ⟨-, -, sameArguments⟩ := gains.signature_eq
      show index < after.arguments.length ↔ _
      rw [sameArguments]
      exact Iff.rfl
  | constant literal => exact Iff.rfl

theorem size_blocks {instructions : List Instruction} (gains : before.Gains instructions after) :
    after.blocks.size = before.blocks.size := by
  have sameLength := congrArg List.length gains.labels_eq
  rw [List.length_map, List.length_map] at sameLength
  exact sameLength

end Gains

/-- A function that can be printed can be printed after it has gained barriers. -/
theorem Printable.gains (printable : before.Printable)
    (gains : before.Gains (.replicate count .barrier) after) : after.Printable := by
  have placed : ∀ handle ∈ before.allPlaced, handle < before.instructions.size :=
    fun handle => printable.wellPlaced.stored
  obtain ⟨sameName, -, sameArguments⟩ := gains.signature_eq
  have sameLabels := gains.labels_eq
  have sameLocalNames : after.localNames = before.localNames := by
    unfold localNames
    rw [sameArguments, gains.valueNames_eq]
  constructor
  · rw [sameName]
    exact printable.name
  · rw [sameLocalNames]
    exact printable.names
  · rw [sameLocalNames]
    exact printable.distinct
  · have legal : ∀ label ∈ after.blocks.entries.map Block.label,
        label.any Text.isLabel = true := by
      rw [sameLabels, List.forall_mem_map]
      exact printable.labels
    exact List.forall_mem_map.1 legal
  · rw [sameLabels]
    exact printable.distinctLabels
  · exact gains.wellPlaced printable.wellPlaced
  · intro handle member hasResult
    rw [gains.valueNames_eq]
    have defines : before.Defines (.result handle) :=
      (gains.defines_iff placed).1 ⟨member, hasResult⟩
    exact printable.named handle defines.1 defines.2
  · intro entry member
    rw [gains.valueNames_eq] at member
    exact (gains.defines_iff placed).2 (printable.defined entry member)
  · intro handle member instruction stored
    by_cases isOld : handle < before.instructions.size
    · rw [gains.get?_of_lt isOld] at stored
      have wasPlaced : handle ∈ before.allPlaced := by
        rw [← gains.filter_allPlaced placed, List.mem_filter]
        exact ⟨member, decide_eq_true isOld⟩
      have canPrint := printable.instructions handle wasPlaced instruction stored
      have operands (value : Value) (isOperand : value ∈ instruction.operands) :
          after.Defines value := (gains.defines_iff placed).2 (canPrint.operands value isOperand)
      refine ⟨operands, ?_, ?_, canPrint.callee⟩
      · rw [gains.size_blocks]
        exact canPrint.successors
      · rw [gains.size_blocks]
        exact canPrint.incomingBlocks
    · rw [gains.get?_of_ge (Nat.le_of_not_lt isOld) stored]
      exact ⟨nofun, nofun, nofun, nofun⟩

end Function

theorem Facts.Printable.gains {facts : Facts} {before after : Function} {count : Nat}
    (printable : facts.Printable before) (gains : before.Gains (.replicate count .barrier) after)
    (wellPlaced : before.WellPlaced) : facts.Printable after where
  nonempty := printable.nonempty
  blocks := by
    rw [gains.size_blocks]
    exact printable.blocks
  values := fun value member => ⟨(printable.values value member).1,
    (gains.defines_iff fun _ => wellPlaced.stored).2 (printable.values value member).2⟩

/-! ## Programs that have gained barriers -/

namespace Program

variable {program : Program} {after : Module} {calls : List (FuncId × Loop)}

/-- A program that can be printed can be printed after its functions have gained
barriers. -/
theorem Printable.affected (printable : program.Printable)
    (affected : program.module.Affected Function.GainsTwoPerLoop calls after) :
    Program.Printable ⟨after, program.facts⟩ where
  distinct := by
    have sameNames : after.functions.entries.map Function.name =
        program.module.functions.entries.map Function.name := by
      refine List.ext_getElem? fun handle => ?_
      rw [List.getElem?_map, List.getElem?_map]
      show (after.functions.get? handle).map _ = (program.module.functions.get? handle).map _
      cases isFunction : program.module.functions.get? handle with
      | none =>
          have missing : after.functions.get? handle = none := by
            rw [Table.get?_eq_none_iff, affected.size_eq]
            exact Table.get?_eq_none_iff.1 isFunction
          rw [missing]
      | some function =>
          obtain ⟨changed, isChanged, gained⟩ := affected.function isFunction
          rw [isChanged]
          exact congrArg some gained.gains.signature_eq.1
    rw [sameNames]
    exact printable.distinct
  functions := by
    intro changed member
    obtain ⟨handle, isChanged⟩ := List.mem_iff_getElem?.1 member
    obtain ⟨function, isFunction, gained⟩ := affected.exists_before isChanged
    exact (printable.functions function (List.mem_of_getElem? isFunction)).gains gained.gains
  facts := by
    intro entry member
    obtain ⟨function, isFunction, printableFacts⟩ := printable.facts entry member
    obtain ⟨changed, isChanged, gained⟩ := affected.function isFunction
    have wellPlaced := (printable.functions function (List.mem_of_getElem? isFunction)).wellPlaced
    exact ⟨changed, isChanged, printableFacts.gains gained.gains wellPlaced⟩

/-- Results are still placed in their order. -/
theorem resultsAscend_of_affected (printable : program.Printable)
    (ascend : ∀ function ∈ program.module.functions.entries, function.ResultsAscend)
    (affected : program.module.Affected Function.GainsTwoPerLoop calls after) :
    ∀ function ∈ after.functions.entries, function.ResultsAscend := by
  intro changed member
  obtain ⟨handle, isChanged⟩ := List.mem_iff_getElem?.1 member
  obtain ⟨function, isFunction, gained⟩ := affected.exists_before isChanged
  have isMember := List.mem_of_getElem? isFunction
  have wellPlaced := (printable.functions function isMember).wellPlaced
  unfold Function.ResultsAscend
  rw [gained.gains.results_eq fun _ => wellPlaced.stored]
  exact ascend function isMember

end Program

/-! ## Named results -/

/-- Every stored instruction with a result is named. -/
def Function.NamesResults (function : Function) : Prop :=
  ∀ handle ∈ function.instructions.handles, function.hasResult handle = true →
    (function.valueNames.get? handle).isSome = true

instance (function : Function) : Decidable function.NamesResults := by
  unfold Function.NamesResults
  infer_instance

theorem Function.WellFormed.printable {function : Function} (wellFormed : function.WellFormed)
    (names : function.NamesResults) : function.Printable where
  name := wellFormed.name
  names := wellFormed.names
  distinct := wellFormed.distinct
  labels := wellFormed.labels
  distinctLabels := wellFormed.distinctLabels
  wellPlaced := wellFormed.ordered.wellPlaced
  named := fun handle member =>
    names handle (List.mem_range.2 (wellFormed.ordered.wellPlaced.stored member))
  defined := wellFormed.defined
  instructions := fun _ _ _ stored => wellFormed.canPrint stored

theorem Program.WellFormed.printable {program : Program} (wellFormed : program.WellFormed)
    (names : ∀ function ∈ program.module.functions.entries, function.NamesResults) :
    program.Printable where
  distinct := wellFormed.distinct
  functions := fun function member =>
    (wellFormed.functions function member).printable (names function member)
  facts := by
    intro entry member
    obtain ⟨function, isFunction, factsWellFormed⟩ :=
      wellFormed.facts (IndexMap.get?_eq_some_iff.2 member)
    exact ⟨function, isFunction,
      factsWellFormed.printable (wellFormed.functions _ (List.mem_of_getElem? isFunction))⟩

/-! ## The second run -/

section Runs

variable {σ : Type} {filter : KernelFilter} {sink : Option (DecisionSink σ)}

theorem Stage.IsBuiltin.insertsBarriers {stage : Stage σ} (builtin : stage.IsBuiltin filter sink) :
    stage.InsertsBarriers BarrierFactory.AddsOne := by
  cases stage with
  | loops passes =>
      intro pass member
      exact ⟨_, builtin.2 pass member, BarrierFactory.obeys_group.addsOne⟩
  | module pass => exact fun state => (builtin state).2.1

/-- What a run of built-in stages has written is read, and a run of the same
stages on what is read does nothing. -/
theorem Pipeline.rereads (pipeline : Pipeline σ)
    (builtin : ∀ stage ∈ pipeline.stages, stage.IsBuiltin filter sink) {program : Program}
    (printable : program.Printable)
    (ascend : ∀ function ∈ program.module.functions.entries, function.ResultsAscend)
    (journal again : Journal σ) {output : Program}
    (isOutput : output =
      ⟨(pipeline.run ⟨program.module, .supplied (.ofFacts program.facts), journal⟩).state.module,
        program.facts⟩) :
    Program.parse output.render = .ok output.renumbered ∧
      output.renumbered.render = output.render ∧
      (pipeline.run ⟨output.renumbered.module, .supplied (.ofFacts output.renumbered.facts),
        again⟩).changed = false ∧
      (pipeline.run ⟨output.renumbered.module, .supplied (.ofFacts output.renumbered.facts),
        again⟩).state.module = output.renumbered.module := by
  have bounded : program.module.All Function.Bounded := fun {_ function} isFunction => by
    have functionPrintable := printable.functions function (List.mem_of_getElem? isFunction)
    exact ⟨fun _ => functionPrintable.wellPlaced.stored, fun entry member =>
      functionPrintable.wellPlaced.stored (functionPrintable.defined entry member).1⟩
  have causes : ∀ stage ∈ pipeline.stages,
      stage.Causes Function.Bounded Function.GainsTwoPerLoop := fun stage member =>
    (builtin stage member).insertsBarriers.causes fun _ => BarrierPass.causes_gainsTwoPerLoop
  have affected := Pipeline.run_affects Function.composes_gainsTwoPerLoop pipeline causes
    ⟨program.module, .supplied (.ofFacts program.facts), journal⟩ bounded
  have quiet := Pipeline.quiet_run (Oracle.isPure_ofFacts program.facts) pipeline builtin
    ⟨program.module, .supplied (.ofFacts program.facts), journal⟩ (.supplied program.facts)
  have outputPrintable : output.Printable := isOutput ▸ printable.affected affected
  have outputAscend : ∀ function ∈ output.module.functions.entries, function.ResultsAscend := by
    rw [isOutput]
    exact Program.resultsAscend_of_affected printable ascend affected
  obtain ⟨parsed, sameText⟩ := outputPrintable.rereads outputAscend
  have quietAgain : Pipeline.Quiet filter (.ofFacts output.renumbered.facts) pipeline.stages
      output.renumbered.module := by
    intro visitsLoops
    apply outputPrintable.settled_renumbered
    rw [isOutput]
    exact quiet visitsLoops
  exact ⟨parsed, sameText, Pipeline.runRounds_of_quiet
    (Oracle.isPure_ofFacts output.renumbered.facts) builtin _ 0 _
    (.supplied output.renumbered.facts) quietAgain⟩

/-- The output of a pipeline of built-in passes can be fed back.  If every result
of a program that has been read is named, the text after a run is accepted; a run
of the same pipeline on what is read from it, with the facts that are read with
it, reports no change, and the text after that run is the text that was fed in. -/
theorem Registry.builtin_feeds_back {source : String} {program : Program}
    (parsed : Program.parse source = .ok program)
    (named : ∀ function ∈ program.module.functions.entries, function.NamesResults)
    {names : List String} (options : PassOptions) (journal : Journal σ)
    (known : ∀ name ∈ names, ((builtin : Registry σ).find? name).isSome) :
    ∃ pipeline written, builtin.build names options journal = .ok (pipeline, written) ∧
      let output : Program :=
        ⟨(pipeline.run ⟨program.module, .supplied (.ofFacts program.facts), written⟩).state.module,
          program.facts⟩
      ∃ reread, Program.parse output.render = .ok reread ∧ ∀ again : Journal σ,
        let second := pipeline.run ⟨reread.module, .supplied (.ofFacts reread.facts), again⟩
        second.changed = false ∧
          Program.render ⟨second.state.module, reread.facts⟩ = output.render := by
  obtain ⟨pipeline, written, built, areBuiltin⟩ := build_builtin options journal known
  have wellFormed := Program.wellFormed_of_parse parsed
  have ascend : ∀ function ∈ program.module.functions.entries, function.ResultsAscend :=
    fun function member => (wellFormed.functions function member).ordered.resultsAscend
  have rereads (again : Journal σ) := pipeline.rereads areBuiltin (wellFormed.printable named)
    ascend written again rfl
  refine ⟨pipeline, written, built, _, (rereads written).1, fun again => ?_⟩
  obtain ⟨-, sameText, unchanged, sameModule⟩ := rereads again
  refine ⟨unchanged, ?_⟩
  rw [sameModule]
  exact sameText

end Runs

namespace NamedCondition

/-- A loop whose condition is a named result that the text declares uniform. -/
def source : String :=
  "kernel @k(%n: i32) \x7b\n  uniform head, %c\nentry:\n  br head\nhead:\n" ++
    "  %c = cmp lt %n, 4\n  condbr %c, head, exit\nexit:\n  ret\n\x7d\n"

def kernel : Function where
  name := "k"
  kind := .kernel
  arguments := [⟨"n", .i32⟩]
  blocks := ⟨[⟨some "entry", [0]⟩, ⟨some "head", [1, 2]⟩, ⟨some "exit", [3]⟩]⟩
  instructions :=
    ⟨[.branch 1, .compare .less (.argument 0) (.constant (.int 4)), .condBranch (.result 1) 1 2,
      .ret none]⟩
  valueNames := IndexMap.empty.insert 1 "c"

def program : Program where
  module := ⟨⟨[kernel]⟩⟩
  facts := IndexMap.empty.insert 0 ((Facts.empty.markBlock 1).markValue (.result 1))

theorem parse_source : Program.parse source = .ok program := by
  apply eq_ok_of_toOption
  decide +kernel

/-- The first run inserts barriers, which get other handles when its text is read;
the second one does nothing. -/
theorem text_fed_back :
    (∀ function ∈ program.module.functions.entries, function.NamesResults) ∧
    (∀ name ∈ [BarrierPass.name], ((Registry.builtin : Registry Unit).find? name).isSome) ∧
    ∃ pipeline written,
      Registry.builtin.build [BarrierPass.name] .standard (.start ()) = .ok (pipeline, written) ∧
      let first := pipeline.run ⟨program.module, .supplied (.ofFacts program.facts), written⟩
      let output : Program := ⟨first.state.module, program.facts⟩
      first.changed = true ∧ ∃ reread, Program.parse output.render = .ok reread ∧
        reread ≠ output ∧ ∀ again : Journal Unit,
          let second := pipeline.run ⟨reread.module, .supplied (.ofFacts reread.facts), again⟩
          second.changed = false ∧
            Program.render ⟨second.state.module, reread.facts⟩ = output.render := by
  have named : ∀ function ∈ program.module.functions.entries, function.NamesResults := by
    decide +kernel
  have known : ∀ name ∈ [BarrierPass.name],
      ((Registry.builtin : Registry Unit).find? name).isSome := by decide
  obtain ⟨pipeline, written, built, reread, parsed, again⟩ :=
    Registry.builtin_feeds_back parse_source named .standard (.start ()) known
  refine ⟨named, known, pipeline, written, built, ?_, reread, parsed, ?_, again⟩
  · cases built
    decide +kernel
  · intro same
    cases built
    rw [same] at parsed
    refine absurd (congrArg Except.toOption parsed) ?_
    decide +kernel

end NamedCondition

end Workgroup

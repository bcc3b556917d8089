import Workgroup.Proofs.Barrier.DecisionLog
import Workgroup.Proofs.Flow.LoopDiscovery

/-!
Contract: where control crosses the border of a loop of a function.

It comes in at the header only.  It goes out only where it could also have
stayed: every block of a loop has a way to go on inside, so a block that leaves
chooses by a two-way branch or by a switch.  Inserted barriers change neither, so
a run of built-in passes never finds a second entry, and finds an exit without a
two-way branch only where there is a switch.

Owns:
- terminators that leave a loop, and the terminator of an exiting block;
- what this rules out for the cases that arise from a function;
- loops of a function, and what is written about them in a run.
-/

namespace Workgroup

/-! ## The terminator of an exiting block -/

/-- The terminator stays in the loop one way and leaves it for a block of the
function another way.  A two-way branch does one with each arm; a switch may do
both with several targets. -/
inductive Loop.ExitsBy (loop : Loop) (function : Function) : Instruction → Prop where
  | reject {condition : Value} {inside outside : BlockId} :
      inside ∈ loop.blocks → outside ∉ loop.blocks → outside < function.blocks.size →
        loop.ExitsBy function (.condBranch condition inside outside)
  | accept {condition : Value} {inside outside : BlockId} :
      inside ∈ loop.blocks → outside ∉ loop.blocks → outside < function.blocks.size →
        loop.ExitsBy function (.condBranch condition outside inside)
  | switch {selector : Value} {fallback : BlockId} {cases : List (Int32 × BlockId)}
      {inside outside : BlockId} :
      inside ∈ fallback :: cases.map Prod.snd → inside ∈ loop.blocks →
      outside ∈ fallback :: cases.map Prod.snd → outside ∉ loop.blocks →
      outside < function.blocks.size → loop.ExitsBy function (.switch selector fallback cases)

/-- A block that leaves a natural loop also has a way to stay. -/
theorem Loop.Natural.exitsBy {loop : Loop} {function : Function} {block : BlockId}
    (natural : loop.Natural function.graph) (leaves : loop.Leaves function.graph block) :
    ∃ terminator, function.terminatorInstruction? block = some terminator ∧
      loop.ExitsBy function terminator := by
  obtain ⟨member, outside, leaving, isOutside⟩ := leaves
  obtain ⟨inside, staying, isInside⟩ := natural.exists_successor_mem member
  obtain ⟨leaving, present⟩ := Function.mem_successors_graph.1 leaving
  obtain ⟨staying, -⟩ := Function.mem_successors_graph.1 staying
  unfold Function.successors at leaving staying
  cases isLast : function.terminatorInstruction? block with
  | none =>
      rw [isLast] at leaving
      exact absurd leaving List.not_mem_nil
  | some terminator =>
      rw [isLast, Option.map_some, Option.getD_some] at leaving staying
      refine ⟨terminator, rfl, ?_⟩
      cases terminator with
      | branch target =>
          -- The only target cannot lie on both sides.
          rw [List.mem_singleton.1 leaving, ← List.mem_singleton.1 staying] at isOutside
          exact absurd isInside isOutside
      | condBranch condition accept reject =>
          simp only [Instruction.successors, List.mem_cons, List.not_mem_nil, or_false]
            at leaving staying
          rcases staying with rfl | rfl
          · obtain rfl := leaving.resolve_left fun same => isOutside (same ▸ isInside)
            exact .reject isInside isOutside present
          · obtain rfl := leaving.resolve_right fun same => isOutside (same ▸ isInside)
            exact .accept isInside isOutside present
      | switch selector fallback cases =>
          exact .switch staying isInside leaving isOutside present
      | _ => exact absurd leaving List.not_mem_nil

/-! ## The cases that arise from a function -/

namespace BarrierCase.Arises

variable {σ : Type} {given : BarrierCase σ} {function : Function} {label exiting : String}

theorem natural (arises : given.Arises function) : given.loop.Natural function.graph := by
  obtain ⟨position, isLoop⟩ := arises.listed
  exact function.coherent_graph.natural isLoop

/-- The check for a unique header never fails. -/
theorem passes_uniqueHeader (arises : given.Arises function) : given.Passes .uniqueHeader := by
  have entry := arises.natural.uniqueHeader? function.coherent_graph
  obtain ⟨-, entered⟩ := Loop.uniqueHeader?_eq_some_iff.1 entry
  refine ⟨?_, ?_⟩
  · rw [arises.graph_eq, arises.dominators_eq]
    exact entered
  · rw [arises.resembles.control.size_blocks]
    exact Function.lt_size_of_reachable arises.natural.reachable_header

theorem not_noUniqueHeader (arises : given.Arises function) :
    ¬ given.Verdict (.noUniqueHeader label) := by
  intro verdict
  cases verdict with
  | @rejected check _ first reports =>
      cases check with
      | uniqueHeader => exact first.fails arises.passes_uniqueHeader
      | _ => simp [Reports] at reports

/-- If the check for a two-way branch fails, the loop exits by a switch. -/
theorem of_exitNotConditional (arises : given.Arises function)
    (verdict : given.Verdict (.exitNotConditional label exiting)) :
    ∃ block selector fallback cases, given.loop.exitingBlocks function.graph = [block] ∧
      function.blockName given.loop.header = label ∧ function.blockName block = exiting ∧
      function.terminatorInstruction? block = some (.switch selector fallback cases) := by
  cases verdict with
  | @rejected check _ first reports =>
      cases check with
      | conditionalExit =>
          obtain ⟨block, leaves, same⟩ := reports
          obtain ⟨rfl, rfl⟩ := BarrierDecision.exitNotConditional.inj same
          obtain ⟨only, unique⟩ := first.earlier .uniqueExit (by decide)
          obtain rfl := (unique block).1 leaves
          have fails := first.fails
          simp only [Passes, ExitsOn, arises.graph_eq, arises.resembles.control.terminator_eq]
            at leaves unique fails
          obtain ⟨terminator, isLast, exits⟩ := arises.natural.exitsBy leaves
          have names := arises.resembles.blockName_eq
          cases exits with
          | switch => exact ⟨block, _, _, _, Loop.exitingBlocks_eq_singleton_iff.2 unique,
              (names _).symm, (names _).symm, isLast⟩
          | _ => exact absurd ⟨block, _, leaves, _, _, isLast⟩ fails
      | _ => simp [Reports] at reports

end BarrierCase.Arises

/-! ## The loops of a function -/

section Loops

variable {σ : Type}

/-- Loops of a function are entered at their headers: no other block of a loop has
a reachable predecessor outside.  So the check for a unique header fails for a
loop only if that is not from the forest of the present graph, and no pipeline of
built-in passes, run on any module with any analyses, writes down that it failed. -/
theorem Function.loops_singleEntry :
    (∀ (function : Function) handle loop,
      (function.graph.loopForest function.graph.dominators).loops.get? handle = some loop →
      (∀ block ∈ loop.blocks, block ≠ loop.header →
        ∀ predecessor ∈ function.graph.predecessors block,
          function.graph.dominators.isReachable predecessor = true → predecessor ∈ loop.blocks) ∧
      loop.uniqueHeader? function.graph function.graph.dominators = some loop.header) ∧
    (∀ (function : Function) accepts forest handle loop label,
      forest.loops.get? handle = some loop →
      EligibleLoop.check accepts loop function function.graph function.graph.dominators =
        .error (.noUniqueHeader label) →
      forest ≠ function.graph.loopForest function.graph.dominators) ∧
    ∀ {names : List String} (options : PassOptions) (journal : Journal σ),
      (∀ name ∈ names, name = BarrierPass.name ∨ name = "verify") →
      ∃ pipeline written, Registry.builtin.build names options journal = .ok (pipeline, written) ∧
        ∀ state : PassState σ, ∃ entries,
          (pipeline.run state).state.journal.log = state.journal.log ++ entries ∧
          ∀ name label, .decided name (.noUniqueHeader label) ∉ entries := by
  have entry {function : Function} {handle : LoopId} {loop : Loop}
      (isLoop : (function.graph.loopForest function.graph.dominators).loops.get? handle =
        some loop) :
      loop.uniqueHeader? function.graph function.graph.dominators = some loop.header :=
    (function.coherent_graph.natural isLoop).uniqueHeader? function.coherent_graph
  refine ⟨fun function handle loop isLoop => ?_, ?_, fun options journal known => ?_⟩
  · obtain ⟨-, -, entered⟩ := Loop.uniqueHeader?_eq_some_iff.1 (entry isLoop)
    exact ⟨entered, entry isLoop⟩
  · rintro function accepts forest handle loop label isLoop stopped rfl
    let given : BarrierCase Unit := ⟨accepts, function.context 0 .nothing, loop, function, ()⟩
    have arises : given.Arises function := ⟨⟨handle, isLoop⟩, .refl function, rfl, rfl⟩
    have checked : given.structuralChecks = .error (.noUniqueHeader label) := stopped
    obtain ⟨check, -, first, reports⟩ := BarrierCase.firstFailing_of_structuralChecks checked
    exact arises.not_noUniqueHeader (.rejected first reports)
  · obtain ⟨pipeline, written, built, accounts⟩ := Registry.builtin_accounts known options journal
    refine ⟨pipeline, written, built, fun state => ?_⟩
    obtain ⟨entries, log_eq, explained⟩ := accounts state
    refine ⟨entries, log_eq, fun name label member => ?_⟩
    obtain ⟨handle, function, -, -, given, arises, verdict⟩ := explained member
    exact arises.not_noUniqueHeader verdict

/-! ### A loop that is entered from the side later -/

namespace MergedLatches

/-- The kernel in which the entry also goes to one of the latches. -/
def entered : Function :=
  { kernel with instructions := ⟨[.condBranch (.argument 0) 1 3, .condBranch (.argument 0) 2 3,
      .condBranch (.argument 0) 1 4, .branch 1, .ret none, .branch 3]⟩ }

/-- In the kernel an unreachable predecessor is no entry.  In the changed function
the loop has two entries, and it is no longer in the forest. -/
theorem stale_loop_refused :
    (kernel.graph.loopForest kernel.graph.dominators).loops.get? 0 = some loop ∧
    5 ∈ kernel.graph.predecessors 3 ∧ 5 ∉ loop.blocks ∧
    loop.uniqueHeader? kernel.graph kernel.graph.dominators = some 1 ∧
    EligibleLoop.check (fun _ => true) loop entered entered.graph entered.graph.dominators =
      .error (.noUniqueHeader "header") ∧
    kernel.graph.loopForest kernel.graph.dominators ≠
      entered.graph.loopForest entered.graph.dominators ∧
    (∀ name ∈ [BarrierPass.name, "verify"], name = BarrierPass.name ∨ name = "verify") ∧
    ∃ pipeline written, Registry.builtin.build [BarrierPass.name, "verify"] ⟨none, true, 1⟩
        (.start ()) = .ok (pipeline, written) ∧
      ∃ entries, (pipeline.run ⟨⟨⟨[kernel]⟩⟩, .supplied .nothing, written⟩).state.journal.log =
          written.log ++ entries ∧
        .decided "k" (.headerNotUniform "header") ∈ entries ∧
        ∀ name label, .decided name (.noUniqueHeader label) ∉ entries := by
  obtain ⟨single, stale, runs⟩ := @Function.loops_singleEntry Unit
  have stopped : EligibleLoop.check (fun _ => true) loop entered entered.graph
      entered.graph.dominators = .error (.noUniqueHeader "header") := by
    decide +kernel
  have known : ∀ name ∈ [BarrierPass.name, "verify"],
      name = BarrierPass.name ∨ name = "verify" := by decide
  obtain ⟨pipeline, written, built, logs⟩ := runs ⟨none, true, 1⟩ (.start ()) known
  obtain ⟨entries, log_eq, never⟩ := logs ⟨⟨⟨[kernel]⟩⟩, .supplied .nothing, written⟩
  have refused : .decided "k" (.headerNotUniform "header") ∈ entries := by
    have logged : .decided "k" (.headerNotUniform "header") ∈
        (pipeline.run ⟨⟨⟨[kernel]⟩⟩, .supplied .nothing, written⟩).state.journal.log.drop
          written.log.length := by
      cases built
      decide +kernel
    rw [log_eq, List.drop_left] at logged
    exact logged
  exact ⟨is_loop, by decide +kernel, by decide +kernel, (single kernel 0 loop is_loop).2, stopped,
    stale entered _ _ 0 loop _ is_loop stopped, known, pipeline, written, built, entries, log_eq,
    refused, never⟩

end MergedLatches

/-- A block that leaves a loop of a function ends with a two-way branch that goes
on inside the loop with one arm and to an existing block outside with the other,
or with a switch that can do both.  So a pipeline of built-in passes, run on any
module with any analyses, writes down that an exit is not conditional only for
loops of the module whose one exiting block ends with a switch. -/
theorem Function.loops_exitByChoice :
    (∀ (function : Function) handle loop,
      (function.graph.loopForest function.graph.dominators).loops.get? handle = some loop →
      ∀ block ∈ loop.exitingBlocks function.graph,
        ∃ terminator, function.terminatorInstruction? block = some terminator ∧
          loop.ExitsBy function terminator) ∧
    ∀ {names : List String} (options : PassOptions) (journal : Journal σ),
      (∀ name ∈ names, name = BarrierPass.name ∨ name = "verify") →
      ∃ pipeline written, Registry.builtin.build names options journal = .ok (pipeline, written) ∧
        ∀ state : PassState σ, ∃ entries,
          (pipeline.run state).state.journal.log = state.journal.log ++ entries ∧
          ∀ name header exiting, .decided name (.exitNotConditional header exiting) ∈ entries →
            ∃ owner function handle loop block selector fallback cases,
              state.module.functions.get? owner = some function ∧ function.name = name ∧
              (function.graph.loopForest function.graph.dominators).loops.get? handle =
                some loop ∧
              function.blockName loop.header = header ∧
              loop.exitingBlocks function.graph = [block] ∧
              function.blockName block = exiting ∧
              function.terminatorInstruction? block = some (.switch selector fallback cases) := by
  refine ⟨fun function handle loop isLoop block listed => ?_, fun options journal known => ?_⟩
  · have natural := function.coherent_graph.natural isLoop
    exact natural.exitsBy (Loop.mem_exitingBlocks.1 listed)
  · obtain ⟨pipeline, written, built, accounts⟩ := Registry.builtin_accounts known options journal
    refine ⟨pipeline, written, built, fun state => ?_⟩
    obtain ⟨entries, log_eq, explained⟩ := accounts state
    refine ⟨entries, log_eq, fun name header exiting member => ?_⟩
    obtain ⟨owner, function, isFunction, isName, given, arises, verdict⟩ := explained member
    obtain ⟨handle, isLoop⟩ := arises.listed
    obtain ⟨block, selector, fallback, cases, only, isHeader, isExiting, isLast⟩ :=
      arises.of_exitNotConditional verdict
    exact ⟨owner, function, handle, given.loop, block, selector, fallback, cases, isFunction,
      isName, isLoop, isHeader, only, isExiting, isLast⟩

/-! ### A loop that a switch leaves -/

namespace SwitchSpin

/-- A block that spins until a switch takes its fallback. -/
def kernel : Function where
  name := "k"
  kind := .kernel
  arguments := [⟨"s", .i32⟩]
  blocks := ⟨[⟨some "entry", [0]⟩, ⟨some "spin", [1]⟩, ⟨some "exit", [2]⟩]⟩
  instructions := ⟨[.branch 1, .switch (.argument 0) 2 [(0, 1)], .ret none]⟩
  valueNames := .empty

def loop : Loop := ⟨1, .ofList [1], none, [], 1⟩

/-- The header is uniform. -/
def facts : FactTable := IndexMap.empty.insert 0 (Facts.empty.markBlock 1)

/-- The run writes down that the exit is not conditional, and there is the switch. -/
theorem exit_not_conditional :
    (kernel.graph.loopForest kernel.graph.dominators).loops.get? 0 = some loop ∧
    1 ∈ loop.exitingBlocks kernel.graph ∧
    (∃ terminator, kernel.terminatorInstruction? 1 = some terminator ∧
      loop.ExitsBy kernel terminator) ∧
    (∀ name ∈ [BarrierPass.name], name = BarrierPass.name ∨ name = "verify") ∧
    ∃ pipeline written,
      Registry.builtin.build [BarrierPass.name] ⟨none, true, 1⟩ (.start ()) =
        .ok (pipeline, written) ∧
      ∃ entries, (pipeline.run
          ⟨⟨⟨[kernel]⟩⟩, .supplied (.ofFacts facts), written⟩).state.journal.log =
            written.log ++ entries ∧
        .decided "k" (.exitNotConditional "spin" "spin") ∈ entries ∧
        ∃ owner function block selector fallback cases,
          (⟨[kernel]⟩ : Table Function).get? owner = some function ∧
          function.blockName block = "spin" ∧
          function.terminatorInstruction? block = some (.switch selector fallback cases) := by
  obtain ⟨exits, runs⟩ := @Function.loops_exitByChoice Unit
  have isLoop : (kernel.graph.loopForest kernel.graph.dominators).loops.get? 0 = some loop := by
    decide +kernel
  have leaves : 1 ∈ loop.exitingBlocks kernel.graph := by decide +kernel
  have known : ∀ name ∈ [BarrierPass.name], name = BarrierPass.name ∨ name = "verify" := by
    decide
  obtain ⟨pipeline, written, built, logs⟩ := runs ⟨none, true, 1⟩ (.start ()) known
  obtain ⟨entries, log_eq, explained⟩ :=
    logs ⟨⟨⟨[kernel]⟩⟩, .supplied (.ofFacts facts), written⟩
  have reported : .decided "k" (.exitNotConditional "spin" "spin") ∈ entries := by
    have logged : .decided "k" (.exitNotConditional "spin" "spin") ∈
        (pipeline.run ⟨⟨⟨[kernel]⟩⟩, .supplied (.ofFacts facts),
          written⟩).state.journal.log.drop written.log.length := by
      cases built
      decide +kernel
    rw [log_eq, List.drop_left] at logged
    exact logged
  obtain ⟨owner, function, handle, found, block, selector, fallback, cases, isFunction, -, -, -, -,
    isExiting, isLast⟩ := explained _ _ _ reported
  exact ⟨isLoop, leaves, exits kernel 0 loop isLoop 1 leaves, known, pipeline, written, built,
    entries, log_eq, reported, owner, function, block, selector, fallback, cases, isFunction,
    isExiting, isLast⟩

end SwitchSpin

end Loops

end Workgroup

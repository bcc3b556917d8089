import Mathlib.Data.List.Forall2
import Workgroup.Instrument.Plan
import Workgroup.Proofs.Barrier.LoopDecision
import Workgroup.Proofs.Barrier.PipelineRun
import Workgroup.Proofs.Pass.Calls

/-!
Contract: what barrier passes leave of a module when requests fail.

Whichever requests a factory refuses, on whichever loop and in whichever round,
a module ends up with two barriers for each call that reported a change and
with nothing else.  If granted requests are followed, each of these pairs
encloses its loop, as if no request had ever been refused.

Owns:
- functions that gained pairs of barriers, anywhere or in their places;
- barrier passes as causes of these relations;
- runs of stages and pipelines on a program that has been read.
-/

namespace Workgroup

namespace Function

variable {before after : Function} {loops : List Loop}

/-! ## Pairs anywhere -/

/-- The second function is the first one after the insertion of two barriers for
each loop; cutting the storage back restores the first one. -/
structure GainsTwoPerLoop (before : Function) (loops : List Loop) (after : Function) : Prop where
  gains : before.Gains (List.replicate (2 * loops.length) .barrier) after
  truncate_eq : after.truncateInstructions before.instructions.size = before

theorem Gains.gainsTwoPerLoop
    (gains : before.Gains (List.replicate (2 * loops.length) .barrier) after)
    (bounded : before.Bounded) : before.GainsTwoPerLoop loops after :=
  ⟨gains, gains.truncate_eq bounded⟩

theorem composes_gainsTwoPerLoop : Composes Bounded GainsTwoPerLoop where
  nothing := fun bounded => Gains.nothing.gainsTwoPerLoop bounded
  sound_after := fun bounded gained => gained.gains.bounded bounded
  trans := by
    intro before first middle second after bounded earlier later
    have gains := earlier.gains.trans later.gains
    rw [List.replicate_append_replicate, ← Nat.mul_add, ← List.length_append] at gains
    exact gains.gainsTwoPerLoop bounded

end Function

/-! ## Pairs in their places -/

/-- The places for the barriers of a loop of a function that has none yet. -/
structure Loop.PairedBy (function : Function) (loop : Loop) (eligible : EligibleLoop) : Prop where
  stored : ∃ position,
    (function.graph.loopForest function.graph.dominators).loops.get? position = some loop
  innermost : loop.subLoops = []
  unsynchronized : ∀ block ∈ loop.blocks, function.containsBarrier block = false
  header_eq : eligible.header = loop.header
  only : loop.exitingBlocks function.graph = [eligible.exiting]

namespace Loop.PairedBy

variable {before after : Function} {loop : Loop} {eligible : EligibleLoop} {block : BlockId}

theorem header_mem (paired : loop.PairedBy before eligible) : eligible.header ∈ loop.blocks := by
  obtain ⟨position, isLoop⟩ := paired.stored
  rw [paired.header_eq]
  exact (before.coherent_graph.natural isLoop).header_mem

theorem exiting_mem (paired : loop.PairedBy before eligible) : eligible.exiting ∈ loop.blocks := by
  have listed : eligible.exiting ∈ loop.exitingBlocks before.graph := by simp [paired.only]
  exact (mem_exitingBlocks.1 listed).1

/-- Barriers in other loops have not made the places of a pair. -/
theorem of_synchronizes {pairs : List EligibleLoop} (paired : loop.PairedBy after eligible)
    (synchronizes : before.Synchronizes after pairs) (wellPlaced : before.WellPlaced) :
    loop.PairedBy before eligible := by
  have sameGraph := synchronizes.graph_eq wellPlaced
  obtain ⟨stored, innermost, unsynchronized, header_eq, only⟩ := paired
  rw [sameGraph] at stored only
  refine ⟨stored, innermost, fun block member => ?_, header_eq, only⟩
  rw [Bool.eq_false_iff]
  intro barrier
  have still := synchronizes.containsBarrier_of_before wellPlaced barrier
  exact absurd (still.symm.trans (unsynchronized block member)) nofun

/-- Loops with places for a pair share no block with loops that have got theirs. -/
theorem not_mem_blocks {pairs : List EligibleLoop} {inner : Loop} {other : EligibleLoop}
    (paired : loop.PairedBy before eligible) (synchronizes : before.Synchronizes after pairs)
    (listed : eligible ∈ pairs) (wellPlaced : before.WellPlaced)
    (later : inner.PairedBy after other) (member : block ∈ loop.blocks) :
    block ∉ inner.blocks := by
  intro innerMember
  obtain ⟨position, isLoop⟩ := paired.stored
  obtain ⟨innerPosition, isInner⟩ := (later.of_synchronizes synchronizes wellPlaced).stored
  have same := before.coherent_graph.innermost_disjoint isLoop isInner paired.innermost
    later.innermost member innerMember
  rw [same, isInner] at isLoop
  have sameLoop : inner = loop := Option.some.inj isLoop
  have barrier := synchronizes.containsBarrier_header wellPlaced
    (List.mem_map_of_mem (f := EligibleLoop.header) listed)
  have none := later.unsynchronized eligible.header (by rw [sameLoop]; exact paired.header_mem)
  exact absurd (barrier.symm.trans none) nofun

end Loop.PairedBy

theorem forall₂_mem_right {α β : Type} {related : α → β → Prop} {left : List α} {right : List β}
    (all : List.Forall₂ related left right) {value : β} (member : value ∈ right) :
    ∃ item ∈ left, related item value := by
  induction all with
  | nil => exact absurd member List.not_mem_nil
  | @cons item other left right first _ inductionHypothesis =>
      rcases List.mem_cons.1 member with rfl | later
      · exact ⟨item, List.mem_cons_self, first⟩
      · obtain ⟨found, listed, holds⟩ := inductionHypothesis later
        exact ⟨found, List.mem_cons_of_mem item listed, holds⟩

namespace Function

variable {before middle after : Function} {loops more : List Loop}
  {pairs others : List EligibleLoop}

/-- The second function is the first one with each of some loops enclosed by a
pair of barriers. -/
def GainsPairsInPlace (before : Function) (loops : List Loop) (after : Function) : Prop :=
  ∃ pairs, List.Forall₂ (Loop.PairedBy before) loops pairs ∧ before.Synchronizes after pairs

/-- Pairs that are added one after the other lie in different loops. -/
theorem Synchronizes.trans_of_paired (first : before.Synchronizes middle pairs)
    (second : middle.Synchronizes after others) (wellPlaced : before.WellPlaced)
    (paired : List.Forall₂ (Loop.PairedBy before) loops pairs)
    (pairedLater : List.Forall₂ (Loop.PairedBy middle) more others) :
    before.Synchronizes after (pairs ++ others) := by
  apply first.trans second wellPlaced
  intro block touched
  obtain ⟨eligible, listed, isPlace⟩ : ∃ eligible ∈ pairs,
      block = eligible.header ∨ block = eligible.exiting := by
    rcases touched with isHeader | isExiting
    · obtain ⟨eligible, listed, rfl⟩ := List.mem_map.1 isHeader
      exact ⟨eligible, listed, .inl rfl⟩
    · obtain ⟨eligible, listed, rfl⟩ := List.mem_map.1 isExiting
      exact ⟨eligible, listed, .inr rfl⟩
  obtain ⟨loop, -, isPaired⟩ := forall₂_mem_right paired listed
  have member : block ∈ loop.blocks := by
    rcases isPlace with rfl | rfl
    · exact isPaired.header_mem
    · exact isPaired.exiting_mem
  constructor
  · intro isHeader
    obtain ⟨other, otherListed, rfl⟩ := List.mem_map.1 isHeader
    obtain ⟨inner, -, later⟩ := forall₂_mem_right pairedLater otherListed
    exact isPaired.not_mem_blocks first listed wellPlaced later member later.header_mem
  · intro isExiting
    obtain ⟨other, otherListed, rfl⟩ := List.mem_map.1 isExiting
    obtain ⟨inner, -, later⟩ := forall₂_mem_right pairedLater otherListed
    exact isPaired.not_mem_blocks first listed wellPlaced later member later.exiting_mem

theorem Synchronizes.bounded (synchronizes : before.Synchronizes after pairs)
    (wellPlaced : before.WellPlaced) (bounded : before.Bounded) : after.Bounded where
  placed := fun _ => (synchronizes.wellPlaced wellPlaced).stored
  named := by
    intro entry member
    rw [synchronizes.valueNames_eq] at member
    rw [synchronizes.size_instructions]
    exact Nat.lt_add_right _ (bounded.named entry member)

theorem composes_gainsPairsInPlace :
    Composes (fun function => function.WellPlaced ∧ function.Bounded) GainsPairsInPlace where
  nothing := fun {function} _ => ⟨[], .nil, .refl function⟩
  sound_after := by
    intro before loops after ⟨wellPlaced, bounded⟩ ⟨pairs, _, synchronizes⟩
    exact ⟨synchronizes.wellPlaced wellPlaced, synchronizes.bounded wellPlaced bounded⟩
  trans := by
    intro before first middle second after ⟨wellPlaced, _⟩ ⟨pairs, paired, earlier⟩
      ⟨others, pairedLater, later⟩
    have pairedBefore : List.Forall₂ (Loop.PairedBy before) second others :=
      pairedLater.imp fun _ _ isPaired => isPaired.of_synchronizes earlier wellPlaced
    exact ⟨pairs ++ others, List.rel_append paired pairedBefore,
      earlier.trans_of_paired later wellPlaced paired pairedLater⟩

end Function

/-! ## Barrier passes -/

namespace BarrierPass

variable {σ : Type} {pass : BarrierPass σ}

/-- A pass whose factory adds one barrier or fails adds pairs only. -/
theorem causes_gainsTwoPerLoop (addsOne : pass.factory.AddsOne) :
    pass.toLoopPass.Causes Function.Bounded Function.GainsTwoPerLoop where
  preserves := rfl
  keeps := fun bounded unchanged =>
    runOnLoop_eq_of_not_changed addsOne.insertsOnly bounded unchanged
  changes := by
    intro before earlier context loop function journal bounded related _ _ _ changed
    have functionBounded := related.gains.bounded bounded
    exact (gains_of_changed addsOne changed).gainsTwoPerLoop functionBounded

/-- A pass whose factory obeys or fails encloses the loops that it reports. -/
theorem causes_gainsPairsInPlace (obeys : pass.factory.Obeys) :
    pass.toLoopPass.Causes (fun function => function.WellPlaced ∧ function.Bounded)
      Function.GainsPairsInPlace where
  preserves := rfl
  keeps := fun sound unchanged =>
    runOnLoop_eq_of_not_changed obeys.insertsOnly sound.2 unchanged
  changes := by
    intro before earlier context loop function journal ⟨wellPlaced, _⟩ ⟨pairs, _, synchronizes⟩
      sameGraph sameDominators stored changed
    have graph_eq := synchronizes.graph_eq wellPlaced
    have functionPlaced := synchronizes.wellPlaced wellPlaced
    obtain ⟨eligible, terminator, notes, checked, isUniform, granted, function_eq⟩ :=
      granted_of_changed changed
    obtain ⟨-, unsynchronized, innermost, only, isHeader, headerPresent⟩ :=
      EligibleLoop.check_eq_ok_iff.1 checked
    obtain ⟨-, condition, branch, -⟩ := EligibleLoop.checkUniform_eq_ok_iff.1 isUniform
    obtain ⟨inserted, -, whole, placed⟩ :=
      exists_runAll_group functionPlaced branch headerPresent notes
    have function_eq_inserted : (pass.runOnLoop context loop function journal).function =
        inserted := by
      rw [function_eq, ← (obeys.runAll_eq notes granted).2, whole]
    have paired : loop.PairedBy function eligible := by
      refine ⟨?_, innermost, unsynchronized, (Loop.uniqueHeader?_eq_some_iff.1 isHeader).1, ?_⟩
      · rw [graph_eq]
        exact stored
      · rw [graph_eq, ← sameGraph]
        exact only
    refine ⟨[eligible], .cons paired .nil, ?_⟩
    show function.Synchronizes (pass.runOnLoop context loop function journal).function [eligible]
    rw [function_eq_inserted]
    exact placed

end BarrierPass

/-- The stage runs barrier passes with allowed factories, or it is a pass that
leaves the module alone. -/
def Stage.InsertsBarriers {σ : Type} (allowed : BarrierFactory σ → Prop) : Stage σ → Prop
  | .loops passes => ∀ pass ∈ passes, ∃ settings : BarrierPass σ,
      pass = settings.toLoopPass ∧ allowed settings.factory
  | .module pass => ∀ state, (pass.run state).state.module = state.module

theorem Stage.InsertsBarriers.causes {σ : Type} {allowed : BarrierFactory σ → Prop}
    {stage : Stage σ} {sound : Function → Prop} {effect : Function → List Loop → Function → Prop}
    (inserts : stage.InsertsBarriers allowed)
    (each : ∀ settings : BarrierPass σ, allowed settings.factory →
      settings.toLoopPass.Causes sound effect) : stage.Causes sound effect := by
  cases stage with
  | loops passes =>
      intro pass member
      obtain ⟨settings, rfl, isAllowed⟩ := inserts pass member
      exact each settings isAllowed
  | module pass => exact inserts

/-- Between two modules there are complete pairs only, one for each of some
calls.  If the factories insert where they are asked to, each pair encloses the
loop of its call. -/
structure Module.GainsPairs {σ : Type} (before : Module) (stages : List (Stage σ))
    (calls : List (FuncId × Loop)) (after : Module) : Prop where
  anywhere : (∀ stage ∈ stages, stage.InsertsBarriers BarrierFactory.AddsOne) →
    before.Affected Function.GainsTwoPerLoop calls after
  inPlace : (∀ stage ∈ stages, stage.InsertsBarriers BarrierFactory.Obeys) →
    before.Affected Function.GainsPairsInPlace calls after

/-- A run adds complete pairs if it carries every relation from calls to modules. -/
theorem Module.gainsPairs_of_affected {σ : Type} {before after : Module} {stages : List (Stage σ)}
    {calls : List (FuncId × Loop)}
    (all : before.All fun function => function.WellPlaced ∧ function.Bounded)
    (affects : ∀ {sound effect}, Composes sound effect →
      (∀ stage ∈ stages, stage.Causes sound effect) → before.All sound →
      before.Affected effect calls after) : before.GainsPairs stages calls after where
  anywhere := by
    intro inserts
    have causes : ∀ stage ∈ stages, stage.Causes Function.Bounded Function.GainsTwoPerLoop := by
      intro stage member
      exact (inserts stage member).causes fun _ => BarrierPass.causes_gainsTwoPerLoop
    exact affects Function.composes_gainsTwoPerLoop causes fun isFunction => (all isFunction).2
  inPlace := by
    intro inserts
    have causes : ∀ stage ∈ stages,
        stage.Causes (fun function => function.WellPlaced ∧ function.Bounded)
          Function.GainsPairsInPlace := by
      intro stage member
      exact (inserts stage member).causes fun _ => BarrierPass.causes_gainsPairsInPlace
    exact affects Function.composes_gainsPairsInPlace causes all

/-- Insertion is all or nothing.  An attempt that reports no change leaves the
function as it was, whatever the factory has inserted before it failed.  So a
run of one stage or of a whole pipeline on a program that has been read adds one
pair of barriers for each call that reported a change, and nothing else. -/
theorem BarrierPass.all_or_nothing {σ : Type} :
    (∀ (pass : BarrierPass σ) (context : LoopContext σ) (eligible : EligibleLoop)
      (function : Function) (journal : Journal σ), pass.factory.InsertsOnly → function.Bounded →
      (pass.tryInsert context eligible function journal).changed = false →
      (pass.tryInsert context eligible function journal).function = function) ∧
    ∀ {source : String} {program : Program}, Program.parse source = .ok program →
      ∀ (analyses : Analyses σ) (journal : Journal σ),
      (∀ stage : Stage σ, program.module.GainsPairs [stage]
        (stage.calls ⟨program.module, analyses, journal⟩)
        (stage.run ⟨program.module, analyses, journal⟩).state.module) ∧
      ∀ pipeline : Pipeline σ, program.module.GainsPairs pipeline.stages
        (pipeline.calls ⟨program.module, analyses, journal⟩)
        (pipeline.run ⟨program.module, analyses, journal⟩).state.module := by
  constructor
  · intro pass context eligible function journal insertsOnly bounded unchanged
    exact tryInsert_eq_of_not_changed insertsOnly bounded unchanged
  · intro source program parsed analyses journal
    have all : program.module.All fun function => function.WellPlaced ∧ function.Bounded :=
      fun isFunction => Program.functions_of_parse parsed _ (List.mem_of_getElem? isFunction)
    constructor
    · intro stage
      apply Module.gainsPairs_of_affected all
      intro sound effect composes causes allSound
      exact Stage.run_affects composes (causes stage (List.mem_singleton_self stage))
        ⟨program.module, analyses, journal⟩ allSound
    · intro pipeline
      apply Module.gainsPairs_of_affected all
      intro sound effect composes causes allSound
      exact Pipeline.run_affects composes pipeline causes ⟨program.module, analyses, journal⟩ allSound

/-! ## A refused request -/

/-- A factory that fails on some of its requests obeys on the others. -/
theorem BarrierFactory.obeys_failing (slot : Nat) (failures : List Nat) :
    (failing slot failures).Obeys where
  insertsOnly := by
    intro point function notes
    unfold failing
    dsimp only
    split
    · exact ⟨[], .nothing⟩
    · exact obeys_group.insertsOnly point function _
  inserts := by
    intro point function notes handle granted
    unfold failing at granted ⊢
    dsimp only at granted ⊢
    split at granted
    · exact absurd granted nofun
    · next notListed =>
      rw [if_neg notListed]
      exact obeys_group.inserts granted

namespace RefusedRequest

open UniformSpin

/-- The second request is refused, after a barrier has been inserted. -/
def pass : BarrierPass Notebook := ⟨fun _ => true, .failing 0 [2], none⟩

/-- The pass is run twice on each loop. -/
def pipeline : Pipeline Notebook := ⟨[.loops [pass.toLoopPass, pass.toLoopPass]], 10⟩

def context : LoopContext Notebook where
  function := 0
  graph := kernel.graph
  dominators := kernel.graph.dominators
  forest := kernel.graph.loopForest kernel.graph.dominators
  oracle := .ofFacts program.facts

def journal : Journal Notebook := .start ⟨[], [0]⟩

def state : PassState Notebook := ⟨program.module, .supplied (.ofFacts program.facts), journal⟩

/-- The loop of the kernel. -/
def loop : Loop := ⟨1, .ofList [1], none, [], 1⟩

theorem bounded : kernel.Bounded where
  placed := by decide
  named := by decide

theorem inserts : ∀ stage ∈ pipeline.stages, stage.InsertsBarriers BarrierFactory.Obeys := by
  intro stage member
  rw [List.mem_singleton.1 member]
  intro each listed
  refine ⟨pass, ?_, BarrierFactory.obeys_failing 0 [2]⟩
  simpa using listed

/-- The first attempt is taken back; the second one leaves the only pair. -/
theorem pair_after_refusal : kernel.Bounded ∧
    (pass.tryInsert context ⟨1, 1⟩ kernel journal).changed = false ∧
    (pass.tryInsert context ⟨1, 1⟩ kernel journal).function = kernel ∧
    Program.parse source = .ok program ∧ pipeline.calls state = [(0, loop)] ∧
    program.module.Affected Function.GainsPairsInPlace [(0, loop)]
      (pipeline.run state).state.module := by
  obtain ⟨attempt, runs⟩ := @BarrierPass.all_or_nothing Notebook
  have unchanged : (pass.tryInsert context ⟨1, 1⟩ kernel journal).changed = false := by
    decide +kernel
  have restored := attempt pass context ⟨1, 1⟩ kernel journal
    (BarrierFactory.obeys_failing 0 [2]).insertsOnly bounded unchanged
  have calls_eq : pipeline.calls state = [(0, loop)] := by decide +kernel
  have gained := ((runs parse_source state.analyses journal).2 pipeline).inPlace inserts
  have calls_eq_state : pipeline.calls ⟨program.module, state.analyses, journal⟩ = [(0, loop)] :=
    calls_eq
  rw [calls_eq_state] at gained
  exact ⟨bounded, unchanged, restored, parse_source, calls_eq, gained⟩

end RefusedRequest

end Workgroup

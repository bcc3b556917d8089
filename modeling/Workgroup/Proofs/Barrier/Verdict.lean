import Workgroup.Proofs.Barrier.PreservedAnalyses

/-!
Contract: what one visit of a loop writes down, and what it asks.

The checks are made in a fixed order up to the first one that fails.  A visit
hands one decision to the sink: the one that goes with this check, or that
barriers were inserted.  There is no third possibility, since the places for
plain barriers are always found.  The oracle is asked for the header once the
structural checks have passed, and for the condition once nothing else is left.

Owns:
- the checks as conditions, and the decision that the first failing one makes;
- the queries that a visit makes, and oracles that write down what they are asked;
- the visit of a loop by a pass with plain barriers.
-/

namespace Workgroup

/-- The conditions for barriers in a loop, in the order in which they are checked. -/
inductive BarrierCheck where
  | target
  | unsynchronized
  | innermost
  | uniqueExit
  | uniqueHeader
  | uniformHeader
  | conditionalExit
  | uniformCondition
deriving DecidableEq, Repr

namespace BarrierCheck

/-- The checks that look at the function, the loop and the graph alone. -/
def structural : List BarrierCheck :=
  [.target, .unsynchronized, .innermost, .uniqueExit, .uniqueHeader]

/-- All checks, in order. -/
def all : List BarrierCheck :=
  structural ++ [.uniformHeader, .conditionalExit, .uniformCondition]

theorem mem_all (check : BarrierCheck) : check ∈ all := by
  cases check <;> decide

/-- The checks that are made before a check. -/
def before (check : BarrierCheck) : List BarrierCheck := all.takeWhile fun other => other != check

end BarrierCheck

/-- What a barrier pass decides about. -/
structure BarrierCase (σ : Type) where
  accepts : Function → Bool
  context : LoopContext σ
  loop : Loop
  function : Function
  /-- The notes before the oracle is asked anything. -/
  notes : σ

namespace BarrierCase

variable {σ : Type} (given : BarrierCase σ)

/-- The name of the loop in decisions. -/
def label : String := given.function.blockName given.loop.header

/-- The block leaves the loop, and a two-way branch on the condition ends it. -/
def ExitsOn (exiting : BlockId) (condition : Value) : Prop :=
  given.loop.Leaves given.context.graph exiting ∧ ∃ accept reject,
    given.function.terminatorInstruction? exiting = some (.condBranch condition accept reject)

/-- What the oracle answers for the header, and the notes it leaves. -/
def headerAnswer : Bool × σ :=
  given.context.oracle.block given.context.function given.loop.header given.notes

/-- What the oracle answers for a condition after it was asked for the header. -/
def conditionAnswer (condition : Value) : Bool × σ :=
  given.context.oracle.value given.context.function condition given.headerAnswer.2

/-- The condition that a check is about. -/
def Passes : BarrierCheck → Prop
  | .target => given.accepts given.function = true
  | .unsynchronized =>
      ∀ block ∈ given.loop.blocks, given.function.containsBarrier block = false
  | .innermost => given.loop.subLoops = []
  | .uniqueExit =>
      ∃ exiting, ∀ block, given.loop.Leaves given.context.graph block ↔ block = exiting
  | .uniqueHeader =>
      given.loop.EnteredAtHeader given.context.graph given.context.dominators ∧
        given.loop.header < given.function.blocks.size
  | .uniformHeader => given.headerAnswer.1 = true
  | .conditionalExit => ∃ exiting condition, given.ExitsOn exiting condition
  | .uniformCondition =>
      ∃ exiting condition, given.ExitsOn exiting condition ∧
        (given.conditionAnswer condition).1 = true

/-- The decision that goes with a check if it is the first one to fail. -/
def Reports : BarrierCheck → BarrierDecision → Prop
  | .target, decision => decision = .notKernel
  | .unsynchronized, decision => decision = .alreadySynchronized given.label
  | .innermost, decision => decision = .notInnermost given.label given.loop.subLoops.length
  | .uniqueExit, decision =>
      decision = .noUniqueExit given.label (given.loop.exitingBlocks given.context.graph).length
  | .uniqueHeader, decision => decision = .noUniqueHeader given.label
  | .uniformHeader, decision => decision = .headerNotUniform given.label
  | .conditionalExit, decision =>
      ∃ exiting, given.loop.Leaves given.context.graph exiting ∧
        decision = .exitNotConditional given.label (given.function.blockName exiting)
  | .uniformCondition, decision =>
      ∃ exiting condition, given.ExitsOn exiting condition ∧
        decision = .conditionNotUniform given.label (given.function.valueName condition)

/-- The check fails, and those before it pass. -/
structure FirstFailing (check : BarrierCheck) : Prop where
  fails : ¬ given.Passes check
  earlier : ∀ other ∈ check.before, given.Passes other

/-- The decision is that of the first failing check, or all checks pass and it is
that barriers were inserted. -/
inductive Verdict : BarrierDecision → Prop where
  | rejected {check : BarrierCheck} {decision : BarrierDecision} :
      given.FirstFailing check → given.Reports check decision → Verdict decision
  | inserted {exiting : BlockId} :
      (∀ check, given.Passes check) → given.loop.Leaves given.context.graph exiting →
        Verdict (.inserted given.label (given.function.blockName exiting))

/-- The facts that the oracle is asked for, in order: none if a structural check
fails, the uniformity of the header alone if that is denied or the exit is not
conditional, and otherwise that of the header and that of the exit condition. -/
inductive Asks : List Fact → Prop where
  | nothing {check : BarrierCheck} :
      check ∈ BarrierCheck.structural → ¬ given.Passes check → Asks []
  | header : (∀ check ∈ BarrierCheck.structural, given.Passes check) →
      ¬ given.Passes .uniformHeader ∨ ¬ given.Passes .conditionalExit →
        Asks [.block given.loop.header]
  | condition {exiting : BlockId} {condition : Value} :
      (∀ check ∈ BarrierCheck.structural, given.Passes check) → given.Passes .uniformHeader →
        given.ExitsOn exiting condition → Asks [.block given.loop.header, .value condition]

end BarrierCase

/-! ## Queries -/

namespace Oracle

variable {σ : Type}

/-- Asks whether a fact holds. -/
def ask (oracle : Oracle σ) (handle : FuncId) : Fact → σ → Bool × σ
  | .block block => oracle.block handle block
  | .value value => oracle.value handle value

/-- The notes after several queries. -/
def askAll (oracle : Oracle σ) (handle : FuncId) (queries : List Fact) (notes : σ) : σ :=
  queries.foldl (fun notes query => (oracle.ask handle query notes).2) notes

/-- Writes down each query and leaves the answer to another oracle. -/
def transcribing (oracle : Oracle σ) : Oracle (σ × List (FuncId × Fact)) where
  block handle block notes :=
    let answer := oracle.block handle block notes.1
    (answer.1, answer.2, notes.2 ++ [(handle, .block block)])
  value handle value notes :=
    let answer := oracle.value handle value notes.1
    (answer.1, answer.2, notes.2 ++ [(handle, .value value)])

/-- The transcript gets longer by the queries, and the other oracle gets them all. -/
theorem askAll_transcribing (oracle : Oracle σ) (handle : FuncId) (queries : List Fact)
    (notes : σ) (transcript : List (FuncId × Fact)) :
    oracle.transcribing.askAll handle queries (notes, transcript) =
      (oracle.askAll handle queries notes,
        transcript ++ queries.map fun query => (handle, query)) := by
  induction queries generalizing notes transcript with
  | nil => simp [askAll]
  | cons query queries inductionHypothesis =>
      unfold askAll at inductionHypothesis ⊢
      rw [List.foldl_cons, List.foldl_cons, List.map_cons, List.append_cons]
      cases query with
      | block block => exact inductionHypothesis _ _
      | value value => exact inductionHypothesis _ _

end Oracle

/-! ## The checks that are made -/

namespace BarrierCase

variable {σ : Type} {given : BarrierCase σ} {eligible : EligibleLoop} {decision : BarrierDecision}
  {terminator : InstId}

/-- What the structural checks come to. -/
def structuralChecks (given : BarrierCase σ) : Except BarrierDecision EligibleLoop :=
  EligibleLoop.check given.accepts given.loop given.function given.context.graph
    given.context.dominators

/-- What the uniformity checks come to. -/
def uniformityChecks (given : BarrierCase σ) (eligible : EligibleLoop) :
    Except BarrierDecision InstId × σ :=
  eligible.checkUniform given.function given.context.function given.context.oracle given.notes

/-- A check that fails is the first one if all in front of it pass. -/
theorem firstFailing_of_fails {check : BarrierCheck} (fails : ¬ given.Passes check)
    (front : List BarrierCheck) (before_eq : check.before = front)
    (pass : ∀ other ∈ front, given.Passes other) : given.FirstFailing check where
  fails := fails
  earlier := before_eq ▸ pass

/-- The structural checks stop at the first one that fails. -/
theorem firstFailing_of_structuralChecks (stopped : given.structuralChecks = .error decision) :
    ∃ check ∈ BarrierCheck.structural, given.FirstFailing check ∧
      given.Reports check decision := by
  unfold structuralChecks EligibleLoop.check at stopped
  dsimp only at stopped
  split at stopped
  · next rejected =>
    cases stopped
    have fails : ¬ given.Passes .target := by simpa [Passes] using rejected
    exact ⟨.target, by decide, firstFailing_of_fails fails [] rfl (by simp), rfl⟩
  next accepted =>
  have target : given.Passes .target := by simpa [Passes] using accepted
  split at stopped
  · next barrier =>
    cases stopped
    have fails : ¬ given.Passes .unsynchronized := by
      obtain ⟨block, member, isBarrier⟩ := List.any_eq_true.1 barrier
      exact fun none => absurd (none block member) (by simp [isBarrier])
    exact ⟨.unsynchronized, by decide,
      firstFailing_of_fails fails [.target] rfl (by simp [target]), rfl⟩
  next noBarrier =>
  have unsynchronized : given.Passes .unsynchronized := by
    intro block member
    simpa using List.any_eq_false.1 (Bool.eq_false_iff.2 noBarrier) block member
  split at stopped
  · next nested =>
    cases stopped
    have fails : ¬ given.Passes .innermost := by
      simpa [Passes, Loop.isInnermost] using nested
    exact ⟨.innermost, by decide,
      firstFailing_of_fails fails [.target, .unsynchronized] rfl (by simp [target, unsynchronized]),
      rfl⟩
  next notNested =>
  have innermost : given.Passes .innermost := by
    simpa [Passes, Loop.isInnermost] using notNested
  split at stopped
  · next none =>
    cases stopped
    have fails : ¬ given.Passes .uniqueExit := by
      rintro ⟨exiting, only⟩
      have found := EligibleLoop.uniqueExitingBlock?_eq_some_iff.2
        (Loop.exitingBlocks_eq_singleton_iff.2 only)
      exact absurd (none.symm.trans found) nofun
    exact ⟨.uniqueExit, by decide,
      firstFailing_of_fails fails [.target, .unsynchronized, .innermost] rfl
        (by simp [target, unsynchronized, innermost]), rfl⟩
  next exiting found =>
  have uniqueExit : given.Passes .uniqueExit :=
    ⟨exiting, Loop.exitingBlocks_eq_singleton_iff.1
      (EligibleLoop.uniqueExitingBlock?_eq_some_iff.1 found)⟩
  split at stopped
  · next none =>
    cases stopped
    have fails : ¬ given.Passes .uniqueHeader := by
      rintro ⟨entered, present⟩
      rw [Loop.uniqueHeader?_eq_some_iff.2 ⟨rfl, entered⟩, Option.filter_some,
        if_pos (Table.contains_iff.2 present)] at none
      exact absurd none nofun
    exact ⟨.uniqueHeader, by decide,
      firstFailing_of_fails fails [.target, .unsynchronized, .innermost, .uniqueExit] rfl
        (by simp [target, unsynchronized, innermost, uniqueExit]), rfl⟩
  · exact absurd stopped nofun

/-- Loops that get through the structural checks pass them all. -/
theorem passes_of_structuralChecks (through : given.structuralChecks = .ok eligible) :
    (∀ check ∈ BarrierCheck.structural, given.Passes check) ∧
      eligible.header = given.loop.header ∧
      ∀ block, given.loop.Leaves given.context.graph block ↔ block = eligible.exiting := by
  obtain ⟨accepted, unsynchronized, innermost, only, isHeader, present⟩ :=
    EligibleLoop.check_eq_ok_iff.1 through
  obtain ⟨header_eq, entered⟩ := Loop.uniqueHeader?_eq_some_iff.1 isHeader
  have leaves := Loop.exitingBlocks_eq_singleton_iff.1 only
  refine ⟨?_, header_eq, leaves⟩
  rw [header_eq] at present
  simp only [BarrierCheck.structural, List.forall_mem_cons, List.not_mem_nil, false_implies,
    implies_true, and_true]
  exact ⟨accepted, unsynchronized, innermost, ⟨_, leaves⟩, entered, present⟩

/-- The exit branch of a loop with one exiting block is the branch it exits on. -/
theorem exitBranch?_iff (through : given.structuralChecks = .ok eligible) {condition : Value} :
    (∃ terminator, eligible.exitBranch? given.function = some (terminator, condition)) ↔
      ∃ exiting, given.ExitsOn exiting condition := by
  obtain ⟨-, -, leaves⟩ := passes_of_structuralChecks through
  simp only [EligibleLoop.exitBranch?_eq_some_iff, ExitsOn, leaves, exists_eq_left]
  unfold Function.terminatorInstruction?
  simp only [Option.bind_eq_some_iff]
  constructor
  · rintro ⟨terminator, isLast, accept, reject, stored⟩
    exact ⟨accept, reject, terminator, isLast, stored⟩
  · rintro ⟨accept, reject, terminator, isLast, stored⟩
    exact ⟨terminator, isLast, accept, reject, stored⟩

/-- What the oracle is asked and answers when the uniformity checks are made. -/
theorem uniformityChecks_cases (header_eq : eligible.header = given.loop.header) :
    (given.headerAnswer.1 = false ∧ given.uniformityChecks eligible =
      (.error (.headerNotUniform given.label), given.headerAnswer.2)) ∨
    (given.headerAnswer.1 = true ∧ eligible.exitBranch? given.function = none ∧
      given.uniformityChecks eligible =
        (.error (.exitNotConditional given.label (given.function.blockName eligible.exiting)),
          given.headerAnswer.2)) ∨
    ∃ terminator condition, given.headerAnswer.1 = true ∧
      eligible.exitBranch? given.function = some (terminator, condition) ∧
      given.uniformityChecks eligible =
        (if (given.conditionAnswer condition).1 then .ok terminator
          else .error (.conditionNotUniform given.label (given.function.valueName condition)),
          (given.conditionAnswer condition).2) := by
  unfold uniformityChecks EligibleLoop.checkUniform conditionAnswer label
  rw [header_eq]
  cases isUniform : given.headerAnswer.1 with
  | false =>
      refine .inl ⟨rfl, ?_⟩
      unfold headerAnswer at isUniform ⊢
      simp only [isUniform, Bool.not_false, if_true]
  | true =>
      refine .inr ?_
      unfold headerAnswer at isUniform ⊢
      cases branch : eligible.exitBranch? given.function with
      | none =>
          refine .inl ⟨rfl, rfl, ?_⟩
          simp only [isUniform, Bool.not_true, Bool.false_eq_true, if_false]
      | some found =>
          obtain ⟨terminator, condition⟩ := found
          refine .inr ⟨terminator, condition, rfl, rfl, ?_⟩
          simp only [isUniform, Bool.not_true, Bool.false_eq_true, if_false]
          cases (given.context.oracle.value given.context.function condition
            (given.context.oracle.block given.context.function given.loop.header
              given.notes).2).1 <;> rfl

/-- The uniformity checks of a loop that got through the structural ones: what is
asked, and that they stop at the first check that fails. -/
theorem uniformityChecks_verdict (through : given.structuralChecks = .ok eligible) :
    ∃ queries, given.Asks queries ∧
      (given.uniformityChecks eligible).2 =
        given.context.oracle.askAll given.context.function queries given.notes ∧
      match (given.uniformityChecks eligible).1 with
      | .error decision => ∃ check, given.FirstFailing check ∧ given.Reports check decision
      | .ok terminator => (∀ check, given.Passes check) ∧
          ∃ condition, eligible.exitBranch? given.function = some (terminator, condition) := by
  obtain ⟨structural, header_eq, leaves⟩ := passes_of_structuralChecks through
  have branch_iff {condition : Value} :
      (∃ terminator, eligible.exitBranch? given.function = some (terminator, condition)) ↔
        ∃ exiting, given.ExitsOn exiting condition := exitBranch?_iff through
  obtain ⟨denied, result⟩ | ⟨affirmed, noBranch, result⟩ |
    ⟨terminator, condition, affirmed, branch, result⟩ := uniformityChecks_cases header_eq
  · have fails : ¬ given.Passes .uniformHeader := by simp [Passes, denied]
    rw [result]
    exact ⟨_, .header structural (.inl fails), rfl, .uniformHeader,
      firstFailing_of_fails fails _ rfl structural, rfl⟩
  · have uniform : given.Passes .uniformHeader := affirmed
    have fails : ¬ given.Passes .conditionalExit := by
      rintro ⟨exiting, condition, exits⟩
      obtain ⟨terminator, branch⟩ := branch_iff.2 ⟨exiting, exits⟩
      exact absurd (noBranch.symm.trans branch) nofun
    have earlier : ∀ other ∈ BarrierCheck.structural ++ [.uniformHeader], given.Passes other :=
      List.forall_mem_append.2 ⟨structural, by simp [uniform]⟩
    rw [result]
    exact ⟨_, .header structural (.inr fails), rfl, .conditionalExit,
      firstFailing_of_fails fails _ rfl earlier, eligible.exiting, (leaves _).2 rfl, rfl⟩
  · have uniform : given.Passes .uniformHeader := affirmed
    obtain ⟨exiting, exits⟩ := branch_iff.1 ⟨terminator, branch⟩
    have conditional : given.Passes .conditionalExit := ⟨exiting, condition, exits⟩
    rw [result]
    refine ⟨_, .condition structural uniform exits, rfl, ?_⟩
    cases answer : (given.conditionAnswer condition).1 with
    | false =>
        have fails : ¬ given.Passes .uniformCondition := by
          rintro ⟨other, value, otherExits, isUniform⟩
          obtain ⟨last, otherBranch⟩ := branch_iff.2 ⟨other, otherExits⟩
          cases branch.symm.trans otherBranch
          exact absurd (answer.symm.trans isUniform) nofun
        have earlier : ∀ other ∈ BarrierCheck.structural ++ [.uniformHeader, .conditionalExit],
            given.Passes other :=
          List.forall_mem_append.2 ⟨structural, by simp [uniform, conditional]⟩
        exact ⟨.uniformCondition, firstFailing_of_fails fails _ rfl earlier, exiting, condition,
          exits, rfl⟩
    | true =>
        have uniformCondition : given.Passes .uniformCondition :=
          ⟨exiting, condition, exits, answer⟩
        refine ⟨fun check => ?_, condition, branch⟩
        rcases List.mem_append.1 check.mem_all with isStructural | isLater
        · exact structural check isStructural
        · simp only [List.mem_cons, List.not_mem_nil, or_false] at isLater
          rcases isLater with rfl | rfl | rfl
          · exact uniform
          · exact conditional
          · exact uniformCondition

/-- No check that fails goes with inserted barriers. -/
theorem ne_inserted_of_reports {check : BarrierCheck} (reports : given.Reports check decision) :
    ¬ ∃ header exiting, decision = .inserted header exiting := by
  rintro ⟨header, exiting, rfl⟩
  cases check <;> simp [Reports] at reports

end BarrierCase

/-! ## The visit of a loop -/

namespace BarrierPass

variable {σ : Type} {pass : BarrierPass σ} {function : Function} {journal : Journal σ}
  {eligible : EligibleLoop} {terminator : InstId} {condition : Value}

/-- Plain barriers are always placed, and this is what is handed to the sink. -/
theorem place_records (isGroup : pass.factory = .group) (journal : Journal σ)
    (branch : eligible.exitBranch? function = some (terminator, condition))
    (headerPresent : eligible.header < function.blocks.size) :
    (pass.place eligible terminator function journal).changed = true ∧
      (pass.place eligible terminator function journal).journal =
        pass.record function (.inserted (function.blockName eligible.header)
          (function.blockName eligible.exiting)) journal := by
  obtain ⟨i, j, exitFound, -, entryFound, -, placed_eq⟩ :=
    place_inserts isGroup journal branch headerPresent
  have gains : function.Gains [.barrier, .barrier]
      ((function.insertAt eligible.exiting i .barrier).insertAt
        (function.firstNonPhi eligible.header).block j .barrier) :=
    .insert (.of_insert (Function.insert_eq_ok_iff.2 ⟨i, exitFound, rfl, rfl⟩))
      (Function.insert_eq_ok_iff.2 ⟨j, entryFound, rfl, rfl⟩)
  rw [placed_eq, gains.blockName_eq, gains.blockName_eq]
  exact ⟨rfl, rfl⟩

/-- A structural check that fails ends the visit before the oracle is asked. -/
theorem runOnLoop_of_structuralChecks {given : BarrierCase σ} {decision : BarrierDecision}
    {τ : Type} {pass : BarrierPass τ} (accepts_eq : pass.accepts = given.accepts)
    (stopped : given.structuralChecks = .error decision) {context : LoopContext τ}
    (graph_eq : context.graph = given.context.graph)
    (dominators_eq : context.dominators = given.context.dominators) (journal : Journal τ) :
    pass.runOnLoop context given.loop given.function journal =
      ⟨false, given.function, pass.record given.function decision journal⟩ := by
  unfold BarrierCase.structuralChecks at stopped
  unfold runOnLoop checkEligibility
  rw [accepts_eq, graph_eq, dominators_eq, stopped]

/-- With plain barriers a visit hands exactly one decision to the sink, with the
notes that the queries leave. -/
theorem runOnLoop_verdict (isGroup : pass.factory = .group) (context : LoopContext σ)
    (loop : Loop) (function : Function) (journal : Journal σ) :
    let given : BarrierCase σ := ⟨pass.accepts, context, loop, function, journal.notes⟩
    let outcome := pass.runOnLoop context loop function journal
    ∃ decision queries, given.Verdict decision ∧ given.Asks queries ∧
      outcome.journal = pass.record function decision
        (journal.setNotes (context.oracle.askAll context.function queries journal.notes)) ∧
      (outcome.changed = true ↔ ∃ header exiting, decision = .inserted header exiting) := by
  intro given outcome
  cases checked : given.structuralChecks with
  | error decision =>
      obtain ⟨check, member, first, reports⟩ :=
        BarrierCase.firstFailing_of_structuralChecks checked
      have outcome_eq : outcome = ⟨false, function, pass.record function decision journal⟩ :=
        runOnLoop_of_structuralChecks rfl checked rfl rfl journal
      rw [outcome_eq]
      exact ⟨decision, [], .rejected first reports, .nothing member first.fails, rfl,
        iff_of_false nofun (BarrierCase.ne_inserted_of_reports reports)⟩
  | ok eligible =>
      obtain ⟨-, header_eq, leaves⟩ := BarrierCase.passes_of_structuralChecks checked
      obtain ⟨queries, asks, notes_eq, result⟩ := BarrierCase.uniformityChecks_verdict checked
      have headerPresent : eligible.header < function.blocks.size :=
        (EligibleLoop.check_eq_ok_iff.1 checked).2.2.2.2.2
      have outcome_eq : outcome = pass.tryInsert context eligible function journal := by
        unfold BarrierCase.structuralChecks at checked
        simp only [outcome, runOnLoop, checkEligibility, given] at checked ⊢
        rw [checked]
      rw [outcome_eq]
      unfold tryInsert
      dsimp only
      unfold BarrierCase.uniformityChecks at notes_eq result
      simp only [given] at notes_eq result
      rw [notes_eq]
      cases stopped : (eligible.checkUniform function context.function context.oracle
          journal.notes).1 with
      | error decision =>
          rw [stopped] at result
          obtain ⟨check, first, reports⟩ := result
          exact ⟨decision, queries, .rejected first reports, asks, rfl,
            iff_of_false nofun (BarrierCase.ne_inserted_of_reports reports)⟩
      | ok terminator =>
          rw [stopped] at result
          obtain ⟨passes, condition, branch⟩ := result
          obtain ⟨changed, recorded⟩ := place_records isGroup
            (journal.setNotes (context.oracle.askAll context.function queries journal.notes))
            branch headerPresent
          refine ⟨_, queries, .inserted passes ((leaves _).2 rfl), asks, ?_,
            iff_of_true changed ⟨_, _, rfl⟩⟩
          rw [header_eq] at recorded
          exact recorded

end BarrierPass

/-! ## Visits under transcription -/

/-- The context with an oracle that writes down what it is asked. -/
def LoopContext.transcribing {σ : Type} (context : LoopContext σ) :
    LoopContext (σ × List (FuncId × Fact)) where
  function := context.function
  graph := context.graph
  dominators := context.dominators
  forest := context.forest
  oracle := context.oracle.transcribing

namespace BarrierCase

variable {σ : Type} {given : BarrierCase σ} {decision : BarrierDecision}
  {transcript : List (FuncId × Fact)}

/-- The case with a transcript behind the notes. -/
def transcribed (given : BarrierCase σ) (transcript : List (FuncId × Fact)) :
    BarrierCase (σ × List (FuncId × Fact)) where
  accepts := given.accepts
  context := given.context.transcribing
  loop := given.loop
  function := given.function
  notes := (given.notes, transcript)

/-- The case with another oracle. -/
def withOracle (given : BarrierCase σ) (oracle : Oracle σ) : BarrierCase σ :=
  { given with context := { given.context with oracle := oracle } }

/-- The visit by a pass with plain barriers, whose queries are written down behind
a transcript. -/
def visit (given : BarrierCase σ) (sink : DecisionSink (σ × List (FuncId × Fact)))
    (log : List LogEntry) (transcript : List (FuncId × Fact)) :
    LoopOutcome (σ × List (FuncId × Fact)) :=
  (⟨given.accepts, .group, some sink⟩ : BarrierPass (σ × List (FuncId × Fact))).runOnLoop
    given.context.transcribing given.loop given.function ⟨log, given.notes, transcript⟩

/-- The transcript has no part in the checks. -/
theorem passes_transcribed (given : BarrierCase σ) (transcript : List (FuncId × Fact)) :
    (given.transcribed transcript).Passes = given.Passes := by
  funext check
  cases check <;> rfl

theorem reports_transcribed (given : BarrierCase σ) (transcript : List (FuncId × Fact)) :
    (given.transcribed transcript).Reports = given.Reports := by
  funext check decision
  cases check <;> rfl

theorem Verdict.of_transcribed (verdict : (given.transcribed transcript).Verdict decision) :
    given.Verdict decision := by
  cases verdict with
  | rejected first reports =>
      obtain ⟨fails, earlier⟩ := first
      rw [passes_transcribed] at fails earlier
      rw [reports_transcribed] at reports
      exact .rejected ⟨fails, earlier⟩ reports
  | inserted passes leaves =>
      rw [passes_transcribed] at passes
      exact .inserted passes leaves

theorem Asks.of_transcribed {queries : List Fact}
    (asks : (given.transcribed transcript).Asks queries) : given.Asks queries := by
  cases asks with
  | nothing isStructural fails =>
      rw [passes_transcribed] at fails
      exact .nothing isStructural fails
  | header structural fails =>
      rw [passes_transcribed] at structural fails
      exact .header structural fails
  | condition structural uniform exits =>
      rw [passes_transcribed] at structural uniform
      exact .condition structural uniform exits

/-- A visit decides once and asks in order.  Whatever the loop, the function, the
context and its oracle, whatever functions are selected and whatever the sink
does, the sink gets one decision: that barriers were inserted exactly if the
visit reports a change, and otherwise that of the first failing check.  The
oracle is asked for nothing if a structural check fails, for the header if it is
denied or the exit is not conditional, and otherwise for the header and the exit
condition; nothing else is written down.  If a structural check fails, the
outcome is the same with every oracle. -/
theorem visit_decides_once (given : BarrierCase σ)
    (sink : DecisionSink (σ × List (FuncId × Fact))) (log : List LogEntry)
    (transcript : List (FuncId × Fact)) :
    (∃ decision queries notes, given.Verdict decision ∧ given.Asks queries ∧
      (given.visit sink log transcript).journal =
        sink given.function.name decision ⟨log, notes,
          transcript ++ queries.map fun query => (given.context.function, query)⟩ ∧
      ((given.visit sink log transcript).changed = true ↔
        ∃ header exiting, decision = .inserted header exiting)) ∧
    ∀ check ∈ BarrierCheck.structural, ¬ given.Passes check →
      ∀ oracle, (given.withOracle oracle).visit sink log transcript =
        given.visit sink log transcript := by
  constructor
  · have isGroup : (⟨given.accepts, .group, some sink⟩ :
        BarrierPass (σ × List (FuncId × Fact))).factory = .group := rfl
    obtain ⟨decision, queries, verdict, asks, journal_eq, changed_iff⟩ :=
      BarrierPass.runOnLoop_verdict isGroup given.context.transcribing given.loop given.function
        ⟨log, given.notes, transcript⟩
    have notes_eq := given.context.oracle.askAll_transcribing given.context.function queries
      given.notes transcript
    refine ⟨decision, queries,
      given.context.oracle.askAll given.context.function queries given.notes,
      verdict.of_transcribed, asks.of_transcribed, journal_eq.trans ?_, changed_iff⟩
    exact congrArg (fun notes => sink given.function.name decision ⟨log, notes⟩) notes_eq
  · intro check isStructural fails oracle
    cases checked : given.structuralChecks with
    | ok eligible =>
        obtain ⟨structural, -, -⟩ := passes_of_structuralChecks checked
        exact absurd (structural check isStructural) fails
    | error decision =>
        have accepts_eq : (⟨given.accepts, .group, some sink⟩ :
            BarrierPass (σ × List (FuncId × Fact))).accepts = given.accepts := rfl
        exact (BarrierPass.runOnLoop_of_structuralChecks accepts_eq checked rfl rfl _).trans
          (BarrierPass.runOnLoop_of_structuralChecks accepts_eq checked rfl rfl _).symm

end BarrierCase

namespace PhiSpin

/-- The loop of a function that is not selected. -/
def refused : BarrierCase Nat := ⟨fun _ => false, context, loop, kernel, 0⟩

/-- The first check fails: one decision, no query, and the same with every oracle. -/
theorem refused_unasked : BarrierCheck.target ∈ BarrierCheck.structural ∧
    ¬ refused.Passes .target ∧
    (refused.visit .log [] []).journal = ⟨[.decided "k" .notKernel], 0, []⟩ ∧
    ∀ oracle, (refused.withOracle oracle).visit .log [] [] = refused.visit .log [] [] := by
  have isStructural : BarrierCheck.target ∈ BarrierCheck.structural := by decide
  have fails : ¬ refused.Passes .target := nofun
  have same := (refused.visit_decides_once .log [] []).2 .target isStructural fails
  exact ⟨isStructural, fails, by decide +kernel, same⟩

/-- All checks pass: one decision and both queries, in order. -/
example : ((⟨fun _ => true, context, loop, kernel, 0⟩ : BarrierCase Nat).visit .log [] []).journal =
    ⟨[.decided "k" (.inserted "spin" "spin")], 2, [(0, .block 1), (0, .value (.result 1))]⟩ := by
  decide +kernel

end PhiSpin

end Workgroup

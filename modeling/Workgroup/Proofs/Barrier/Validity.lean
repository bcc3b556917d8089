import Workgroup.Proofs.Barrier.PreservedAnalyses
import Workgroup.Proofs.Barrier.Settled
import Workgroup.Proofs.Function.StructuralFaults

/-!
Contract: a function without faults has none after barriers are inserted.

What validation asks of a block does not mention positions: phis are never
behind anything else, terminators are never in front of anything, and what is
placed, named and read exists.  So a barrier can be put in front of any handle
that does not lead to a phi, and both places of the pass are of this kind, be
they in one block or in two.  Nothing is assumed about how often a handle is
placed.

Owns:
- arranged lists of handles and the absence of faults;
- one more barrier in a function without faults;
- modules that verify cleanly, and runs of barrier passes on them.
-/

namespace Workgroup

namespace Function

variable {function : Function} {block header : BlockId} {handle : InstId} {index : Nat}
  {front back handles : List InstId} {instruction : Instruction} {afterNonPhi : Bool}

/-- Whether a handle leads to a terminator. -/
def leadsToTerminator (function : Function) (handle : InstId) : Bool :=
  (function.instructions.get? handle).any Instruction.isTerminator

/-- The handle leads to an instruction whose targets and operands exist. -/
def Intact (function : Function) (handle : InstId) : Prop :=
  ∃ instruction, function.instructions.get? handle = some instruction ∧
    (∀ target ∈ instruction.successors, target < function.blocks.size) ∧
    ∀ value ∈ instruction.operands, function.HasValue value

/-- Phis come first, a terminator at most last, and everything is intact. -/
structure Arranged (function : Function) (handles : List InstId) : Prop where
  intact : ∀ handle ∈ handles, function.Intact handle
  phisFirst : handles.Pairwise fun earlier later =>
    function.leadsToPhi later = true → function.leadsToPhi earlier = true
  terminatorLast : ∀ handle ∈ handles.dropLast, function.leadsToTerminator handle = false

/-! ## The absence of faults -/

theorem arranged_nil : function.Arranged [] where
  intact := fun _ member => absurd member List.not_mem_nil
  phisFirst := .nil
  terminatorLast := fun _ member => absurd member List.not_mem_nil

theorem arranged_cons_iff : function.Arranged (handle :: handles) ↔
    function.Intact handle ∧
      (∀ later ∈ handles, function.leadsToPhi later = true → function.leadsToPhi handle = true) ∧
      (function.leadsToTerminator handle = true → handles = []) ∧ function.Arranged handles := by
  constructor
  · intro arranged
    obtain ⟨intact, phisFirst, terminatorLast⟩ := arranged
    obtain ⟨headIntact, restIntact⟩ := List.forall_mem_cons.1 intact
    obtain ⟨headFirst, restFirst⟩ := List.pairwise_cons.1 phisFirst
    cases handles with
    | nil => exact ⟨headIntact, headFirst, fun _ => rfl, arranged_nil⟩
    | cons next rest =>
        rw [List.dropLast_cons_of_ne_nil (List.cons_ne_nil next rest)] at terminatorLast
        obtain ⟨headLast, restLast⟩ := List.forall_mem_cons.1 terminatorLast
        exact ⟨headIntact, headFirst, fun ends => absurd (headLast.symm.trans ends) nofun,
          restIntact, restFirst, restLast⟩
  · rintro ⟨headIntact, headFirst, headLast, restIntact, restFirst, restLast⟩
    refine ⟨List.forall_mem_cons.2 ⟨headIntact, restIntact⟩,
      List.pairwise_cons.2 ⟨headFirst, restFirst⟩, ?_⟩
    cases handles with
    | nil => exact fun _ member => absurd member List.not_mem_nil
    | cons next rest =>
        rw [List.dropLast_cons_of_ne_nil (List.cons_ne_nil next rest)]
        refine List.forall_mem_cons.2 ⟨Bool.eq_false_iff.2 fun ends => ?_, restLast⟩
        exact List.cons_ne_nil next rest (headLast ends)

/-- The checker carries along whether it has passed another instruction than a
phi; from there on no phi may follow. -/
theorem placementFaults_eq_nil_iff_arranged :
    function.placementFaults block afterNonPhi handles = [] ↔
      function.Arranged handles ∧
        (afterNonPhi = true → ∀ handle ∈ handles, function.leadsToPhi handle = false) := by
  induction handles generalizing afterNonPhi with
  | nil => simp [placementFaults, arranged_nil]
  | cons first rest inductionHypothesis =>
      rw [arranged_cons_iff]
      unfold placementFaults
      cases stored : function.instructions.get? first with
      | none => simp [Intact, stored]
      | some instruction =>
          simp only [List.append_eq_nil_iff, inductionHypothesis, instructionFaults_eq_nil_iff,
            List.isEmpty_iff, Intact, leadsToPhi, leadsToTerminator, stored, Option.some.injEq,
            exists_eq_left', Option.any_some, List.forall_mem_cons]
          cases instruction.isPhi <;> cases afterNonPhi <;> simp <;> tauto

/-- A function has no faults exactly if each block is arranged and ends with a
terminator. -/
theorem faults_eq_nil_iff_arranged : function.faults = [] ↔
    ∀ block < function.blocks.size, function.Arranged (function.placed block) ∧
      (function.placed block).getLast?.any function.leadsToTerminator = true := by
  rw [faults_eq_nil_iff]
  refine forall₂_congr fun block _ => ?_
  have ends_iff : (function.terminator? block).isSome = true ↔
      (function.placed block).getLast?.any function.leadsToTerminator = true := by
    unfold terminator?
    rw [Option.isSome_filter]
    rfl
  rw [blockFaults_eq_nil_iff, ← exists_terminator_iff, ends_iff,
    placementFaults_eq_nil_iff_arranged, and_comm]
  simp

/-! ## One more barrier -/

theorem leadsToPhi_insertAt (stored : handle < function.instructions.size) :
    (function.insertAt block index instruction).leadsToPhi handle = function.leadsToPhi handle :=
  congrArg (Option.any Instruction.isPhi) (Table.get?_append_of_lt instruction stored)

theorem leadsToTerminator_insertAt (stored : handle < function.instructions.size) :
    (function.insertAt block index instruction).leadsToTerminator handle =
      function.leadsToTerminator handle :=
  congrArg (Option.any Instruction.isTerminator) (Table.get?_append_of_lt instruction stored)

theorem Intact.lt_size (intact : function.Intact handle) : handle < function.instructions.size := by
  obtain ⟨instruction, stored, -⟩ := intact
  exact Table.get?_isSome_iff.1 (by rw [stored]; rfl)

/-- What exists still exists after an insertion. -/
theorem Intact.insertAt (intact : function.Intact handle) :
    (function.insertAt block index instruction).Intact handle := by
  have sizeBlocks : (function.insertAt block index instruction).blocks.size =
      function.blocks.size := Table.size_modify _ _ _
  have sizeInstructions : (function.insertAt block index instruction).instructions.size =
      function.instructions.size + 1 := Table.size_append _ _
  have below := intact.lt_size
  obtain ⟨found, stored, targets, values⟩ := intact
  refine ⟨found, (Table.get?_append_of_lt instruction below).trans stored, ?_, ?_⟩
  · rw [sizeBlocks]
    exact targets
  · intro value member
    have isPresent := values value member
    cases value with
    | result other =>
        show other < (function.insertAt block index instruction).instructions.size
        rw [sizeInstructions]
        exact Nat.lt_succ_of_lt isPresent
    | argument position => exact isPresent
    | constant literal => trivial

/-- A list is as arranged after an insertion elsewhere as it was before. -/
theorem Arranged.insertAt (arranged : function.Arranged handles) :
    (function.insertAt block index instruction).Arranged handles where
  intact := fun handle member => (arranged.intact handle member).insertAt
  phisFirst := by
    refine arranged.phisFirst.imp_of_mem fun earlierMember laterMember phisFirst => ?_
    rw [leadsToPhi_insertAt (arranged.intact _ earlierMember).lt_size,
      leadsToPhi_insertAt (arranged.intact _ laterMember).lt_size]
    exact phisFirst
  terminatorLast := by
    intro handle member
    rw [leadsToTerminator_insertAt (arranged.intact handle (List.dropLast_subset _ member)).lt_size]
    exact arranged.terminatorLast handle member

/-- A handle that leads to neither a phi nor a terminator may stand in front of
one that does not lead to a phi. -/
theorem Arranged.insert {new : InstId} (arranged : function.Arranged (front ++ handle :: back))
    (intact : function.Intact new) (newNotPhi : function.leadsToPhi new = false)
    (newNotTerminator : function.leadsToTerminator new = false)
    (notPhi : function.leadsToPhi handle = false) :
    function.Arranged (front ++ new :: handle :: back) := by
  induction front with
  | nil =>
      refine arranged_cons_iff.2 ⟨intact, fun later member isPhi => ?_,
        fun ends => absurd (newNotTerminator.symm.trans ends) nofun, arranged⟩
      -- What follows the handle leads to no phi, as the handle itself does not.
      obtain ⟨-, phisFirst, -, -⟩ := arranged_cons_iff.1 arranged
      rcases List.mem_cons.1 member with rfl | inBack
      · exact absurd (notPhi.symm.trans isPhi) nofun
      · exact absurd (notPhi.symm.trans (phisFirst later inBack isPhi)) nofun
  | cons head front inductionHypothesis =>
      rw [List.cons_append, arranged_cons_iff] at arranged ⊢
      obtain ⟨headIntact, phisFirst, headLast, rest⟩ := arranged
      refine ⟨headIntact, fun later member isPhi => ?_, fun ends => ?_, inductionHypothesis rest⟩
      · rcases List.mem_append.1 member with inFront | inBack
        · exact phisFirst later (List.mem_append_left _ inFront) isPhi
        · rcases List.mem_cons.1 inBack with rfl | inBack
          · exact absurd (newNotPhi.symm.trans isPhi) nofun
          · exact phisFirst later (List.mem_append_right _ inBack) isPhi
      · exact absurd (headLast ends) (by simp)

/-- A barrier in front of an instruction that is not a phi brings no fault. -/
theorem faults_insertAt (noFaults : function.faults = [])
    (member : handle ∈ function.placed block) (notPhi : function.leadsToPhi handle = false)
    (found : function.position (.before block handle) = .ok index) :
    (function.insertAt block index .barrier).faults = [] := by
  rw [faults_eq_nil_iff_arranged] at noFaults ⊢
  intro other present
  have present : other < function.blocks.size := by
    rw [← Table.size_modify function.blocks block]
    exact present
  obtain ⟨arranged, ends⟩ := noFaults other present
  obtain ⟨last, isLast, isTerminator⟩ := (Option.any_eq_true _ _).1 ends
  have lastStored := (arranged.intact last (List.mem_of_getLast? isLast)).lt_size
  have stillEnds : (some last).any
      (function.insertAt block index .barrier).leadsToTerminator = true := by
    rw [Option.any_some, leadsToTerminator_insertAt lastStored]
    exact isTerminator
  rw [placed_insertAt (function.lt_size_of_placed member)]
  split
  · next same =>
    subst same
    obtain ⟨front, back, listed, fresh⟩ := List.eq_append_cons_of_mem member
    have isIndex : front.length = index :=
      Except.ok.inj ((position_before listed fresh).symm.trans found)
    rw [listed] at arranged isLast ⊢
    rw [← isIndex, insertIdx_append]
    have newIntact : (function.insertAt block front.length .barrier).Intact
        function.instructions.size :=
      ⟨.barrier, Table.get?_append_size _ _, fun _ none => absurd none List.not_mem_nil,
        fun _ none => absurd none List.not_mem_nil⟩
    have newIsBarrier : (function.insertAt block front.length .barrier).instructions.get?
        function.instructions.size = some .barrier := Table.get?_append_size _ _
    have stillNotPhi :
        (function.insertAt block front.length .barrier).leadsToPhi handle = false := by
      rw [leadsToPhi_insertAt (arranged.intact handle (by simp)).lt_size]
      exact notPhi
    refine ⟨arranged.insertAt.insert newIntact ?_ ?_ stillNotPhi, ?_⟩
    · unfold leadsToPhi
      rw [newIsBarrier]
      rfl
    · unfold leadsToTerminator
      rw [newIsBarrier]
      rfl
    · have sameLast : (front ++ function.instructions.size :: handle :: back).getLast? =
          some last := by
        rw [← isLast]
        simp [List.getLast?_append, List.getLast?_cons_cons]
      rw [sameLast, isIndex]
      exact stillEnds
  · rw [isLast]
    exact ⟨arranged.insertAt, stillEnds⟩

/-- Behind the leading phis of a block without faults stands an instruction, at the
latest its terminator. -/
theorem exists_firstNonPhi (noFaults : function.faults = [])
    (present : header < function.blocks.size) :
    ∃ first, function.firstNonPhi header = .before header first ∧
      first ∈ function.placed header ∧ function.leadsToPhi first = false := by
  obtain ⟨-, ends⟩ := faults_eq_nil_iff_arranged.1 noFaults header present
  obtain ⟨last, isLast, isTerminator⟩ := (Option.any_eq_true _ _).1 ends
  unfold firstNonPhi
  split
  · next first found =>
    have notPhi := List.find?_some found
    rw [Bool.not_eq_true'] at notPhi
    exact ⟨first, rfl, List.mem_of_find?_eq_some found, notPhi⟩
  · next none =>
    have isPhi := List.find?_eq_none.1 none last (List.mem_of_getLast? isLast)
    rw [Bool.not_eq_true', Bool.not_eq_false] at isPhi
    have notTerminator := Synchronizes.not_isTerminator_of_leadsToPhi isPhi
    exact absurd (notTerminator.symm.trans isTerminator) nofun

end Function

/-! ## Runs of barrier passes -/

namespace BarrierPass

variable {σ : Type} {pass : BarrierPass σ} {context : LoopContext σ} {loop : Loop}
  {function : Function} {journal : Journal σ} {eligible : EligibleLoop} {terminator : InstId}

/-- The pair of barriers brings no fault, also if both are put into one block. -/
theorem place_faults (isGroup : pass.factory = .group) (noFaults : function.faults = [])
    {condition : Value}
    (branch : eligible.exitBranch? function = some (terminator, condition))
    (headerPresent : eligible.header < function.blocks.size) :
    (pass.place eligible terminator function journal).function.faults = [] := by
  obtain ⟨isLast, notPhi⟩ := last_of_exitBranch? branch
  have member : terminator ∈ function.placed eligible.exiting := List.mem_of_getLast? isLast
  obtain ⟨i, j, exitFound, inside, entryFound, -, placed_eq⟩ :=
    place_inserts isGroup journal branch headerPresent
  have onceNoFaults := Function.faults_insertAt noFaults member notPhi exitFound
  have first := Function.keepsControl_insertAt (function.lt_size_of_placed member) (.inl inside)
  obtain ⟨next, isPlace, nextMember, nextNotPhi⟩ :=
    Function.exists_firstNonPhi noFaults headerPresent
  rw [isPlace] at entryFound placed_eq
  rw [placed_eq]
  refine Function.faults_insertAt onceNoFaults (first.placed_subset _ nextMember) ?_ entryFound
  have nextStored := ((Function.faults_eq_nil_iff_arranged.1 noFaults _ headerPresent).1.intact
    next nextMember).lt_size
  rw [Function.leadsToPhi_insertAt nextStored]
  exact nextNotPhi

/-- Whatever loop, context and oracle a pass with plain barriers is given, a
function without faults has none afterwards. -/
theorem runOnLoop_faults (isGroup : pass.factory = .group) (noFaults : function.faults = []) :
    (pass.runOnLoop context loop function journal).function.faults = [] := by
  rcases pass.kept_or_placed context loop function journal with
    ⟨-, kept⟩ | ⟨eligible, terminator, notes, checked, isUniform, placed⟩
  · rw [kept]
    exact noFaults
  obtain ⟨-, condition, branch, -⟩ := EligibleLoop.checkUniform_eq_ok_iff.1 isUniform
  obtain ⟨-, -, -, -, -, headerPresent⟩ := EligibleLoop.check_eq_ok_iff.1 checked
  rw [placed]
  exact place_faults isGroup noFaults branch headerPresent

/-- The calls of a pass with plain barriers keep functions without faults. -/
theorem causes_noFaults (isGroup : pass.factory = .group) :
    pass.toLoopPass.Causes (fun function => function.faults = [])
      (fun _ _ after => after.faults = []) where
  preserves := rfl
  keeps := by
    intro context loop function journal _ unchanged
    rcases runOnLoop_eq_or_keepsControl isGroup with kept | ⟨changed, -⟩
    · exact kept
    · exact absurd (changed.symm.trans unchanged) nofun
  changes := fun _ noFaults _ _ _ _ => runOnLoop_faults isGroup noFaults

end BarrierPass

theorem composes_noFaults :
    Composes (fun function => function.faults = []) (fun _ _ after => after.faults = []) where
  nothing := id
  sound_after := fun _ => id
  trans := fun _ _ => id

section Runs

variable {σ : Type}

/-- The validation pass has nothing to write down. -/
def PassState.VerifiesCleanly (state : PassState σ) : Prop :=
  (ModulePass.verify.run state).state.journal = state.journal

theorem PassState.verifiesCleanly_iff {state : PassState σ} :
    state.VerifiesCleanly ↔ state.module.All fun function => function.faults = [] := by
  have entries_iff : state.VerifiesCleanly ↔
      ∀ function ∈ state.module.functions.entries, function.faults = [] := by
    unfold VerifiesCleanly ModulePass.verify Journal.writeAll
    obtain ⟨module, analyses, log, notes⟩ := state
    simp [List.flatMap_eq_nil_iff]
  rw [entries_iff]
  constructor
  · intro noFaults handle function isFunction
    exact noFaults function (List.mem_of_getElem? isFunction)
  · intro noFaults function member
    obtain ⟨handle, isFunction⟩ := List.mem_iff_getElem?.1 member
    exact noFaults isFunction

/-- Plain barriers bring no fault.  A function on which validation reports nothing
is one after a visit of any loop in any context with any oracle, whatever
functions are selected.  So a module that verifies cleanly does so after any
pipeline of built-in passes. -/
theorem Registry.builtin_verifiesCleanly :
    (∀ (accepts : Function → Bool) (sink : Option (DecisionSink σ)) (context : LoopContext σ)
      (loop : Loop) (function : Function) (journal : Journal σ), function.faults = [] →
      ((⟨accepts, .group, sink⟩ : BarrierPass σ).runOnLoop context loop function
        journal).function.faults = []) ∧
    ∀ {names : List String} (options : PassOptions) (journal : Journal σ),
      (∀ name ∈ names, ((builtin : Registry σ).find? name).isSome) →
      ∃ pipeline written, builtin.build names options journal = .ok (pipeline, written) ∧
        ∀ state : PassState σ, state.VerifiesCleanly →
          (pipeline.run state).state.VerifiesCleanly := by
  refine ⟨fun _ _ _ _ _ _ => BarrierPass.runOnLoop_faults rfl, fun options journal known => ?_⟩
  obtain ⟨pipeline, written, built, areBuiltin⟩ := build_builtin options journal known
  refine ⟨pipeline, written, built, fun state clean => ?_⟩
  rw [PassState.verifiesCleanly_iff] at clean ⊢
  have causes : ∀ stage ∈ pipeline.stages, stage.Causes (fun function => function.faults = [])
      (fun _ _ after => after.faults = []) := by
    intro stage member
    cases stage with
    | loops passes =>
        intro pass listed
        rw [(areBuiltin _ member).2 pass listed]
        exact BarrierPass.causes_noFaults rfl
    | module pass => exact fun state => (areBuiltin _ member state).2.1
  have affected := Pipeline.run_affects composes_noFaults pipeline causes state clean
  intro handle function isFunction
  exact affected.all composes_noFaults clean isFunction

end Runs

namespace PhiSpin

/-- The header and the condition of the branch are uniform. -/
def facts : FactTable :=
  IndexMap.empty.insert 0 ((Facts.empty.markBlock 1).markValue (.result 1))

/-- A block of a phi and a branch gets both barriers and stays without faults. -/
theorem stays_clean :
    kernel.faults = [] ∧ (pass.runOnLoop context loop kernel (.start 0)).changed = true ∧
    (pass.runOnLoop context loop kernel (.start 0)).function.faults = [] ∧
    (∀ name ∈ [BarrierPass.name, "verify"],
      ((Registry.builtin : Registry Nat).find? name).isSome) ∧
    ∃ pipeline written, Registry.builtin.build [BarrierPass.name, "verify"] .standard (.start 0) =
        .ok (pipeline, written) ∧
      let begins : PassState Nat := ⟨⟨⟨[kernel]⟩⟩, .supplied (.ofFacts facts), written⟩
      begins.VerifiesCleanly ∧ (pipeline.run begins).changed = true ∧
        (pipeline.run begins).state.VerifiesCleanly := by
  obtain ⟨visits, runs⟩ := @Registry.builtin_verifiesCleanly Nat
  have noFaults : kernel.faults = [] := by decide
  have known : ∀ name ∈ [BarrierPass.name, "verify"],
      ((Registry.builtin : Registry Nat).find? name).isSome := by decide
  obtain ⟨pipeline, written, built, keeps⟩ := runs .standard (.start 0) known
  have clean : (⟨⟨⟨[kernel]⟩⟩, .supplied (.ofFacts facts), written⟩ :
      PassState Nat).VerifiesCleanly := by
    cases built
    rfl
  refine ⟨noFaults, by decide +kernel, visits _ _ context loop kernel _ noFaults, known, pipeline,
    written, built, clean, ?_, keeps _ clean⟩
  cases built
  decide +kernel

end PhiSpin

end Workgroup

import Workgroup.Proofs.Barrier.LoopDecision

/-!
Contract: what added barriers keep, and why a refusal stands.

A barrier ends no block and is never put behind a terminator, so terminators
and edges stay as they were and barriers only come to be.  Each reason for
leaving a loop alone rests on these, so it stands whatever other loops are given
afterwards; a loop that was given barriers is refused because it has them.
Nothing is assumed about the placement of handles.

Owns:
- functions whose control flow is kept while barriers are added;
- the insertion of the plain factory as such a change;
- refused loops, and the visit of a loop, which leaves it refused.
-/

namespace Workgroup

namespace Function

variable {function before middle after changed : Function} {block other header : BlockId}
  {handle terminator : InstId} {index : Nat} {instruction : Instruction}

/-! ## Changes that keep the control flow -/

/-- What a block ends with, if that is a terminator. -/
theorem terminatorInstruction?_eq_filter (function : Function) (block : BlockId) :
    function.terminatorInstruction? block =
      ((function.placed block).getLast?.bind function.instructions.get?).filter
        Instruction.isTerminator := by
  unfold terminatorInstruction? terminator?
  cases (function.placed block).getLast? with
  | none => rfl
  | some last =>
      cases stored : function.instructions.get? last with
      | none => simp [Option.filter, stored]
      | some instruction =>
          cases isTerminator : instruction.isTerminator <;>
            simp [Option.filter, stored, isTerminator]

/-- The second function has the blocks and the terminators of the first one, and
everything placed there is still placed where it was. -/
structure KeepsControl (before after : Function) : Prop where
  name_eq : after.name = before.name
  kind_eq : after.kind = before.kind
  size_blocks : after.blocks.size = before.blocks.size
  terminator_eq : ∀ block,
    after.terminatorInstruction? block = before.terminatorInstruction? block
  placed_subset : ∀ block, before.placed block ⊆ after.placed block
  stored : ∀ {handle instruction}, before.instructions.get? handle = some instruction →
    after.instructions.get? handle = some instruction

namespace KeepsControl

theorem refl (function : Function) : function.KeepsControl function where
  name_eq := rfl
  kind_eq := rfl
  size_blocks := rfl
  terminator_eq := fun _ => rfl
  placed_subset := fun _ => List.Subset.refl _
  stored := id

theorem trans (first : before.KeepsControl middle) (second : middle.KeepsControl after) :
    before.KeepsControl after where
  name_eq := second.name_eq.trans first.name_eq
  kind_eq := second.kind_eq.trans first.kind_eq
  size_blocks := second.size_blocks.trans first.size_blocks
  terminator_eq := fun block => (second.terminator_eq block).trans (first.terminator_eq block)
  placed_subset := fun block =>
    List.Subset.trans (first.placed_subset block) (second.placed_subset block)
  stored := fun isStored => second.stored (first.stored isStored)

theorem graph_eq (keeps : before.KeepsControl after) : after.graph = before.graph :=
  graph_eq_of_terminators keeps.size_blocks keeps.terminator_eq

/-- Barriers stay. -/
theorem containsBarrier (keeps : before.KeepsControl after)
    (barrier : before.containsBarrier block = true) : after.containsBarrier block = true := by
  obtain ⟨handle, member, isBarrier⟩ := List.any_eq_true.1 barrier
  obtain ⟨instruction, isStored, isBarrier⟩ := (Option.any_eq_true _ _).1 isBarrier
  refine List.any_eq_true.2 ⟨handle, keeps.placed_subset block member, ?_⟩
  rw [keeps.stored isStored]
  exact isBarrier

end KeepsControl

/-! ## One barrier -/

/-- A barrier at the end of the storage is no terminator, whether or not its
handle was in use before. -/
theorem filter_isTerminator_append (instructions : Table Instruction) (handle : InstId) :
    ((instructions.append .barrier).get? handle).filter Instruction.isTerminator =
      (instructions.get? handle).filter Instruction.isTerminator := by
  rw [Table.get?_append]
  split
  · next isNew =>
    have missing : instructions.get? handle = none := Table.get?_eq_none_iff.2 isNew.ge
    rw [missing]
    rfl
  · rfl

/-- A barrier in front of something, or anywhere in a block without a
terminator, keeps the control flow. -/
theorem keepsControl_insertAt (present : block < function.blocks.size)
    (place : index < (function.placed block).length ∨
      function.terminatorInstruction? block = none) :
    function.KeepsControl (function.insertAt block index .barrier) where
  name_eq := rfl
  kind_eq := rfl
  size_blocks := Table.size_modify _ _ _
  terminator_eq := by
    intro other
    rw [terminatorInstruction?_eq_filter, terminatorInstruction?_eq_filter,
      placed_insertAt present]
    have sameLast (last : Option InstId) :
        (last.bind (function.insertAt block index .barrier).instructions.get?).filter
            Instruction.isTerminator =
          (last.bind function.instructions.get?).filter Instruction.isTerminator := by
      cases last with
      | none => rfl
      | some handle => exact filter_isTerminator_append function.instructions handle
    rw [sameLast]
    split
    · next same =>
      subst same
      rcases Nat.lt_trichotomy index (function.placed block).length with inside | atEnd | outside
      · have lastKept : ((function.placed block).insertIdx index
            function.instructions.size).getLast? = (function.placed block).getLast? := by
          rw [List.getLast?_eq_getElem?, List.getLast?_eq_getElem?,
            List.length_insertIdx_of_le_length inside.le, List.getElem?_insertIdx,
            if_neg (by omega), if_neg (by omega)]
          rfl
        rw [lastKept]
      · have noTerminator := place.resolve_left atEnd.not_lt
        rw [terminatorInstruction?_eq_filter] at noTerminator
        have missing : function.instructions.get? function.instructions.size = none :=
          Table.get?_eq_none_iff.2 (Nat.le_refl _)
        rw [noTerminator, atEnd, List.insertIdx_length_self, List.getLast?_concat,
          Option.bind_some, missing]
        rfl
      · rw [List.insertIdx_of_length_lt outside]
    · rfl
  placed_subset := by
    intro other
    rw [placed_insertAt present]
    split
    · next same =>
      subst same
      exact List.subset_insertIdx _ _ _
    · exact List.Subset.refl _
  stored := by
    intro handle instruction isStored
    have below : handle < function.instructions.size :=
      Table.get?_isSome_iff.1 (by rw [isStored]; rfl)
    exact (Table.get?_append_of_lt _ below).trans isStored

theorem containsBarrier_insertAt (present : block < function.blocks.size)
    (inside : index ≤ (function.placed block).length) :
    (function.insertAt block index .barrier).containsBarrier block = true := by
  refine List.any_eq_true.2 ⟨function.instructions.size, ?_, ?_⟩
  · rw [placed_insertAt present, if_pos rfl]
    exact (List.mem_insertIdx inside).2 (.inl rfl)
  · show ((function.instructions.append .barrier).get? function.instructions.size).any
      Instruction.isBarrier = true
    rw [Table.get?_append_size]
    rfl

/-- A placed handle has a place in front of it. -/
theorem exists_position_before (member : handle ∈ function.placed block) :
    ∃ index, function.position (.before block handle) = .ok index ∧
      index < (function.placed block).length := by
  obtain ⟨front, back, listed, fresh⟩ := List.eq_append_cons_of_mem member
  refine ⟨front.length, position_before listed fresh, ?_⟩
  rw [listed, List.length_append, List.length_cons]
  omega

/-- The place behind the leading phis is found again as long as control is kept,
and a barrier may go there. -/
theorem KeepsControl.exists_position_firstNonPhi (keeps : function.KeepsControl changed)
    (present : header < function.blocks.size) :
    ∃ index, changed.position (function.firstNonPhi header) = .ok index ∧
      changed.KeepsControl
        (changed.insertAt (function.firstNonPhi header).block index .barrier) := by
  have presentStill : header < changed.blocks.size := by
    rw [keeps.size_blocks]
    exact present
  have listed := function.placed_eq_leadingPhis_append header
  rw [firstNonPhi_eq]
  cases behind : function.behindPhis header with
  | nil =>
      rw [behind, List.append_nil] at listed
      have noTerminator : changed.terminatorInstruction? header = none := by
        rw [keeps.terminator_eq, terminatorInstruction?, terminator?]
        cases isLast : (function.placed header).getLast? with
        | none => rfl
        | some last =>
            have isPhi : function.leadsToPhi last = true := by
              have member := List.mem_of_getLast? isLast
              rw [listed] at member
              exact List.mem_takeWhile_imp member
            have notTerminator := Synchronizes.not_isTerminator_of_leadsToPhi isPhi
            simp [Option.filter, notTerminator]
      exact ⟨_, position_atEnd presentStill,
        keepsControl_insertAt presentStill (.inr noTerminator)⟩
  | cons first rest =>
      have member : first ∈ function.placed header := by
        rw [listed, behind]
        exact List.mem_append_right _ List.mem_cons_self
      obtain ⟨index, found, inside⟩ :=
        exists_position_before (keeps.placed_subset header member)
      exact ⟨index, found, keepsControl_insertAt presentStill (.inl inside)⟩

end Function

/-! ## Both barriers -/

namespace BarrierPass

variable {σ : Type} {pass : BarrierPass σ} {context : LoopContext σ} {loop : Loop}
  {function : Function} {journal : Journal σ} {eligible : EligibleLoop} {terminator : InstId}

/-- Both places are found in any function, and plain barriers go there one after
the other. -/
theorem place_inserts (isGroup : pass.factory = .group) (journal : Journal σ) {condition : Value}
    (branch : eligible.exitBranch? function = some (terminator, condition))
    (headerPresent : eligible.header < function.blocks.size) :
    ∃ i j, function.position (.before eligible.exiting terminator) = .ok i ∧
      i < (function.placed eligible.exiting).length ∧
      (function.insertAt eligible.exiting i .barrier).position
        (function.firstNonPhi eligible.header) = .ok j ∧
      let changed := (function.insertAt eligible.exiting i .barrier).insertAt
        (function.firstNonPhi eligible.header).block j .barrier
      (function.insertAt eligible.exiting i .barrier).KeepsControl changed ∧
      pass.place eligible terminator function journal =
        ⟨true, changed, pass.record changed (.inserted (changed.blockName eligible.header)
          (changed.blockName eligible.exiting)) journal⟩ := by
  have member : terminator ∈ function.placed eligible.exiting :=
    List.mem_of_getLast? (last_of_exitBranch? branch).1
  obtain ⟨i, exitFound, inside⟩ := Function.exists_position_before member
  have first := Function.keepsControl_insertAt (function.lt_size_of_placed member) (.inl inside)
  obtain ⟨_, entryFoundFirst, -⟩ :=
    (Function.KeepsControl.refl function).exists_position_firstNonPhi headerPresent
  obtain ⟨j, entryFound, second⟩ := first.exists_position_firstNonPhi headerPresent
  obtain ⟨inPlace, whole⟩ := runAll_group journal.notes exitFound entryFoundFirst entryFound
  refine ⟨i, j, exitFound, inside, entryFound, second, ?_⟩
  unfold place
  simp only [inPlace, isGroup, whole]
  rfl

/-- Plain barriers at both places keep the control flow of any function. -/
theorem place_keepsControl (isGroup : pass.factory = .group) (journal : Journal σ)
    {condition : Value}
    (branch : eligible.exitBranch? function = some (terminator, condition))
    (headerPresent : eligible.header < function.blocks.size) :
    (pass.place eligible terminator function journal).changed = true ∧
      function.KeepsControl (pass.place eligible terminator function journal).function ∧
      (pass.place eligible terminator function journal).function.containsBarrier
        eligible.exiting = true := by
  obtain ⟨i, j, exitFound, inside, -, second, placed_eq⟩ :=
    place_inserts isGroup journal branch headerPresent
  obtain ⟨exitingPresent, -⟩ := Function.inside_of_position exitFound
  have first := Function.keepsControl_insertAt exitingPresent (.inl inside)
  rw [placed_eq]
  exact ⟨rfl, first.trans second,
    second.containsBarrier (Function.containsBarrier_insertAt exitingPresent inside.le)⟩

end BarrierPass

/-! ## Refused loops -/

/-- The answers depend on the query alone. -/
def Oracle.IsPure {σ : Type} (oracle : Oracle σ) : Prop :=
  ∃ blockAnswer valueAnswer, oracle = .pure blockAnswer valueAnswer

theorem Oracle.isPure_ofFacts {σ : Type} (table : FactTable) :
    (ofFacts table : Oracle σ).IsPure :=
  ⟨_, _, rfl⟩

/-- No notes let the loop have barriers. -/
def Function.Refuses {σ : Type} (accepts : Function → Bool) (context : LoopContext σ)
    (function : Function) (loop : Loop) : Prop :=
  ∀ notes eligible, ¬ loop.Admits accepts context function notes eligible

namespace Function

variable {σ : Type} {accepts : Function → Bool} {filter : KernelFilter} {context : LoopContext σ}
  {before after function : Function} {loop : Loop} {eligible : EligibleLoop} {notes : σ}

/-- A loop that admits barriers after others were added admitted them before,
with whatever notes a pure oracle was asked then. -/
theorem KeepsControl.admits (keeps : before.KeepsControl after)
    (isPure : context.oracle.IsPure) (other : σ)
    (admits : loop.Admits filter.accepts context after notes eligible) :
    loop.Admits filter.accepts context before other eligible where
  accepted := by
    rw [← accepts_eq filter keeps.name_eq keeps.kind_eq keeps.size_blocks]
    exact admits.accepted
  unsynchronized := by
    intro block member
    rw [Bool.eq_false_iff]
    intro barrier
    exact absurd (keeps.containsBarrier barrier) (by simp [admits.unsynchronized block member])
  innermost := admits.innermost
  only := admits.only
  header_eq := admits.header_eq
  entered := admits.entered
  present := by
    rw [← keeps.size_blocks]
    exact admits.present
  uniformHeader := by
    obtain ⟨blockAnswer, valueAnswer, sameOracle⟩ := isPure
    have isUniform := admits.uniformHeader
    rw [sameOracle] at isUniform ⊢
    exact isUniform
  uniformBranch := by
    obtain ⟨condition, accept, reject, branch, isUniform⟩ := admits.uniformBranch
    obtain ⟨blockAnswer, valueAnswer, sameOracle⟩ := isPure
    rw [keeps.terminator_eq] at branch
    rw [sameOracle] at isUniform ⊢
    exact ⟨condition, accept, reject, branch, isUniform⟩

/-- A refusal stands after barriers were added anywhere. -/
theorem Refuses.keepsControl (refuses : before.Refuses filter.accepts context loop)
    (keeps : before.KeepsControl after) (isPure : context.oracle.IsPure) :
    after.Refuses filter.accepts context loop :=
  fun notes _ admits => refuses notes _ (keeps.admits isPure notes admits)

/-- A loop with a barrier is refused. -/
theorem refuses_of_containsBarrier {block : BlockId} (member : block ∈ loop.blocks)
    (barrier : function.containsBarrier block = true) : function.Refuses accepts context loop := by
  intro notes eligible admits
  exact absurd barrier (by simp [admits.unsynchronized block member])

end Function

namespace BarrierPass

variable {σ : Type} {filter : KernelFilter} {context : LoopContext σ} {loop : Loop}
  {function : Function}

/-- A refused loop is left alone. -/
theorem runOnLoop_of_refuses (pass : BarrierPass σ) (journal : Journal σ)
    (refuses : function.Refuses pass.accepts context loop) :
    (pass.runOnLoop context loop function journal).changed = false ∧
      (pass.runOnLoop context loop function journal).function = function := by
  rcases pass.kept_or_placed context loop function journal with
    kept | ⟨eligible, terminator, -, checked, isUniform, -⟩
  · exact kept
  exact absurd (Loop.admits_iff_checks.2 ⟨checked, terminator, isUniform⟩)
    (refuses journal.notes eligible)

/-- The visit of a loop keeps the control flow and leaves the loop refused. -/
theorem runOnLoop_refuses (filter : KernelFilter) (sink : Option (DecisionSink σ))
    (isPure : context.oracle.IsPure) (loop : Loop) (function : Function) (journal : Journal σ) :
    function.KeepsControl ((plain filter sink).runOnLoop context loop function journal).function ∧
      ((plain filter sink).runOnLoop context loop function journal).function.Refuses
        filter.accepts context loop := by
  by_cases refuses : function.Refuses filter.accepts context loop
  · have kept := ((plain filter sink).runOnLoop_of_refuses journal refuses).2
    rw [kept]
    exact ⟨.refl function, refuses⟩
  · obtain ⟨notes, eligible, admits⟩ : ∃ notes eligible,
        loop.Admits filter.accepts context function notes eligible := by
      simpa [Function.Refuses] using refuses
    have admitsNow := (Function.KeepsControl.refl function).admits isPure journal.notes admits
    obtain ⟨checked, terminator, isUniform⟩ := Loop.admits_iff_checks.1 admitsNow
    obtain ⟨-, condition, branch, -⟩ := EligibleLoop.checkUniform_eq_ok_iff.1 isUniform
    obtain ⟨later, placed⟩ : ∃ later, (plain filter sink).runOnLoop context loop function journal =
        (plain filter sink).place eligible terminator function (journal.setNotes later) :=
      runOnLoop_of_checks checked isUniform
    have isGroup : (plain filter sink).factory = .group := rfl
    obtain ⟨-, keeps, barrier⟩ :=
      place_keepsControl isGroup (journal.setNotes later) branch admitsNow.present
    have leaves : loop.Leaves context.graph eligible.exiting :=
      (admitsNow.only eligible.exiting).2 rfl
    rw [placed]
    exact ⟨keeps, Function.refuses_of_containsBarrier leaves.1 barrier⟩

end BarrierPass

end Workgroup

import Mathlib.Data.List.Perm.Basic
import Mathlib.Data.List.Range
import Mathlib.Data.List.TakeWhile
import Workgroup.Barrier.Placement
import Workgroup.KernelFilter
import Workgroup.Proofs.Flow.Walk
import Workgroup.Proofs.Function.Placed

/-!
Contract: functions before and after some of their loops got barriers.

The instruction storage grows by two barriers for each loop.  A header gets one
of them behind its leading phis, an exiting block one in front of its last
instruction; nothing else changes, so terminators, edges and barriers that
were there before stay.

Owns:
- the relation between a function and its synchronized form;
- what the relation preserves, and how it is composed.
-/

namespace Workgroup

namespace Function

variable {before middle after : Function} {block : BlockId} {handle : InstId}
  {loops more : List EligibleLoop}

/-- Whether a handle leads to a phi. -/
def leadsToPhi (function : Function) (handle : InstId) : Bool :=
  (function.instructions.get? handle).any Instruction.isPhi

/-- The phis at the start of a block. -/
def leadingPhis (function : Function) (block : BlockId) : List InstId :=
  (function.placed block).takeWhile function.leadsToPhi

/-- What follows the leading phis of a block. -/
def behindPhis (function : Function) (block : BlockId) : List InstId :=
  (function.placed block).dropWhile function.leadsToPhi

theorem isDeclaration_eq (sameSize : after.blocks.size = before.blocks.size) :
    after.isDeclaration = before.isDeclaration := by
  unfold Table.size at sameSize
  unfold isDeclaration Table.isEmpty
  rw [Bool.eq_iff_iff, List.isEmpty_iff_length_eq_zero, List.isEmpty_iff_length_eq_zero, sameSize]

/-- A filter looks at the name, the kind and the presence of blocks. -/
theorem accepts_eq (filter : KernelFilter) (sameName : after.name = before.name)
    (sameKind : after.kind = before.kind) (sameSize : after.blocks.size = before.blocks.size) :
    filter.accepts after = filter.accepts before := by
  unfold KernelFilter.accepts isKernel
  rw [isDeclaration_eq sameSize, sameName, sameKind]

/-- The graph depends on the successors of the blocks and their number alone. -/
theorem graph_eq_of_successors (sameSize : after.blocks.size = before.blocks.size)
    (sameSuccessors : after.successors = before.successors) : after.graph = before.graph := by
  have sameEntry : after.entryBlock? = before.entryBlock? := by
    have sameEmpty := isDeclaration_eq sameSize
    unfold isDeclaration at sameEmpty
    unfold entryBlock?
    rw [sameEmpty]
  unfold graph
  rw [sameSuccessors, sameEntry, sameSize]

theorem graph_eq_of_terminators (sameSize : after.blocks.size = before.blocks.size)
    (sameTerminators : ∀ block,
      after.terminatorInstruction? block = before.terminatorInstruction? block) :
    after.graph = before.graph := by
  refine graph_eq_of_successors sameSize (funext fun block => ?_)
  unfold successors
  rw [sameTerminators]

/-- The second function is the first one with barriers in some loops. -/
structure Synchronizes (before after : Function) (loops : List EligibleLoop) : Prop where
  name_eq : after.name = before.name
  kind_eq : after.kind = before.kind
  arguments_eq : after.arguments = before.arguments
  valueNames_eq : after.valueNames = before.valueNames
  labels_eq : after.blocks.entries.map Block.label = before.blocks.entries.map Block.label
  instructions_eq : after.instructions.entries =
    before.instructions.entries ++ List.replicate (2 * loops.length) .barrier
  /-- The new handles are placed once each, the others as often as before. -/
  placed_perm : after.allPlaced.Perm
    (before.allPlaced ++ List.range' before.instructions.size (2 * loops.length))
  /-- The first new handle is in a header, the second one in an exiting block. -/
  placed_eq : ∀ block, ∃ first second,
    after.placed block = before.leadingPhis block ++ first ++ (before.behindPhis block).dropLast ++
      second ++ (before.behindPhis block).getLast?.toList ∧
    first.length = (if block ∈ loops.map EligibleLoop.header then 1 else 0) ∧
    second.length = (if block ∈ loops.map EligibleLoop.exiting then 1 else 0) ∧
    ∀ handle ∈ first ++ second, before.instructions.size ≤ handle

theorem placed_eq_leadingPhis_append (function : Function) (block : BlockId) :
    function.placed block = function.leadingPhis block ++ function.behindPhis block :=
  List.takeWhile_append_dropWhile.symm

theorem dropLast_append_getLast?_toList (handles : List InstId) :
    handles.dropLast ++ handles.getLast?.toList = handles := by
  cases handles with
  | nil => rfl
  | cons head tail =>
      rw [List.getLast?_eq_some_getLast (List.cons_ne_nil head tail)]
      exact List.dropLast_append_getLast (List.cons_ne_nil head tail)

theorem placed_eq_append (function : Function) (block : BlockId) :
    function.placed block = function.leadingPhis block ++ (function.behindPhis block).dropLast ++
      (function.behindPhis block).getLast?.toList := by
  rw [List.append_assoc, dropLast_append_getLast?_toList]
  exact function.placed_eq_leadingPhis_append block

/-- What follows the leading phis is not among them. -/
theorem WellPlaced.not_mem_leadingPhis {function : Function} (wellPlaced : function.WellPlaced)
    (member : handle ∈ function.behindPhis block) : handle ∉ function.leadingPhis block := by
  have distinct := wellPlaced.nodup_placed block
  rw [function.placed_eq_leadingPhis_append, List.nodup_append] at distinct
  intro isPhi
  exact distinct.2.2 handle isPhi handle member rfl

namespace Synchronizes

/-- Without loops nothing changes. -/
theorem refl (function : Function) : function.Synchronizes function [] where
  name_eq := rfl
  kind_eq := rfl
  arguments_eq := rfl
  valueNames_eq := rfl
  labels_eq := rfl
  instructions_eq := by simp
  placed_perm := by simp
  placed_eq := by
    intro block
    refine ⟨[], [], ?_, by simp, by simp, by simp⟩
    rw [List.append_nil, List.append_nil]
    exact function.placed_eq_append block

theorem size_instructions (synchronizes : before.Synchronizes after loops) :
    after.instructions.size = before.instructions.size + 2 * loops.length := by
  unfold Table.size
  rw [synchronizes.instructions_eq, List.length_append, List.length_replicate]

theorem size_blocks (synchronizes : before.Synchronizes after loops) :
    after.blocks.size = before.blocks.size := by
  have sameLabels := congrArg List.length synchronizes.labels_eq
  rw [List.length_map, List.length_map] at sameLabels
  exact sameLabels

/-- Stored instructions stay. -/
theorem get?_of_lt (synchronizes : before.Synchronizes after loops)
    (below : handle < before.instructions.size) :
    after.instructions.get? handle = before.instructions.get? handle := by
  unfold Table.get?
  rw [synchronizes.instructions_eq]
  exact List.getElem?_append_left below

/-- New instructions are barriers. -/
theorem get?_of_ge (synchronizes : before.Synchronizes after loops)
    (above : before.instructions.size ≤ handle) (below : handle < after.instructions.size) :
    after.instructions.get? handle = some .barrier := by
  rw [synchronizes.size_instructions] at below
  unfold Table.get?
  rw [synchronizes.instructions_eq, List.getElem?_append_right above, List.getElem?_replicate]
  exact if_pos (Nat.sub_lt_left_of_lt_add above below)

theorem wellPlaced (synchronizes : before.Synchronizes after loops)
    (wellPlaced : before.WellPlaced) : after.WellPlaced :=
  wellPlaced.of_perm synchronizes.size_instructions synchronizes.placed_perm

/-- Placed handles stay in their blocks. -/
theorem placed_subset (synchronizes : before.Synchronizes after loops) (block : BlockId) :
    before.placed block ⊆ after.placed block := by
  obtain ⟨first, second, placed, -⟩ := synchronizes.placed_eq block
  rw [placed, before.placed_eq_append block]
  intro handle member
  simp only [List.mem_append] at member ⊢
  tauto

/-- Blocks outside the loops stay as they were. -/
theorem placed_of_not_mem (synchronizes : before.Synchronizes after loops)
    (notHeader : block ∉ loops.map EligibleLoop.header)
    (notExiting : block ∉ loops.map EligibleLoop.exiting) :
    after.placed block = before.placed block := by
  obtain ⟨first, second, placed, firstLength, secondLength, -⟩ := synchronizes.placed_eq block
  rw [if_neg notHeader] at firstLength
  rw [if_neg notExiting] at secondLength
  rw [List.length_eq_zero_iff.1 firstLength, List.length_eq_zero_iff.1 secondLength,
    List.append_nil, List.append_nil] at placed
  exact placed.trans (before.placed_eq_append block).symm

/-- Old handles lead to a phi as before. -/
theorem leadsToPhi_of_lt (synchronizes : before.Synchronizes after loops)
    (below : handle < before.instructions.size) :
    after.leadsToPhi handle = before.leadsToPhi handle := by
  unfold leadsToPhi
  rw [synchronizes.get?_of_lt below]

theorem get?_of_placed (synchronizes : before.Synchronizes after loops)
    (wellPlaced : before.WellPlaced) (member : handle ∈ after.placed block)
    (above : before.instructions.size ≤ handle) :
    after.instructions.get? handle = some .barrier :=
  synchronizes.get?_of_ge above ((synchronizes.wellPlaced wellPlaced).stored_of_placed member)

/-! ## What the relation preserves -/

/-- A phi or a barrier at the end of a block is not a terminator. -/
theorem not_isTerminator_of_leadsToPhi {function : Function}
    (isPhi : function.leadsToPhi handle = true) :
    (function.instructions.get? handle).any Instruction.isTerminator = false := by
  unfold leadsToPhi at isPhi
  cases stored : function.instructions.get? handle with
  | none => rfl
  | some instruction =>
      rw [stored] at isPhi
      cases instruction <;> simp [Instruction.isPhi] at isPhi
      rfl

/-- Blocks keep their terminators. -/
theorem terminator?_eq (synchronizes : before.Synchronizes after loops)
    (wellPlaced : before.WellPlaced) (block : BlockId) :
    after.terminator? block = before.terminator? block := by
  obtain ⟨first, second, placed, -, -, new⟩ := synchronizes.placed_eq block
  unfold terminator?
  rcases List.eq_nil_or_concat (before.behindPhis block) with noRest | ⟨rest, last, behind⟩
  · -- Without anything behind the phis, neither block ends with a terminator.
    have allPhis : before.placed block = before.leadingPhis block := by
      have whole := before.placed_eq_append block
      rw [noRest] at whole
      simpa using whole
    have noTerminator : (before.placed block).getLast?.filter
        (fun last => (before.instructions.get? last).any Instruction.isTerminator) = none := by
      rw [Option.filter_eq_none_iff]
      intro last isLast isTerminator
      rw [allPhis] at isLast
      have isPhi := List.mem_takeWhile_imp (List.mem_of_getLast? isLast)
      rw [not_isTerminator_of_leadsToPhi isPhi] at isTerminator
      exact absurd isTerminator nofun
    rw [noTerminator, Option.filter_eq_none_iff]
    intro last isLast isTerminator
    have lastMember : last ∈ after.placed block := List.mem_of_getLast? isLast
    rw [placed, noRest] at lastMember
    simp only [List.dropLast_nil, List.getLast?_nil, Option.toList_none, List.append_nil,
      List.mem_append] at lastMember
    rcases lastMember with (isPhi | isNew) | isNew
    · have below := wellPlaced.stored_of_placed (allPhis ▸ isPhi)
      have leads := List.mem_takeWhile_imp isPhi
      rw [← synchronizes.leadsToPhi_of_lt below] at leads
      rw [not_isTerminator_of_leadsToPhi leads] at isTerminator
      exact absurd isTerminator nofun
    · rw [synchronizes.get?_of_placed wellPlaced (List.mem_of_getLast? isLast)
        (new last (List.mem_append_left _ isNew))] at isTerminator
      exact absurd isTerminator (by decide)
    · rw [synchronizes.get?_of_placed wellPlaced (List.mem_of_getLast? isLast)
        (new last (List.mem_append_right _ isNew))] at isTerminator
      exact absurd isTerminator (by decide)
  · rw [List.concat_eq_append] at behind
    have beforeLast : (before.placed block).getLast? = some last := by
      rw [before.placed_eq_append block, behind]
      simp
    have afterLast : (after.placed block).getLast? = some last := by
      rw [placed, behind]
      simp
    have below := wellPlaced.stored_of_placed (List.mem_of_getLast? beforeLast)
    rw [beforeLast, afterLast]
    simp only [Option.filter_some, synchronizes.get?_of_lt below]

theorem terminatorInstruction?_eq (synchronizes : before.Synchronizes after loops)
    (wellPlaced : before.WellPlaced) (block : BlockId) :
    after.terminatorInstruction? block = before.terminatorInstruction? block := by
  unfold terminatorInstruction?
  rw [synchronizes.terminator?_eq wellPlaced]
  cases isLast : before.terminator? block with
  | none => rfl
  | some last =>
      have member := List.mem_of_getLast? (Option.filter_eq_some_iff.1 isLast).1
      exact synchronizes.get?_of_lt (wellPlaced.stored_of_placed member)

/-- Edges stay as they were. -/
theorem graph_eq (synchronizes : before.Synchronizes after loops)
    (wellPlaced : before.WellPlaced) : after.graph = before.graph :=
  graph_eq_of_terminators synchronizes.size_blocks
    (synchronizes.terminatorInstruction?_eq wellPlaced)

/-- Barriers stay. -/
theorem containsBarrier_of_before (synchronizes : before.Synchronizes after loops)
    (wellPlaced : before.WellPlaced) (barrier : before.containsBarrier block = true) :
    after.containsBarrier block = true := by
  obtain ⟨handle, member, isBarrier⟩ := List.any_eq_true.1 barrier
  refine List.any_eq_true.2 ⟨handle, synchronizes.placed_subset block member, ?_⟩
  rw [synchronizes.get?_of_lt (wellPlaced.stored_of_placed member)]
  exact isBarrier

/-- Blocks outside the loops get no barrier. -/
theorem containsBarrier_of_not_mem (synchronizes : before.Synchronizes after loops)
    (wellPlaced : before.WellPlaced) (notHeader : block ∉ loops.map EligibleLoop.header)
    (notExiting : block ∉ loops.map EligibleLoop.exiting) :
    after.containsBarrier block = before.containsBarrier block := by
  unfold containsBarrier
  rw [synchronizes.placed_of_not_mem notHeader notExiting]
  rw [Bool.eq_iff_iff, List.any_eq_true, List.any_eq_true]
  refine exists_congr fun handle => and_congr_right fun member => ?_
  rw [synchronizes.get?_of_lt (wellPlaced.stored_of_placed member)]

/-- Headers contain a barrier afterwards. -/
theorem containsBarrier_header (synchronizes : before.Synchronizes after loops)
    (wellPlaced : before.WellPlaced) (isHeader : block ∈ loops.map EligibleLoop.header) :
    after.containsBarrier block = true := by
  obtain ⟨first, second, placed, firstLength, -, new⟩ := synchronizes.placed_eq block
  rw [if_pos isHeader] at firstLength
  obtain ⟨handle, rfl⟩ := List.length_eq_one_iff.1 firstLength
  have member : handle ∈ after.placed block := by
    rw [placed]
    simp
  refine List.any_eq_true.2 ⟨handle, member, ?_⟩
  rw [synchronizes.get?_of_placed wellPlaced member (new handle (by simp))]
  rfl

/-- The leading phis of a block that is still the same are the same. -/
theorem leadingPhis_eq (synchronizes : before.Synchronizes after loops)
    (wellPlaced : before.WellPlaced) (same : after.placed block = before.placed block) :
    after.leadingPhis block = before.leadingPhis block ∧
      after.behindPhis block = before.behindPhis block := by
  have agree : ∀ handle ∈ before.placed block,
      after.leadsToPhi handle = before.leadsToPhi handle := fun handle member =>
    synchronizes.leadsToPhi_of_lt (wellPlaced.stored_of_placed member)
  unfold leadingPhis behindPhis
  rw [same]
  generalize before.placed block = listed at agree
  induction listed with
  | nil => exact ⟨rfl, rfl⟩
  | cons head tail inductionHypothesis =>
      obtain ⟨sameFront, sameBack⟩ := inductionHypothesis fun handle member =>
        agree handle (List.mem_cons_of_mem head member)
      rw [List.takeWhile_cons, List.takeWhile_cons, List.dropWhile_cons, List.dropWhile_cons,
        agree head List.mem_cons_self, sameFront, sameBack]
      exact ⟨rfl, rfl⟩

/-- Loops that share no header and no exiting block are synchronized one after
the other. -/
theorem trans (first : before.Synchronizes middle loops) (second : middle.Synchronizes after more)
    (wellPlaced : before.WellPlaced)
    (separate : ∀ block,
      block ∈ loops.map EligibleLoop.header ∨ block ∈ loops.map EligibleLoop.exiting →
      block ∉ more.map EligibleLoop.header ∧ block ∉ more.map EligibleLoop.exiting) :
    before.Synchronizes after (loops ++ more) where
  name_eq := second.name_eq.trans first.name_eq
  kind_eq := second.kind_eq.trans first.kind_eq
  arguments_eq := second.arguments_eq.trans first.arguments_eq
  valueNames_eq := second.valueNames_eq.trans first.valueNames_eq
  labels_eq := second.labels_eq.trans first.labels_eq
  instructions_eq := by
    rw [second.instructions_eq, first.instructions_eq, List.append_assoc,
      List.replicate_append_replicate, List.length_append, Nat.mul_add]
  placed_perm := by
    refine second.placed_perm.trans ((first.placed_perm.append_right _).trans (.of_eq ?_))
    rw [first.size_instructions, List.append_assoc, List.range'_append_1, List.length_append,
      Nat.mul_add]
  placed_eq := by
    intro block
    rw [List.map_append, List.map_append]
    by_cases touched :
        block ∈ loops.map EligibleLoop.header ∨ block ∈ loops.map EligibleLoop.exiting
    · -- The block is changed by the first loops and kept by the second ones.
      obtain ⟨notHeader, notExiting⟩ := separate block touched
      obtain ⟨one, two, placed, oneLength, twoLength, new⟩ := first.placed_eq block
      refine ⟨one, two, (second.placed_of_not_mem notHeader notExiting).trans placed, ?_, ?_, new⟩
      · simp only [List.mem_append, notHeader, or_false]
        exact oneLength
      · simp only [List.mem_append, notExiting, or_false]
        exact twoLength
    · obtain ⟨notHeader, notExiting⟩ := not_or.1 touched
      obtain ⟨one, two, placed, oneLength, twoLength, new⟩ := second.placed_eq block
      obtain ⟨samePhis, sameRest⟩ :=
        first.leadingPhis_eq wellPlaced (first.placed_of_not_mem notHeader notExiting)
      rw [samePhis, sameRest] at placed
      refine ⟨one, two, placed, ?_, ?_, fun handle member => ?_⟩
      · simp only [List.mem_append, notHeader, false_or]
        exact oneLength
      · simp only [List.mem_append, notExiting, false_or]
        exact twoLength
      · have above := new handle member
        rw [first.size_instructions] at above
        exact Nat.le_trans (Nat.le_add_right _ _) above

/-- A function that is synchronized in no loop is the same function. -/
theorem eq_of_nil (synchronizes : before.Synchronizes after []) : after = before := by
  have sameInstructions : after.instructions = before.instructions := by
    apply Table.ext
    rw [synchronizes.instructions_eq]
    simp
  have samePlaced (block : BlockId) : after.placed block = before.placed block :=
    synchronizes.placed_of_not_mem List.not_mem_nil List.not_mem_nil
  have sameBlocks : after.blocks = before.blocks := by
    refine Table.ext (List.ext_getElem? fun block => ?_)
    have sameLabel := congrArg (·[block]?) synchronizes.labels_eq
    have sameList := samePlaced block
    unfold placed Table.get? at sameList
    simp only [List.getElem?_map] at sameLabel
    cases isAfter : after.blocks.entries[block]? with
    | none =>
        rw [isAfter] at sameLabel
        cases isBefore : before.blocks.entries[block]? with
        | none => rfl
        | some body =>
            rw [isBefore] at sameLabel
            exact absurd sameLabel nofun
    | some body =>
        rw [isAfter] at sameLabel sameList
        cases isBefore : before.blocks.entries[block]? with
        | none =>
            rw [isBefore] at sameLabel
            exact absurd sameLabel nofun
        | some other =>
            rw [isBefore] at sameLabel sameList
            cases body
            cases other
            cases Option.some.inj sameLabel
            cases sameList
            rfl
  obtain ⟨sameName, sameKind, sameArguments, sameNames, -, -, -, -⟩ := synchronizes
  cases after
  cases before
  cases sameName
  cases sameKind
  cases sameArguments
  cases sameNames
  cases sameInstructions
  cases sameBlocks
  rfl

end Synchronizes

end Function

end Workgroup

import Workgroup.Proofs.Function.Growth
import Workgroup.Validation

/-!
Contract: what validation finds, and the one thing that it does not look at.

Soundness is stated over the constructors of instructions and over the places in
a block, not over the questions that validation asks.  Validation asks for the
targets of terminators and for operands; the blocks that a phi takes values from
are neither, so a function without faults is sound up to these.

Owns:
- the blocks that an instruction names and the values that it reads;
- sound functions;
- the faults of handles, blocks and functions as conditions;
- soundness as the absence of faults and of missing incoming blocks.
-/

namespace Workgroup

namespace Instruction

/-- The instruction names a block. -/
inductive NamesBlock : Instruction → BlockId → Prop where
  | branch (target : BlockId) : NamesBlock (.branch target) target
  | accept (condition : Value) (accept reject : BlockId) :
      NamesBlock (.condBranch condition accept reject) accept
  | reject (condition : Value) (accept reject : BlockId) :
      NamesBlock (.condBranch condition accept reject) reject
  | fallback (selector : Value) (fallback : BlockId) (cases : List (Int32 × BlockId)) :
      NamesBlock (.switch selector fallback cases) fallback
  | case {selector : Value} {fallback : BlockId} {cases : List (Int32 × BlockId)} {value : Int32}
      {target : BlockId} (member : (value, target) ∈ cases) :
      NamesBlock (.switch selector fallback cases) target
  | incoming {type : ScalarType} {incoming : List (Value × BlockId)} {value : Value}
      {source : BlockId} (member : (value, source) ∈ incoming) :
      NamesBlock (.phi type incoming) source

/-- The instruction reads a value. -/
inductive Reads : Instruction → Value → Prop where
  | incoming {type : ScalarType} {incoming : List (Value × BlockId)} {value : Value}
      {source : BlockId} (member : (value, source) ∈ incoming) :
      Reads (.phi type incoming) value
  | binaryLeft (op : BinaryOp) (left right : Value) : Reads (.binary op left right) left
  | binaryRight (op : BinaryOp) (left right : Value) : Reads (.binary op left right) right
  | compareLeft (op : CompareOp) (left right : Value) : Reads (.compare op left right) left
  | compareRight (op : CompareOp) (left right : Value) : Reads (.compare op left right) right
  | selectCondition (condition accept reject : Value) :
      Reads (.select condition accept reject) condition
  | selectAccept (condition accept reject : Value) :
      Reads (.select condition accept reject) accept
  | selectReject (condition accept reject : Value) :
      Reads (.select condition accept reject) reject
  | loadPointer (pointer : Value) : Reads (.load pointer) pointer
  | storePointer (pointer value : Value) : Reads (.store pointer value) pointer
  | storeValue (pointer value : Value) : Reads (.store pointer value) value
  | argument {callee : String} {arguments : List Value} {value : Value}
      (member : value ∈ arguments) : Reads (.call callee arguments) value
  | branchCondition (condition : Value) (accept reject : BlockId) :
      Reads (.condBranch condition accept reject) condition
  | selector (selector : Value) (fallback : BlockId) (cases : List (Int32 × BlockId)) :
      Reads (.switch selector fallback cases) selector
  | result (value : Value) : Reads (.ret (some value)) value

variable {instruction : Instruction}

/-- The targets of a terminator are not all the blocks that instructions name. -/
theorem namesBlock_iff {block : BlockId} :
    instruction.NamesBlock block ↔
      block ∈ instruction.successors ∨ block ∈ instruction.incomingBlocks := by
  constructor
  · intro names
    cases names <;> grind [successors, incomingBlocks]
  · intro listed
    cases instruction <;> grind [successors, incomingBlocks, NamesBlock]

theorem reads_iff {value : Value} : instruction.Reads value ↔ value ∈ instruction.operands := by
  constructor
  · intro reads
    cases reads <;> grind [operands]
  · intro listed
    cases instruction <;> grind [operands, Reads]

end Instruction

namespace Function

variable {function : Function} {block : BlockId} {instruction : Instruction}
  {afterNonPhi isLast : Bool} {front back handles : List InstId}

/-- The value is a constant, a stored instruction or a declared argument. -/
def HasValue (function : Function) : Value → Prop
  | .result handle => handle < function.instructions.size
  | .argument index => index < function.arguments.length
  | .constant _ => True

/-- Somewhere in the block, between other handles, a handle leads to the instruction. -/
def Occurs (function : Function) (block : BlockId) (front : List InstId)
    (instruction : Instruction) (back : List InstId) : Prop :=
  ∃ handle, function.placed block = front ++ handle :: back ∧
    function.instructions.get? handle = some instruction

/-- Every block has its phis at the start and its only terminator at the end, and
everything that is placed, named or read exists. -/
structure Sound (function : Function) : Prop where
  terminated : ∀ block < function.blocks.size, ∃ front instruction,
    function.Occurs block front instruction [] ∧ instruction.isTerminator = true
  stored : ∀ block, ∀ handle ∈ function.placed block, handle < function.instructions.size
  phisFirst : ∀ {block front phi back}, function.Occurs block front phi back →
    phi.isPhi = true → ∀ handle ∈ front, ∀ earlier,
      function.instructions.get? handle = some earlier → earlier.isPhi = true
  terminatorLast : ∀ {block front instruction back},
    function.Occurs block front instruction back → instruction.isTerminator = true → back = []
  blocksExist : ∀ {block front instruction back}, function.Occurs block front instruction back →
    ∀ {target}, instruction.NamesBlock target → target < function.blocks.size
  valuesExist : ∀ {block front instruction back}, function.Occurs block front instruction back →
    ∀ {value}, instruction.Reads value → function.HasValue value

/-! ## Faults as conditions -/

theorem targetFault?_eq_none_iff {target : BlockId} :
    function.targetFault? target = none ↔ target < function.blocks.size := by
  unfold targetFault?
  rw [← Table.contains_iff]
  cases function.blocks.contains target <;> simp

theorem operandFault?_eq_none_iff {value : Value} :
    function.operandFault? value = none ↔ function.HasValue value := by
  unfold operandFault? HasValue
  cases value with
  | result handle =>
      dsimp only
      rw [← Table.contains_iff]
      cases function.instructions.contains handle <;> simp
  | argument index => simp
  | constant literal => simp

theorem instructionFaults_eq_nil_iff :
    function.instructionFaults block instruction afterNonPhi isLast = [] ↔
      (instruction.isPhi = true → afterNonPhi = false) ∧
      (instruction.isTerminator = true → isLast = true) ∧
      (∀ target ∈ instruction.successors, target < function.blocks.size) ∧
      ∀ value ∈ instruction.operands, function.HasValue value := by
  unfold instructionFaults
  simp only [List.append_eq_nil_iff, List.filterMap_eq_nil_iff, targetFault?_eq_none_iff,
    operandFault?_eq_none_iff, and_assoc]
  cases instruction.isPhi <;> cases afterNonPhi <;> cases instruction.isTerminator <;>
    cases isLast <;> simp

/-- A handle that leads nowhere is a fault, so among handles without faults the
checker knows of each whether all before it lead to phis. -/
theorem placementFaults_eq_nil_iff :
    function.placementFaults block afterNonPhi handles = [] ↔
      ∀ front handle back, handles = front ++ handle :: back →
        ∃ instruction, function.instructions.get? handle = some instruction ∧
          function.instructionFaults block instruction
            (afterNonPhi || front.any fun earlier =>
              !(function.instructions.get? earlier).any Instruction.isPhi) back.isEmpty = [] := by
  induction handles generalizing afterNonPhi with
  | nil => simp [placementFaults]
  | cons first rest inductionHypothesis =>
      unfold placementFaults
      cases stored : function.instructions.get? first with
      | none =>
          simp only [reduceCtorEq, false_iff, not_forall]
          exact ⟨[], first, rest, rfl, by simp [stored]⟩
      | some instruction =>
          simp only [List.append_eq_nil_iff, inductionHypothesis]
          constructor
          · rintro ⟨noFault, restFine⟩ front handle back listed
            cases front with
            | nil =>
                cases listed
                exact ⟨instruction, stored, by simpa using noFault⟩
            | cons head front =>
                cases listed
                obtain ⟨later, isLater, fine⟩ := restFine front handle back rfl
                exact ⟨later, isLater, by simpa [stored, Bool.or_assoc] using fine⟩
          · intro fine
            refine ⟨?_, fun front handle back listed => ?_⟩
            · obtain ⟨found, isFound, noFault⟩ := fine [] first rest rfl
              cases stored.symm.trans isFound
              simpa using noFault
            · obtain ⟨later, isLater, noFault⟩ :=
                fine (first :: front) handle back (congrArg (first :: ·) listed)
              exact ⟨later, isLater, by simpa [stored, Bool.or_assoc] using noFault⟩

theorem exists_terminator_iff : (function.terminator? block).isSome = true ↔
    ∃ front instruction,
      function.Occurs block front instruction [] ∧ instruction.isTerminator = true := by
  unfold terminator?
  rw [Option.isSome_filter, Option.any_eq_true]
  simp only [List.getLast?_eq_some_iff, Option.any_eq_true]
  constructor
  · rintro ⟨last, ⟨front, listed⟩, instruction, stored, isTerminator⟩
    exact ⟨front, instruction, ⟨last, listed, stored⟩, isTerminator⟩
  · rintro ⟨front, instruction, ⟨last, listed, stored⟩, isTerminator⟩
    exact ⟨last, ⟨front, listed⟩, instruction, stored, isTerminator⟩

theorem blockFaults_eq_nil_iff : function.blockFaults block = [] ↔
    (∃ front instruction,
      function.Occurs block front instruction [] ∧ instruction.isTerminator = true) ∧
    function.placementFaults block false (function.placed block) = [] := by
  rw [← exists_terminator_iff]
  unfold blockFaults
  cases function.terminator? block <;> simp

theorem faults_eq_nil_iff : function.faults = [] ↔
    ∀ block < function.blocks.size, function.blockFaults block = [] := by
  unfold faults
  simp [List.flatMap_eq_nil_iff, Table.handles]

theorem Occurs.lt_size (occurs : function.Occurs block front instruction back) :
    block < function.blocks.size := by
  obtain ⟨handle, listed, -⟩ := occurs
  have member : handle ∈ function.placed block :=
    listed ▸ List.mem_append_right front List.mem_cons_self
  exact function.lt_size_of_placed member

/-- What a function without faults is known to have at each place. -/
theorem Occurs.checked (occurs : function.Occurs block front instruction back)
    (noFaults : function.faults = []) :
    function.instructionFaults block instruction
      (front.any fun earlier =>
        !(function.instructions.get? earlier).any Instruction.isPhi) back.isEmpty = [] := by
  have blockFine := faults_eq_nil_iff.1 noFaults block occurs.lt_size
  obtain ⟨handle, listed, stored⟩ := occurs
  obtain ⟨found, isFound, fine⟩ :=
    placementFaults_eq_nil_iff.1 (blockFaults_eq_nil_iff.1 blockFine).2 front handle back listed
  cases stored.symm.trans isFound
  rwa [Bool.false_or] at fine

/-! ## Soundness -/

/-- At each place of a sound function there is nothing to report. -/
theorem Sound.checked (sound : function.Sound) (block : BlockId) (front : List InstId)
    (handle : InstId) (back : List InstId)
    (listed : function.placed block = front ++ handle :: back) :
    ∃ instruction, function.instructions.get? handle = some instruction ∧
      function.instructionFaults block instruction
        (false || front.any fun earlier =>
          !(function.instructions.get? earlier).any Instruction.isPhi) back.isEmpty = [] := by
  have isStored : ∀ other ∈ front ++ handle :: back,
      ∃ instruction, function.instructions.get? other = some instruction := by
    intro other member
    have below := sound.stored block other (listed ▸ member)
    exact Option.isSome_iff_exists.1 (Table.get?_isSome_iff.2 below)
  obtain ⟨instruction, stored⟩ := isStored handle (by simp)
  have occurs : function.Occurs block front instruction back := ⟨handle, listed, stored⟩
  refine ⟨instruction, stored, instructionFaults_eq_nil_iff.2 ⟨?_, ?_, ?_, ?_⟩⟩
  · intro isPhi
    rw [Bool.false_or, List.any_eq_false]
    intro earlier member
    obtain ⟨other, isOther⟩ := isStored earlier (List.mem_append_left _ member)
    simp [isOther, sound.phisFirst occurs isPhi earlier member other isOther]
  · intro isTerminator
    exact List.isEmpty_iff.2 (sound.terminatorLast occurs isTerminator)
  · intro target member
    exact sound.blocksExist occurs (Instruction.namesBlock_iff.2 (.inl member))
  · intro value member
    exact sound.valuesExist occurs (Instruction.reads_iff.2 member)

/-- A function is sound exactly if validation finds no fault and the blocks that
its phis take values from, which validation does not look at, exist. -/
theorem sound_iff (function : Function) : function.Sound ↔
    function.faults = [] ∧ ∀ block front type incoming back,
      function.Occurs block front (.phi type incoming) back →
        ∀ entry ∈ incoming, entry.2 < function.blocks.size := by
  constructor
  · intro sound
    refine ⟨faults_eq_nil_iff.2 fun block present => ?_, ?_⟩
    · exact blockFaults_eq_nil_iff.2
        ⟨sound.terminated block present, placementFaults_eq_nil_iff.2 (sound.checked block)⟩
    · intro block front type incoming back occurs entry member
      exact sound.blocksExist occurs (.incoming member)
  · rintro ⟨noFaults, incomingExist⟩
    have checked {block front instruction back}
        (occurs : function.Occurs block front instruction back) :=
      instructionFaults_eq_nil_iff.1 (occurs.checked noFaults)
    constructor
    case terminated =>
      intro block present
      exact (blockFaults_eq_nil_iff.1 (faults_eq_nil_iff.1 noFaults block present)).1
    case stored =>
      intro block handle member
      obtain ⟨front, back, listed⟩ := List.append_of_mem member
      have present := function.lt_size_of_placed member
      have blockFine := faults_eq_nil_iff.1 noFaults block present
      obtain ⟨instruction, stored, -⟩ :=
        placementFaults_eq_nil_iff.1 (blockFaults_eq_nil_iff.1 blockFine).2 front handle back listed
      exact Table.get?_isSome_iff.1 (by rw [stored]; rfl)
    case phisFirst =>
      intro block front phi back occurs isPhi handle member earlier stored
      have allPhis := List.any_eq_false.1 ((checked occurs).1 isPhi) handle member
      simpa [stored] using allPhis
    case terminatorLast =>
      intro block front instruction back occurs isTerminator
      exact List.isEmpty_iff.1 ((checked occurs).2.1 isTerminator)
    case blocksExist =>
      intro block front instruction back occurs target names
      rcases Instruction.namesBlock_iff.1 names with isTarget | isIncoming
      · exact (checked occurs).2.2.1 target isTarget
      · cases instruction with
        | phi type incoming =>
            obtain ⟨entry, member, rfl⟩ := List.mem_map.1 isIncoming
            exact incomingExist block front type incoming back occurs entry member
        | _ => exact absurd isIncoming List.not_mem_nil
    case valuesExist =>
      intro block front instruction back occurs value reads
      exact (checked occurs).2.2.2 value (Instruction.reads_iff.1 reads)

end Function

/-! ## What validation lets pass -/

namespace DanglingIncoming

/-- One block, with a phi that takes a value from a block that does not exist. -/
def kernel : Function where
  name := "k"
  kind := .kernel
  arguments := []
  blocks := ⟨[⟨some "entry", [0, 1]⟩]⟩
  instructions := ⟨[.phi .i32 [(.constant (.int 0), 7)], .ret none]⟩
  valueNames := .empty

/-- No fault is found, and yet a named block is missing. -/
theorem unnoticed : ¬ (kernel.faults = [] ↔ kernel.Sound) := by
  intro claimed
  have noFaults : kernel.faults = [] := by decide
  have occurs : kernel.Occurs 0 [] (.phi .i32 [(.constant (.int 0), 7)]) [1] := ⟨0, rfl, rfl⟩
  have present : 7 < kernel.blocks.size :=
    (claimed.1 noFaults).blocksExist occurs (.incoming List.mem_cons_self)
  exact absurd present (by decide)

end DanglingIncoming

end Workgroup

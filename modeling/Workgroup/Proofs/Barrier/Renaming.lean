import Workgroup.Proofs.Barrier.Settled
import Workgroup.Proofs.Text.Respelling

/-!
Contract: the numbering of handles does not matter to the passes over loops.

Control flow, barriers and facts are the same after handles were renamed, as long
as facts are renamed along and different values stay different.  So a loop that
admits barriers afterwards admitted them before, and a settled program stays
settled when it is renumbered by places.

Owns:
- terminators, edges and barriers of a function with renamed handles;
- facts about renumbered values;
- settled functions and programs after a renaming.
-/

namespace Workgroup

section Instructions

variable {rename : InstId → InstId} {instruction : Instruction}

theorem Instruction.isTerminator_renumber :
    (instruction.renumber rename).isTerminator = instruction.isTerminator := by
  unfold isTerminator
  rw [opcode_renumber]

theorem Instruction.isBarrier_renumber :
    (instruction.renumber rename).isBarrier = instruction.isBarrier := by
  cases instruction <;> rfl

theorem Instruction.renumber_eq_condBranch_iff {condition : Value} {accept reject : BlockId} :
    instruction.renumber rename = .condBranch condition accept reject ↔
      ∃ original, instruction = .condBranch original accept reject ∧
        original.renumber rename = condition := by
  cases instruction <;> simp [renumber]
  grind

end Instructions

namespace Function

variable {rename : InstId → InstId} {before after function : Function} {block : BlockId}

/-! ## Control flow and barriers -/

namespace Renames

theorem terminatorInstruction?_eq (renames : Renames rename before after) (block : BlockId) :
    after.terminatorInstruction? block =
      (before.terminatorInstruction? block).map (Instruction.renumber rename) := by
  rw [terminatorInstruction?_eq_filter, terminatorInstruction?_eq_filter, renames.placed_eq,
    List.getLast?_map]
  cases isLast : (before.placed block).getLast? with
  | none => rfl
  | some last =>
      have member := (before.placed_sublist block).subset (List.mem_of_getLast? isLast)
      rw [Option.map_some, Option.bind_some, Option.bind_some, renames.stored_eq last member]
      cases before.instructions.get? last with
      | none => rfl
      | some instruction =>
          cases isTerminator : instruction.isTerminator <;>
            simp [Option.filter, Instruction.isTerminator_renumber, isTerminator]

theorem graph_eq (renames : Renames rename before after) : after.graph = before.graph := by
  refine graph_eq_of_successors renames.size_blocks (funext fun block => ?_)
  unfold successors
  rw [renames.terminatorInstruction?_eq]
  cases before.terminatorInstruction? block with
  | none => rfl
  | some instruction => exact Instruction.successors_renumber

theorem containsBarrier_eq (renames : Renames rename before after) (block : BlockId) :
    after.containsBarrier block = before.containsBarrier block := by
  unfold containsBarrier
  rw [renames.placed_eq, List.any_map, Bool.eq_iff_iff, List.any_eq_true, List.any_eq_true]
  refine exists_congr fun handle => and_congr_right fun member => ?_
  have placed := (before.placed_sublist block).subset member
  rw [Function.comp_apply, renames.stored_eq handle placed, Option.any_map]
  simp only [Instruction.isBarrier_renumber]

end Renames

/-! ## Settled functions -/

/-- A function stays settled if its handles are renamed and the facts along with
them. -/
theorem Settled.renames {σ : Type} {filter : KernelFilter} {handle : FuncId}
    {table renamed : FactTable}
    (settled : before.Settled filter (.ofFacts table : Oracle σ) handle)
    (renames : Renames rename before after) (legible : before.Legible)
    (sameBlocks : ∀ block, renamed.isUniformBlock handle block = table.isUniformBlock handle block)
    (sameValues : ∀ value, before.Defines value →
      renamed.isUniformValue handle (value.renumber rename) = table.isUniformValue handle value) :
    after.Settled filter (.ofFacts renamed : Oracle σ) handle := by
  have sameGraph := renames.graph_eq
  intro loop listed notes eligible admits
  rw [sameGraph] at listed
  apply settled loop listed notes eligible
  constructor
  · rw [← accepts_eq filter renames.name_eq renames.kind_eq renames.size_blocks]
    exact admits.accepted
  · intro block member
    rw [← renames.containsBarrier_eq]
    exact admits.unsynchronized block member
  · exact admits.innermost
  · have only := admits.only
    unfold context at only
    rw [sameGraph] at only
    exact only
  · exact admits.header_eq
  · have entered := admits.entered
    unfold context at entered
    rw [sameGraph] at entered
    exact entered
  · rw [← renames.size_blocks]
    exact admits.present
  · exact (sameBlocks eligible.header).symm.trans admits.uniformHeader
  · obtain ⟨condition, accept, reject, branch, isUniform⟩ := admits.uniformBranch
    rw [renames.terminatorInstruction?_eq, Option.map_eq_some_iff] at branch
    obtain ⟨instruction, isLast, renumbered⟩ := branch
    obtain ⟨original, rfl, rfl⟩ := Instruction.renumber_eq_condBranch_iff.1 renumbered
    refine ⟨original, accept, reject, isLast, ?_⟩
    obtain ⟨last, isTerminator, stored⟩ := Option.bind_eq_some_iff.1 isLast
    have member := (before.placed_sublist eligible.exiting).subset
      (List.mem_of_getLast? (Option.filter_eq_some_iff.1 isTerminator).1)
    have canPrint := legible.instructions last member _ stored
    have defines := canPrint.operands original (by simp [Instruction.operands])
    exact (sameValues original defines).symm.trans isUniform

end Function

/-! ## Renumbered programs -/

/-- Values that can be named are told apart by their places. -/
theorem Function.renumber_injective {function : Function} {left right : Value}
    (isLeft : function.Defines left) (isRight : function.Defines right)
    (same : left.renumber function.placeOf = right.renumber function.placeOf) : left = right := by
  cases left with
  | result first =>
      cases right with
      | result second =>
          have samePlace := Value.result.inj same
          rw [placeOf_injective isLeft.1 isRight.1 samePlace]
      | _ => exact absurd same nofun
  | _ =>
      cases right with
      | result second => exact absurd same nofun
      | _ => exact same

namespace Program.Printable

variable {program : Program} {handle : FuncId} {function : Function}

theorem isUniformBlock_renumbered
    (isFunction : program.module.functions.get? handle = some function) (block : BlockId) :
    program.renumbered.facts.isUniformBlock handle block =
      program.facts.isUniformBlock handle block := by
  unfold FactTable.isUniformBlock FactTable.factsOf
  show ((program.renumberedFacts.get? handle).getD .empty).isUniformBlock block = _
  rw [program.get?_renumberedFacts, isFunction]
  cases program.facts.get? handle <;> rfl

theorem isUniformValue_renumbered (printable : program.Printable)
    (isFunction : program.module.functions.get? handle = some function) {value : Value}
    (defines : function.Defines value) :
    program.renumbered.facts.isUniformValue handle (value.renumber function.placeOf) =
      program.facts.isUniformValue handle value := by
  unfold FactTable.isUniformValue FactTable.factsOf
  show ((program.renumberedFacts.get? handle).getD .empty).isUniformValue _ = _
  rw [program.get?_renumberedFacts, isFunction]
  cases isFacts : program.facts.get? handle with
  | none =>
      show (_ || (Facts.empty.values.contains _)) = (_ || (Facts.empty.values.contains _))
      rw [value.isConstant_renumber]
      simp [Facts.empty, OrderedSet.contains]
  | some facts =>
      have printableFacts := printable.legible.facts_of_get? isFunction facts isFacts
      have sameMember : value.renumber function.placeOf ∈
          (facts.renumber function.placeOf).values ↔ value ∈ facts.values := by
        unfold Facts.renumber
        rw [OrderedSet.mem_ofList, List.mem_map]
        constructor
        · rintro ⟨other, member, same⟩
          rw [← Function.renumber_injective (printableFacts.values other member).2 defines same]
          exact member
        · exact fun member => ⟨value, member, rfl⟩
      show (_ || (facts.renumber function.placeOf).values.contains _) =
        (_ || facts.values.contains _)
      rw [value.isConstant_renumber, Bool.eq_iff_iff, Bool.or_eq_true, Bool.or_eq_true,
        OrderedSet.contains_iff, OrderedSet.contains_iff, sameMember]

/-- A settled program stays settled when it is renumbered. -/
theorem settled_renumbered {σ : Type} {filter : KernelFilter} (printable : program.Printable)
    (settled : program.module.Settled filter (.ofFacts program.facts : Oracle σ)) :
    program.renumbered.module.Settled filter (.ofFacts program.renumbered.facts : Oracle σ) := by
  intro handle changed isChanged
  rw [renumbered, Table.get?_map, Option.map_eq_some_iff] at isChanged
  obtain ⟨function, isFunction, rfl⟩ := isChanged
  have functionPrintable := printable.functions function (List.mem_of_getElem? isFunction)
  exact (settled isFunction).renames functionPrintable.respells_renumbered.toRenames
    functionPrintable.legible (isUniformBlock_renumbered isFunction)
    fun value => printable.isUniformValue_renumbered isFunction

end Program.Printable

end Workgroup

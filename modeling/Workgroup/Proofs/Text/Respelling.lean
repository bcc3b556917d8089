import Workgroup.Proofs.Text.RoundTrip

/-!
Contract: a text does not tell how handles are numbered.

Handles may be renamed as long as every value that the text mentions keeps its
spelling.  Facts list results in the order of their handles, so the renaming must
also keep that order.

Owns:
- functions with renamed handles, and those that are spelled alike;
- lines, facts and programs of the same spelling;
- the text of a renumbered program.
-/

namespace Workgroup

open Text

/-! ## Renaming and order -/

section Renaming

variable {rename : InstId → InstId} {instruction : Instruction}

theorem Value.renumber_id (value : Value) : value.renumber id = value := by
  cases value <;> rfl

theorem Instruction.renumber_id (instruction : Instruction) :
    instruction.renumber id = instruction := by
  have sameValue : Value.renumber id = id := funext Value.renumber_id
  cases instruction <;> simp [renumber, sameValue]

theorem Value.isConstant_renumber (value : Value) :
    (value.renumber rename).isConstant = value.isConstant := by
  cases value <;> rfl

theorem Instruction.opcode_renumber :
    (instruction.renumber rename).opcode = instruction.opcode := by
  cases instruction <;> rfl

theorem Instruction.hasResult_renumber :
    (instruction.renumber rename).hasResult = instruction.hasResult := by
  unfold hasResult
  rw [opcode_renumber]

theorem Instruction.successors_renumber :
    (instruction.renumber rename).successors = instruction.successors := by
  cases instruction <;> rfl

theorem OrderedSet.toList_ofList {α : Type} [Ranked α] [DecidableEq α] {values : List α}
    (ascending : values.Pairwise Ranked.Precedes) : (ofList values).toList = values := by
  have same : ofList values = ⟨values, ascending⟩ := OrderedSet.ext fun _ => OrderedSet.mem_ofList
  rw [same]

/-- Values stay in their order if the results among them do. -/
theorem Value.precedes_renumber {left right : Value}
    (keeps : ∀ {first second}, left = .result first → right = .result second → first < second →
      rename first < rename second)
    (before : Ranked.Precedes left right) :
    Ranked.Precedes (left.renumber rename) (right.renumber rename) := by
  unfold Ranked.Precedes at before ⊢
  cases left with
  | result first =>
      cases right with
      | result second =>
          have inOrder : first < second := by simpa [Ranked.rank, Value.rank] using before
          simpa [Ranked.rank, Value.rank, Value.renumber] using keeps rfl rfl inOrder
      | argument index => simp [Ranked.rank, Value.rank] at before
      | constant literal => cases literal <;> simp [Ranked.rank, Value.rank, Value.renumber]
  | argument index =>
      cases right with
      | result second => exact .inl Nat.zero_lt_one
      | _ => exact before
  | constant literal =>
      cases right with
      | result second => cases literal <;> simp [Ranked.rank, Value.rank] at before
      | _ => exact before

end Renaming

namespace Function

variable {rename : InstId → InstId} {before after function : Function} {block : BlockId}
  {handle : InstId} {value : Value} {instruction : Instruction} {facts : Facts}

/-! ## Functions that are spelled alike -/

/-- The handles of the second function are those of the first one, renamed.  The
names of the results are left open. -/
structure Renames (rename : InstId → InstId) (before after : Function) : Prop where
  name_eq : after.name = before.name
  kind_eq : after.kind = before.kind
  arguments_eq : after.arguments = before.arguments
  blocks_eq : after.blocks = before.blocks.map (Block.renumber rename)
  stored_eq : ∀ handle ∈ before.allPlaced, after.instructions.get? (rename handle) =
    (before.instructions.get? handle).map (Instruction.renumber rename)

/-- The values that the text of the first function mentions keep their spelling. -/
structure Respells (rename : InstId → InstId) (before after : Function) : Prop
    extends Renames rename before after where
  valueToken_eq : ∀ value, before.Defines value →
    after.valueToken (value.renumber rename) = before.valueToken value

namespace Renames

theorem size_blocks (renames : Renames rename before after) :
    after.blocks.size = before.blocks.size := by
  rw [renames.blocks_eq, Table.size_map]

theorem placed_eq (renames : Renames rename before after) (block : BlockId) :
    after.placed block = (before.placed block).map rename := by
  unfold placed
  rw [renames.blocks_eq, Table.get?_map]
  cases before.blocks.get? block <;> rfl

theorem blockToken_eq (renames : Renames rename before after) (block : BlockId) :
    after.blockToken block = before.blockToken block := by
  unfold blockToken blockName
  rw [renames.blocks_eq, Table.get?_map]
  cases before.blocks.get? block <;> rfl

end Renames

namespace Respells

theorem operandTokens_eq (respells : Respells rename before after)
    (canPrint : before.CanPrint instruction) :
    after.operandTokens (instruction.renumber rename) = before.operandTokens instruction := by
  have operand (value : Value) (member : value ∈ instruction.operands) :
      after.valueToken (value.renumber rename) = before.valueToken value :=
    respells.valueToken_eq value (canPrint.operands value member)
  have target (block : BlockId) : after.blockToken block = before.blockToken block :=
    respells.blockToken_eq block
  cases instruction with
  | phi type incoming =>
      simp only [operandTokens, Instruction.renumber, List.map_map]
      congr 2
      refine List.map_congr_left fun entry member => ?_
      have spelled := operand entry.1 (List.mem_map_of_mem member)
      simp [spelled, target]
  | call callee arguments =>
      simp only [operandTokens, Instruction.renumber, List.map_map]
      congr 3
      refine List.map_congr_left fun argument member => ?_
      have spelled := operand argument member
      simp [spelled]
  | ret value =>
      cases value with
      | none => rfl
      | some value =>
          exact congrArg (fun token => [token]) (operand value (by simp [Instruction.operands]))
  | _ =>
      simp only [Instruction.operands, List.mem_cons, List.not_mem_nil, or_false, forall_eq_or_imp,
        forall_eq] at operand
      simp only [operandTokens, Instruction.renumber, operand, target]

theorem instructionLine_eq (respells : Respells rename before after) (legible : before.Legible)
    (member : handle ∈ before.allPlaced) :
    after.instructionLine (rename handle) = before.instructionLine handle := by
  obtain ⟨instruction, stored⟩ := legible.exists_stored member
  have canPrint := legible.instructions handle member instruction stored
  unfold instructionLine
  rw [respells.stored_eq handle member, stored]
  simp only [Option.map_some]
  unfold instructionTokens
  rw [Instruction.hasResult_renumber, Instruction.opcode_renumber,
    respells.operandTokens_eq canPrint]
  by_cases hasResult : instruction.hasResult = true
  · have spelled : after.valueToken (.result (rename handle)) =
        before.valueToken (.result handle) :=
      respells.valueToken_eq (.result handle) (defines_result member stored hasResult)
    rw [spelled]
  · rw [if_neg hasResult, if_neg hasResult]

theorem lines_eq (respells : Respells rename before after) (legible : before.Legible)
    (header : List String) : after.lines header = before.lines header := by
  have sameSignature : after.signatureTokens = before.signatureTokens := by
    unfold signatureTokens
    rw [respells.name_eq, respells.kind_eq, respells.arguments_eq]
  have sameHandles : after.blocks.handles = before.blocks.handles := by
    unfold Table.handles
    rw [respells.size_blocks]
  have sameBlock : after.blockLines = before.blockLines := by
    funext block
    unfold blockLines
    rw [respells.blockToken_eq, respells.placed_eq, List.map_map]
    congr 1
    refine List.map_congr_left fun handle member => ?_
    have sameLine := respells.instructionLine_eq legible
      ((before.placed_sublist block).subset member)
    rw [Function.comp_apply, sameLine]
  unfold lines
  rw [sameSignature, sameHandles, sameBlock]

/-- Facts are listed alike if results keep their order. -/
theorem directive?_eq (respells : Respells rename before after)
    (printable : facts.Printable before)
    (keeps : ∀ {first second}, before.Defines (.result first) → before.Defines (.result second) →
      first < second → rename first < rename second) :
    after.directive? (facts.renumber rename) = before.directive? facts := by
  have defines {value : Value} (member : value ∈ facts.values.toList) : before.Defines value :=
    (printable.values value member).2
  have ascending : (facts.values.toList.map (Value.renumber rename)).Pairwise Ranked.Precedes := by
    rw [List.pairwise_map]
    refine facts.values.ascending.imp_of_mem fun {left right} isLeft isRight inOrder => ?_
    refine Value.precedes_renumber (fun {first second} leftResult rightResult => ?_) inOrder
    exact keeps (leftResult ▸ defines isLeft) (rightResult ▸ defines isRight)
  have sameTokens : after.factTokens (facts.renumber rename) = before.factTokens facts := by
    unfold factTokens Facts.renumber
    dsimp only
    rw [OrderedSet.toList_ofList ascending, List.filter_map, List.map_map]
    congr 1
    · exact List.map_congr_left fun block _ => respells.blockToken_eq block
    · have sameKind : (fun value : Value => !value.isConstant) ∘ Value.renumber rename =
          fun value => !value.isConstant := by
        funext value
        rw [Function.comp_apply, Value.isConstant_renumber]
      rw [sameKind]
      refine List.map_congr_left fun value member => ?_
      exact respells.valueToken_eq value (defines (List.mem_of_mem_filter member))
  unfold directive?
  rw [sameTokens]

end Respells

/-! ## Renumbered functions -/

/-- The placed instructions with a result, block by block. -/
def results (function : Function) : List InstId := function.allPlaced.filter function.hasResult

/-- Instructions with a result are placed in the order of their handles. -/
def ResultsAscend (function : Function) : Prop := function.results.Pairwise (· < ·)

theorem mem_results : handle ∈ function.results ↔ function.Defines (.result handle) :=
  List.mem_filter

theorem Ordered.resultsAscend (ordered : function.Ordered) : function.ResultsAscend := by
  unfold ResultsAscend results
  rw [ordered]
  exact List.pairwise_lt_range.filter _

/-- Places of results are in the order of their handles. -/
theorem ResultsAscend.placeOf_lt (ascend : function.ResultsAscend) {first second : InstId}
    (isFirst : function.Defines (.result first)) (isSecond : function.Defines (.result second))
    (inOrder : first < second) : function.placeOf first < function.placeOf second := by
  unfold ResultsAscend results at ascend
  rw [List.pairwise_filter, List.pairwise_iff_getElem] at ascend
  by_contra notBefore
  rcases Nat.lt_or_eq_of_le (Nat.not_lt.1 notBefore) with behind | same
  · obtain ⟨secondInside, secondAt⟩ := List.getElem?_eq_some_iff.1 (getElem?_placeOf isSecond.1)
    obtain ⟨firstInside, firstAt⟩ := List.getElem?_eq_some_iff.1 (getElem?_placeOf isFirst.1)
    have reversed := ascend _ _ secondInside firstInside behind
      (by rw [secondAt]; exact isSecond.2) (by rw [firstAt]; exact isFirst.2)
    rw [secondAt, firstAt] at reversed
    exact absurd inOrder (Nat.lt_asymm reversed)
  · have sameHandle := placeOf_injective isSecond.1 isFirst.1 same
    exact absurd sameHandle (Nat.ne_of_gt inOrder)

theorem getElem?_filterMap_of_isSome {α β : Type} {change : α → Option β} {items : List α}
    (all : ∀ item ∈ items, (change item).isSome = true) (place : Nat) :
    (items.filterMap change)[place]? = items[place]?.bind change := by
  induction items generalizing place with
  | nil => rfl
  | cons item items inductionHypothesis =>
      obtain ⟨first, others⟩ := List.forall_mem_cons.1 all
      obtain ⟨result, isResult⟩ := Option.isSome_iff_exists.1 first
      rw [List.filterMap_cons, isResult]
      cases place with
      | zero => exact isResult.symm
      | succ place => exact inductionHypothesis others place

theorem Printable.respells_renumbered (printable : function.Printable) :
    Respells function.placeOf function function.renumbered where
  name_eq := rfl
  kind_eq := rfl
  arguments_eq := rfl
  blocks_eq := rfl
  stored_eq := by
    intro handle member
    have allStored : ∀ other ∈ function.allPlaced, ((function.instructions.get? other).map
        (Instruction.renumber function.placeOf)).isSome = true := by
      intro other otherMember
      rw [Option.isSome_map]
      exact Table.get?_isSome_iff.2 (printable.wellPlaced.stored otherMember)
    have atPlace := getElem?_filterMap_of_isSome allStored (function.placeOf handle)
    rw [getElem?_placeOf member] at atPlace
    exact atPlace
  valueToken_eq := by
    intro value defines
    cases value with
    | result handle =>
        obtain ⟨name, isName, -⟩ := printable.exists_resultName defines
        have renamed : function.renumbered.valueNames.get? (function.placeOf handle) =
            some name := by
          rw [printable.get?_renumbered_valueNames, getElem?_placeOf defines.1]
          exact isName
        exact (valueToken_result renamed).trans (valueToken_result isName).symm
    | argument index => rfl
    | constant literal => rfl

end Function

/-! ## Programs -/

namespace Program

variable {program before after : Program}

/-- Programs have the same text if their functions have the same lines. -/
theorem render_eq_of_lines
    (sameSize : after.module.functions.size = before.module.functions.size)
    (sameLines : ∀ {handle function changed},
      before.module.functions.get? handle = some function →
      after.module.functions.get? handle = some changed →
      changed.lines ((after.facts.get? handle).bind changed.directive?).toList =
        function.lines ((before.facts.get? handle).bind function.directive?).toList) :
    after.render = before.render := by
  unfold render Module.renderWith
  congr 1
  refine List.ext_getElem? fun handle => ?_
  rw [List.getElem?_mapIdx, List.getElem?_mapIdx]
  cases isFunction : before.module.functions.entries[handle]? with
  | none =>
      have missing : after.module.functions.get? handle = none := by
        rw [Table.get?_eq_none_iff, sameSize]
        exact Table.get?_eq_none_iff.1 isFunction
      rw [Table.get?] at missing
      rw [missing]
      rfl
  | some function =>
      have present : handle < after.module.functions.size := by
        rw [sameSize]
        exact Table.get?_isSome_iff.1 (by unfold Table.get?; rw [isFunction]; rfl)
      obtain ⟨changed, isChanged⟩ := Option.isSome_iff_exists.1 (Table.get?_isSome_iff.2 present)
      have same := sameLines isFunction isChanged
      rw [Table.get?] at isChanged
      rw [isChanged]
      simp only [Option.map_some, Function.render]
      rw [same]

/-- Renumbering does not change the text if results are placed in their order. -/
theorem Printable.render_renumbered (printable : program.Printable)
    (ascend : ∀ function ∈ program.module.functions.entries, function.ResultsAscend) :
    program.renumbered.render = program.render := by
  refine render_eq_of_lines (Table.size_map _ _) fun {handle function changed} isFunction same => ?_
  rw [renumbered, Table.get?_map, isFunction] at same
  cases same
  have member := List.mem_of_getElem? isFunction
  have functionPrintable := printable.functions function member
  have respells := functionPrintable.respells_renumbered
  have sameHeader : (program.renumbered.facts.get? handle).bind function.renumbered.directive? =
      (program.facts.get? handle).bind function.directive? := by
    show (program.renumberedFacts.get? handle).bind _ = _
    rw [program.get?_renumberedFacts, isFunction]
    cases isFacts : program.facts.get? handle with
    | none => rfl
    | some facts =>
        exact respells.directive?_eq
          (printable.legible.facts_of_get? isFunction facts isFacts)
          (ascend function member).placeOf_lt
  rw [sameHeader]
  exact respells.lines_eq functionPrintable.legible _

/-- The text of a printable program whose results are placed in their order is
accepted, and what is read has the same text. -/
theorem Printable.rereads (printable : program.Printable)
    (ascend : ∀ function ∈ program.module.functions.entries, function.ResultsAscend) :
    Program.parse program.render = .ok program.renumbered ∧
      program.renumbered.render = program.render := by
  obtain ⟨lines, areLines, parsed⟩ := printable.legible.parse_render_eq
  rw [parsed]
  exact ⟨printable.ofLines_eq areLines, printable.render_renumbered ascend⟩

end Program

end Workgroup

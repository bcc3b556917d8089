import Workgroup.Proofs.Text.InstructionText

/-!
Contract: the text of a legible program is tokenized into its lines.

Every line of a legible function is the layout of legal tokens, so the lines
that the reader gets are the token lists the printer started from.

Owns:
- legal tokens of operands, instructions, facts and signatures;
- the token lists of a function and of a program;
- the lines that the text of a program is tokenized into.
-/

namespace Workgroup

open Text

/-! ## Legal tokens -/

theorem isLabel_mnemonic (opcode : Opcode) : isLabel opcode.mnemonic = true := by
  cases opcode with
  | binary op => cases op <;> decide +kernel
  | workItem query => cases query <;> decide +kernel
  | _ => decide +kernel

theorem isLabel_typeName (type : ScalarType) : isLabel type.name = true := by
  cases type <;> decide +kernel

theorem isLabel_comparison (op : CompareOp) : isLabel op.mnemonic = true := by
  cases op <;> decide +kernel

theorem isLabel_keyword (kind : FunctionKind) : isLabel kind.keyword = true := by
  cases kind <;> decide +kernel

theorem Text.Token.forall_mem_commaSeparated {groups : List (List Token)}
    (legal : ∀ group ∈ groups, ∀ token ∈ group, token.isLegal = true) :
    ∀ token ∈ Token.commaSeparated groups, token.isLegal = true := by
  cases groups with
  | nil => exact fun token member => absurd member List.not_mem_nil
  | cons group groups =>
      rw [Token.commaSeparated_cons]
      refine List.forall_mem_append.2 ⟨legal group List.mem_cons_self, fun token member => ?_⟩
      obtain ⟨other, otherMember, inGroup⟩ := List.mem_flatMap.1 member
      rcases List.mem_cons.1 inGroup with same | inGroup
      · rw [same]
        rfl
      · exact legal other (List.mem_cons_of_mem group otherMember) token inGroup

namespace Function

variable {function : Function} {handle : InstId} {block : BlockId} {value : Value}
  {instruction : Instruction} {facts : Facts}

namespace Legible

theorem isLegal_valueToken (legible : function.Legible) (defines : function.Defines value) :
    (function.valueToken value).isLegal = true := by
  cases value with
  | result handle =>
      exact legible.isName_resultName handle
  | argument index =>
      have isArgument := List.getElem?_eq_getElem (defines : index < function.arguments.length)
      rw [valueToken_argument isArgument]
      exact legible.isName_argument (List.mem_of_getElem? isArgument)
  | constant literal =>
      cases literal with
      | bool truth =>
          have truthLegal : ∀ truth, (Literal.bool truth).token.isLegal = true := by decide +kernel
          exact truthLegal truth
      | int amount => exact fitsToken_int32 amount

theorem isLegal_blockToken (legible : function.Legible)
    (present : block < function.blocks.size) : (function.blockToken block).isLegal = true := by
  obtain ⟨label, isToken, legal, -⟩ := legible.exists_blockToken present
  rw [isToken]
  exact legal

theorem isLegal_operandTokens (legible : function.Legible)
    (canPrint : function.CanPrint instruction) :
    ∀ token ∈ function.operandTokens instruction, token.isLegal = true := by
  have operand (value : Value) (member : value ∈ instruction.operands) :=
    legible.isLegal_valueToken (canPrint.operands value member)
  have successor (block : BlockId) (member : block ∈ instruction.successors) :=
    legible.isLegal_blockToken (canPrint.successors block member)
  have markLegal (sign : Mark) : (Token.mark sign).isLegal = true := rfl
  cases instruction with
  | phi type incoming =>
      refine List.forall_mem_cons.2 ⟨isLabel_typeName type, ?_⟩
      apply Token.forall_mem_commaSeparated
      rw [List.forall_mem_map]
      intro entry member
      have valueLegal := operand entry.1 (List.mem_map_of_mem member)
      have blockLegal := legible.isLegal_blockToken
        (canPrint.incomingBlocks entry.2 (List.mem_map_of_mem member))
      simp [markLegal, valueLegal, blockLegal]
  | binary op left right =>
      have leftLegal := operand left (by simp [Instruction.operands])
      have rightLegal := operand right (by simp [Instruction.operands])
      simp [operandTokens, markLegal, leftLegal, rightLegal]
  | compare op left right =>
      have opLegal : (Token.word op.mnemonic).isLegal = true := isLabel_comparison op
      have leftLegal := operand left (by simp [Instruction.operands])
      have rightLegal := operand right (by simp [Instruction.operands])
      simp [operandTokens, markLegal, leftLegal, rightLegal, opLegal]
  | select condition accept reject =>
      have conditionLegal := operand condition (by simp [Instruction.operands])
      have acceptLegal := operand accept (by simp [Instruction.operands])
      have rejectLegal := operand reject (by simp [Instruction.operands])
      simp [operandTokens, markLegal, conditionLegal, acceptLegal, rejectLegal]
  | workItem query dimension => exact List.forall_mem_singleton.2 (fitsToken_uint32 dimension)
  | load pointer =>
      exact List.forall_mem_singleton.2 (operand pointer (by simp [Instruction.operands]))
  | store pointer value =>
      have pointerLegal := operand pointer (by simp [Instruction.operands])
      have valueLegal := operand value (by simp [Instruction.operands])
      simp [operandTokens, markLegal, pointerLegal, valueLegal]
  | call callee arguments =>
      have calleeLegal : (Token.functionName callee).isLegal = true := canPrint.callee callee rfl
      have argumentsLegal := Token.forall_mem_commaSeparated
        (List.forall_mem_map.2 fun argument member =>
          List.forall_mem_singleton.2 (operand argument member))
      refine List.forall_mem_append.2 ⟨List.forall_mem_append.2 ⟨?_, argumentsLegal⟩, ?_⟩
      · simp [calleeLegal, markLegal]
      · exact List.forall_mem_singleton.2 (markLegal .closeParen)
  | barrier => exact fun token member => absurd member List.not_mem_nil
  | branch target =>
      exact List.forall_mem_singleton.2 (successor target (by simp [Instruction.successors]))
  | condBranch condition accept reject =>
      have conditionLegal := operand condition (by simp [Instruction.operands])
      have acceptLegal := successor accept (by simp [Instruction.successors])
      have rejectLegal := successor reject (by simp [Instruction.successors])
      simp [operandTokens, markLegal, conditionLegal, acceptLegal, rejectLegal]
  | switch selector fallback cases =>
      have selectorLegal := operand selector (by simp [Instruction.operands])
      have fallbackLegal := successor fallback (by simp [Instruction.successors])
      have casesLegal : ∀ token ∈ Token.commaSeparated (cases.map fun entry =>
          [.number entry.1.toInt, .mark .colon, function.blockToken entry.2]),
          token.isLegal = true := by
        apply Token.forall_mem_commaSeparated
        rw [List.forall_mem_map]
        intro entry member
        have numberLegal : (Token.number entry.1.toInt).isLegal = true := fitsToken_int32 entry.1
        have blockLegal := successor entry.2
          (List.mem_cons_of_mem fallback (List.mem_map_of_mem member))
        simp [markLegal, numberLegal, blockLegal]
      refine List.forall_mem_append.2 ⟨List.forall_mem_append.2 ⟨?_, casesLegal⟩, ?_⟩
      · simp [markLegal, selectorLegal, fallbackLegal]
      · exact List.forall_mem_singleton.2 (markLegal .closeBracket)
  | ret value =>
      cases value with
      | none => exact fun token member => absurd member List.not_mem_nil
      | some value =>
          exact List.forall_mem_singleton.2 (operand value (by simp [Instruction.operands]))
  | unreachable => exact fun token member => absurd member List.not_mem_nil

theorem isLegal_instructionTokens (legible : function.Legible)
    (member : handle ∈ function.allPlaced)
    (stored : function.instructions.get? handle = some instruction) :
    ∀ token ∈ function.instructionTokens handle instruction, token.isLegal = true := by
  have operandsLegal := legible.isLegal_operandTokens
    (legible.instructions handle member instruction stored)
  have mnemonicLegal : (Token.word instruction.opcode.mnemonic).isLegal = true :=
    isLabel_mnemonic instruction.opcode
  refine List.forall_mem_append.2 ⟨?_, List.forall_mem_cons.2 ⟨mnemonicLegal, operandsLegal⟩⟩
  by_cases hasResult : instruction.hasResult = true
  · have defines := defines_result member stored hasResult
    rw [if_pos hasResult]
    exact List.forall_mem_cons.2 ⟨legible.isLegal_valueToken defines,
      List.forall_mem_singleton.2 rfl⟩
  · rw [if_neg hasResult]
    exact fun token member => absurd member List.not_mem_nil

theorem isLegal_factTokens (legible : function.Legible)
    (printableFacts : facts.Printable function) :
    ∀ token ∈ facts.tokens function, token.isLegal = true := by
  have keywordLegal : (Token.word "uniform").isLegal = true := by decide +kernel
  refine List.forall_mem_cons.2 ⟨keywordLegal, ?_⟩
  apply Token.forall_mem_commaSeparated
  rw [List.forall_mem_map]
  intro entry member
  have defines := printableFacts.definesFact entry member
  intro token isToken
  rw [List.mem_singleton.1 isToken]
  cases entry with
  | block block => exact legible.isLegal_blockToken defines
  | value value => exact legible.isLegal_valueToken defines.2

theorem isLegal_signatureTokens (legible : function.Legible) :
    ∀ token ∈ function.signatureTokens, token.isLegal = true := by
  have keywordLegal : (Token.word function.kind.keyword).isLegal = true :=
    isLabel_keyword function.kind
  have nameLegal : (Token.functionName function.name).isLegal = true := legible.name
  have argumentsLegal : ∀ token ∈ Token.commaSeparated (function.arguments.map fun argument =>
      [.valueName argument.name, .mark .colon, .word argument.type.name]),
      token.isLegal = true := by
    apply Token.forall_mem_commaSeparated
    rw [List.forall_mem_map]
    intro argument member
    have argumentLegal : (Token.valueName argument.name).isLegal = true :=
      legible.isName_argument member
    have typeLegal : (Token.word argument.type.name).isLegal = true :=
      isLabel_typeName argument.type
    refine List.forall_mem_cons.2 ⟨argumentLegal, List.forall_mem_cons.2 ⟨rfl, ?_⟩⟩
    exact List.forall_mem_singleton.2 typeLegal
  refine List.forall_mem_append.2 ⟨List.forall_mem_append.2 ⟨?_, argumentsLegal⟩, ?_⟩
  · exact List.forall_mem_cons.2 ⟨keywordLegal, List.forall_mem_cons.2 ⟨nameLegal,
      List.forall_mem_singleton.2 rfl⟩⟩
  · exact List.forall_mem_cons.2 ⟨rfl, List.forall_mem_singleton.2 rfl⟩

end Legible

/-! ## Lines -/

/-- The tokens of the line of a placed handle. -/
def handleTokens (function : Function) (handle : InstId) : List Token :=
  ((function.instructions.get? handle).map (function.instructionTokens handle)).getD []

/-- The tokens of the lines of a block. -/
def bodyTokens (function : Function) (block : BlockId) : List (List Token) :=
  [function.blockToken block, .mark .colon] ::
    (function.placed block).map function.handleTokens

/-- The tokens of the lines of a function with its facts. -/
def tokenLines (function : Function) (facts : Option Facts) : List (List Token) :=
  function.signatureTokens :: (facts.map fun facts => facts.tokens function).toList ++
    function.blocks.handles.flatMap function.bodyTokens ++ [[.mark .closeBrace]]

theorem handleTokens_eq (stored : function.instructions.get? handle = some instruction) :
    function.handleTokens handle = function.instructionTokens handle instruction := by
  unfold handleTokens
  rw [stored]
  rfl

theorem instructionTokens_ne_nil (function : Function) (handle : InstId)
    (instruction : Instruction) : function.instructionTokens handle instruction ≠ [] :=
  List.append_ne_nil_of_right_ne_nil _ (List.cons_ne_nil _ _)

namespace Legible

theorem laidOut_instruction (legible : function.Legible)
    (member : handle ∈ function.allPlaced) :
    LaidOut ("  " ++ function.instructionLine handle) (function.handleTokens handle) := by
  obtain ⟨instruction, stored⟩ := legible.exists_stored member
  rw [handleTokens_eq stored]
  refine ⟨.inr ?_, function.instructionTokens_ne_nil handle instruction,
    legible.isLegal_instructionTokens member stored⟩
  unfold instructionLine
  rw [stored]

theorem laidOut_block (legible : function.Legible) (present : block < function.blocks.size) :
    List.Forall₂ LaidOut (function.blockLines block) (function.bodyTokens block) := by
  apply List.Forall₂.cons
  · refine ⟨.inl rfl, List.cons_ne_nil _ _, ?_⟩
    exact List.forall_mem_cons.2 ⟨legible.isLegal_blockToken present,
      List.forall_mem_singleton.2 rfl⟩
  · rw [List.forall₂_map_left_iff, List.forall₂_map_right_iff, List.forall₂_same]
    intro handle member
    exact legible.laidOut_instruction ((function.placed_sublist block).subset member)

theorem laidOut_blocks (legible : function.Legible) {blocks : List BlockId}
    (present : ∀ block ∈ blocks, block < function.blocks.size) :
    List.Forall₂ LaidOut (blocks.flatMap function.blockLines)
      (blocks.flatMap function.bodyTokens) := by
  induction blocks with
  | nil => exact .nil
  | cons block blocks inductionHypothesis =>
      rw [List.forall_mem_cons] at present
      exact List.rel_append (legible.laidOut_block present.1) (inductionHypothesis present.2)

/-- The lines of a function are laid out from its token lists. -/
theorem laidOut_lines (legible : function.Legible) {facts : Option Facts}
    (printableFacts : ∀ listed ∈ facts, listed.Printable function) :
    List.Forall₂ LaidOut (function.lines (facts.bind function.directive?).toList)
      (function.tokenLines facts) := by
  have signature : LaidOut (Token.layout function.signatureTokens) function.signatureTokens :=
    ⟨.inl rfl, List.cons_ne_nil _ _, legible.isLegal_signatureTokens⟩
  have closing : LaidOut (Token.layout [.mark .closeBrace]) [.mark .closeBrace] :=
    ⟨.inl rfl, List.cons_ne_nil _ _, List.forall_mem_singleton.2 rfl⟩
  have header : List.Forall₂ LaidOut ((facts.bind function.directive?).toList.map ("  " ++ ·))
      (facts.map fun facts => facts.tokens function).toList := by
    cases facts with
    | none => exact .nil
    | some facts =>
        have printableListed := printableFacts facts rfl
        rw [Option.bind_some, printableListed.directive?_eq]
        exact .cons ⟨.inr rfl, List.cons_ne_nil _ _,
          legible.isLegal_factTokens printableListed⟩ .nil
  have blocks : List.Forall₂ LaidOut (function.blocks.handles.flatMap function.blockLines)
      (function.blocks.handles.flatMap function.bodyTokens) :=
    legible.laidOut_blocks fun block member => List.mem_range.1 member
  exact List.rel_append (List.rel_append (.cons signature header) blocks) (.cons closing .nil)

end Legible

end Function

namespace Program

variable {program : Program}

theorem Legible.function_of_get? (legible : program.Legible) {handle : FuncId}
    {function : Function} (isFunction : program.module.functions.get? handle = some function) :
    function.Legible :=
  legible.functions function (List.mem_of_getElem? isFunction)

theorem Legible.facts_of_get? (legible : program.Legible) {handle : FuncId}
    {function : Function} (isFunction : program.module.functions.get? handle = some function) :
    ∀ facts ∈ program.facts.get? handle, facts.Printable function := by
  intro facts isFacts
  obtain ⟨other, isOther, printableFacts⟩ := legible.facts isFacts
  cases isFunction.symm.trans isOther
  exact printableFacts

/-- The text of a legible program is tokenized into the token lists of its
functions, one after the other. -/
theorem Legible.exists_tokenizeLines (legible : program.Legible) : ∃ lines,
    tokenizeLines 1 (splitLines program.render.toList) = .ok lines ∧
      lines.map Line.tokens = (program.module.functions.entries.mapIdx fun handle function =>
        function.tokenLines (program.facts.get? handle)).flatten := by
  have laidOut : List.Forall₂ (List.Forall₂ LaidOut)
      (program.module.functions.entries.mapIdx fun handle function =>
        function.lines ((program.facts.get? handle).bind function.directive?).toList)
      (program.module.functions.entries.mapIdx fun handle function =>
        function.tokenLines (program.facts.get? handle)) := by
    rw [List.forall₂_iff_get]
    refine ⟨by simp, fun handle below _ => ?_⟩
    have present : handle < program.module.functions.entries.length := by simpa using below
    have isFunction : program.module.functions.get? handle =
        some (program.module.functions.entries.get ⟨handle, present⟩) :=
      List.getElem?_eq_getElem present
    have lines := (legible.function_of_get? isFunction).laidOut_lines
      (legible.facts_of_get? isFunction)
    simpa using lines
  have sameText : program.render = String.intercalate "\n"
      ((program.module.functions.entries.mapIdx fun handle function =>
        function.lines ((program.facts.get? handle).bind function.directive?).toList).map
          fun lines => String.join (lines.map (· ++ "\n"))) := by
    unfold render Module.renderWith
    rw [List.mapIdx_eq_zipIdx_map, List.mapIdx_eq_zipIdx_map, List.map_map]
    rfl
  rw [sameText]
  exact LaidOut.exists_tokenizeLines laidOut

end Program

end Workgroup

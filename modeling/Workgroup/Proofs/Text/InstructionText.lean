import Workgroup.Proofs.Text.Reading
import Workgroup.Proofs.Text.Renumbering

/-!
Contract: instructions and facts are read back as they were printed.

The reader resolves names in a sketch of the function: its labels, its
arguments and the names of its results by place are known, its instructions
are not.  What is read is the printed instruction with its handles renumbered.

Owns:
- sketches of a function, and how they resolve names;
- the answer of the reader for the tokens of instructions and facts;
- printed tokens are legal.
-/

namespace Workgroup

open Text

/-! ## Numbers -/

theorem int32?_toInt (value : Int32) : int32? value.toInt = some value := by
  unfold int32?
  rw [if_pos, Int32.ofInt_toInt]
  rw [Bool.and_eq_true, decide_eq_true_eq, decide_eq_true_eq]
  exact ⟨value.minValue_le_toInt, value.toInt_le⟩

theorem uint32?_toNat (value : UInt32) : uint32? (value.toNat : Int) = some value := by
  unfold uint32?
  rw [if_pos, Int.toNat_natCast, UInt32.ofNat_toNat]
  rw [Bool.and_eq_true, decide_eq_true_eq, decide_eq_true_eq]
  exact ⟨Int.natCast_nonneg _, Int.ofNat_lt.2 value.toNat_lt⟩

theorem fitsToken_of_bounds {number : Int} (lower : -2147483648 ≤ number)
    (upper : number ≤ 4294967295) : fitsToken number = true := by
  have least : Int64.minValue.toInt = -9223372036854775808 := rfl
  have greatest : Int64.maxValue.toInt = 9223372036854775807 := rfl
  unfold fitsToken
  rw [Bool.and_eq_true, decide_eq_true_eq, decide_eq_true_eq]
  omega

theorem fitsToken_int32 (value : Int32) : fitsToken value.toInt = true := by
  have lower := value.minValue_le_toInt
  have upper := value.toInt_le
  have least : Int32.minValue.toInt = -2147483648 := rfl
  have greatest : Int32.maxValue.toInt = 2147483647 := rfl
  apply fitsToken_of_bounds <;> omega

theorem fitsToken_uint32 (value : UInt32) : fitsToken (value.toNat : Int) = true := by
  have upper := value.toNat_lt
  apply fitsToken_of_bounds <;> omega

/-! ## Names in a sketch -/

/-- The first entry with the name of an entry is the entry itself, if names are
distinct. -/
theorem findIdx?_eq_of_nodup {α β : Type} [BEq β] [LawfulBEq β] {entries : List α}
    {name : α → β} (distinct : (entries.map name).Nodup) {index : Nat} {entry : α}
    (isEntry : entries[index]? = some entry) :
    entries.findIdx? (fun other => name other == name entry) = some index := by
  obtain ⟨below, same⟩ := List.getElem?_eq_some_iff.1 isEntry
  refine List.findIdx?_eq_some_iff_getElem.2 ⟨below, ?_, fun other before found => ?_⟩
  · rw [same]
    exact beq_self_eq_true _
  · have otherBelow := Nat.lt_trans before below
    have belowNames : index < (entries.map name).length := by
      rw [List.length_map]
      exact below
    apply List.nodup_iff_getElem?_ne_getElem?.1 distinct other index before belowNames
    rw [List.getElem?_map, List.getElem?_map, isEntry, List.getElem?_eq_getElem otherBelow]
    exact congrArg some (eq_of_beq found)

namespace Function

variable {function scope : Function} {handle : InstId} {block : BlockId} {name : String}

/-- A scope in which the names of a function can be resolved by place. -/
structure Sketches (scope function : Function) : Prop where
  arguments_eq : scope.arguments = function.arguments
  labels_eq : scope.blocks.entries.map Block.label = function.blocks.entries.map Block.label
  names_eq : ∀ place, scope.valueNames.get? place =
    function.allPlaced[place]?.bind function.valueNames.get?

theorem defines_result {instruction : Instruction} (member : handle ∈ function.allPlaced)
    (stored : function.instructions.get? handle = some instruction)
    (hasResult : instruction.hasResult = true) : function.Defines (.result handle) := by
  refine ⟨member, ?_⟩
  unfold Function.hasResult
  rw [stored]
  exact hasResult

theorem valueToken_result (isName : function.valueNames.get? handle = some name) :
    function.valueToken (.result handle) = .valueName name := by
  show Token.valueName ((function.valueNames.get? handle).getD (toString handle)) = _
  rw [isName]
  rfl

theorem valueToken_argument {index : Nat} {argument : Argument}
    (isArgument : function.arguments[index]? = some argument) :
    function.valueToken (.argument index) = .valueName argument.name := by
  show Token.valueName ((function.arguments[index]?.map Argument.name).getD s!"arg{index}") = _
  rw [isArgument]
  rfl

/-- No value is spelled with a mark. -/
theorem valueToken_ne_mark (function : Function) (value : Value) (sign : Mark) :
    function.valueToken value ≠ .mark sign := by
  cases value with
  | constant literal =>
      cases literal with
      | bool truth => cases truth <;> exact nofun
      | int amount => exact nofun
  | _ => exact nofun

theorem Legible.exists_blockToken (legible : function.Legible)
    (present : block < function.blocks.size) : ∃ label,
      function.blockToken block = .word label ∧ isLabel label = true ∧
      (function.blocks.entries.map Block.label)[block]? = some (some label) := by
  obtain ⟨body, label, isBody, labelled, legal⟩ := legible.exists_label present
  refine ⟨label, ?_, legal, ?_⟩
  · unfold blockToken blockName
    rw [isBody, Option.bind_some, labelled]
    rfl
  · rw [List.getElem?_map]
    exact congrArg (Option.map Block.label) isBody |>.trans (congrArg some labelled)

theorem Printable.exists_resultName (printable : function.Printable)
    (defines : function.Defines (.result handle)) : ∃ name,
      function.valueNames.get? handle = some name ∧ isName name = true := by
  obtain ⟨name, isResultName⟩ := Option.isSome_iff_exists.1 (printable.named_iff.2 defines)
  exact ⟨name, isResultName, printable.legible.isName_result isResultName⟩

namespace Sketches

/-- A label leads to its block. -/
theorem takes_target (sketches : scope.Sketches function) (printable : function.Printable)
    (present : block < function.blocks.size) :
    (Reader.target scope).Takes [function.blockToken block] block := by
  obtain ⟨label, isToken, -, isLabel⟩ := printable.legible.exists_blockToken present
  have found : scope.blockLabelled? label = some block := by
    rw [← sketches.labels_eq, List.getElem?_map] at isLabel
    obtain ⟨body, isBody, labelled⟩ := Option.map_eq_some_iff.1 isLabel
    have distinct : (scope.blocks.entries.map Block.label).Nodup := by
      rw [sketches.labels_eq]
      exact printable.distinctLabels
    have index := findIdx?_eq_of_nodup distinct isBody
    rw [labelled] at index
    exact index
  rw [isToken]
  intro rest
  unfold Reader.target
  rw [(Reader.takes_word .blockLabel label).bind_eq, found]
  rfl

theorem valueNamed?_argument (sketches : scope.Sketches function) (printable : function.Printable)
    {index : Nat} {argument : Argument} (isArgument : function.arguments[index]? = some argument) :
    scope.valueNamed? argument.name = some (.argument index) := by
  unfold valueNamed?
  rw [sketches.arguments_eq, findIdx?_eq_of_nodup printable.distinct_arguments isArgument]

theorem valueNamed?_result (sketches : scope.Sketches function) (printable : function.Printable)
    (member : handle ∈ function.allPlaced) (isName : function.valueNames.get? handle = some name) :
    scope.valueNamed? name = some (.result (function.placeOf handle)) := by
  have notArgument : scope.arguments.findIdx? (fun argument => argument.name == name) = none := by
    rw [sketches.arguments_eq]
    exact printable.findIdx?_argument_eq_none isName
  have isEntry : scope.valueNames.get? (function.placeOf handle) = some name := by
    rw [sketches.names_eq, getElem?_placeOf member]
    exact isName
  have found : ∃ entry, scope.valueNames.entries.find? (fun entry => entry.2 == name) =
      some entry := by
    rw [← Option.isSome_iff_exists, List.find?_isSome]
    exact ⟨_, IndexMap.get?_eq_some_iff.1 isEntry, beq_self_eq_true name⟩
  obtain ⟨⟨place, other⟩, isFirst⟩ := found
  have spelled := List.find?_some isFirst
  have sameName : other = name := eq_of_beq spelled
  have isPlace := IndexMap.get?_eq_some_iff.2 (List.mem_of_find?_eq_some isFirst)
  rw [sameName, sketches.names_eq, Option.bind_eq_some_iff] at isPlace
  obtain ⟨first, isFirstHandle, isFirstName⟩ := isPlace
  have sameHandle := printable.result_unique isName isFirstName
  unfold valueNamed?
  rw [notArgument, isFirst]
  show some (Value.result place) = _
  rw [sameHandle, printable.wellPlaced.placeOf_eq isFirstHandle]

/-- A value that can be named is read as the value at its place. -/
theorem takes_operand (sketches : scope.Sketches function) (printable : function.Printable)
    {value : Value} (defines : function.Defines value) :
    (Reader.operand scope).Takes [function.valueToken value]
      (value.renumber function.placeOf) := by
  intro rest
  cases value with
  | result handle =>
      obtain ⟨name, isName, -⟩ := printable.exists_resultName defines
      rw [valueToken_result isName]
      show Reader.operand scope (.valueName name :: rest) = _
      unfold Reader.operand
      simp only [sketches.valueNamed?_result printable defines.1 isName]
      rfl
  | argument index =>
      obtain ⟨argument, isArgument⟩ : ∃ argument, function.arguments[index]? = some argument :=
        ⟨_, List.getElem?_eq_getElem defines⟩
      rw [valueToken_argument isArgument]
      show Reader.operand scope (.valueName argument.name :: rest) = _
      unfold Reader.operand
      simp only [sketches.valueNamed?_argument printable isArgument]
      rfl
  | constant literal =>
      cases literal with
      | bool truth => cases truth <;> rfl
      | int amount =>
          show Reader.operand scope (.number amount.toInt :: rest) = _
          unfold Reader.operand
          simp only [int32?_toInt]
          rfl

/-! ## Operands -/

variable {left right : Value} {instruction : Instruction}

theorem takes_operandPair (sketches : scope.Sketches function) (printable : function.Printable)
    (definesLeft : function.Defines left) (definesRight : function.Defines right) :
    (Reader.operandPair scope).Takes
      [function.valueToken left, .mark .comma, function.valueToken right]
      (left.renumber function.placeOf, right.renumber function.placeOf) :=
  (sketches.takes_operand printable definesLeft).bind
    ((Reader.takes_expect .comma).bind
      ((sketches.takes_operand printable definesRight).return _))

theorem takes_incoming (sketches : scope.Sketches function) (printable : function.Printable)
    (defines : function.Defines left) (present : block < function.blocks.size) :
    (Reader.incoming scope).Takes
      [.mark .openBracket, function.valueToken left, .mark .comma, function.blockToken block,
        .mark .closeBracket]
      (left.renumber function.placeOf, block) :=
  (Reader.takes_expect .openBracket).bind
    ((sketches.takes_operand printable defines).bind
      ((Reader.takes_expect .comma).bind
        ((sketches.takes_target printable present).bind
          ((Reader.takes_expect .closeBracket).return _))))

theorem takes_switchCase (sketches : scope.Sketches function) (printable : function.Printable)
    (amount : Int32) (present : block < function.blocks.size) :
    (Reader.switchCase scope).Takes
      [.number amount.toInt, .mark .colon, function.blockToken block] (amount, block) :=
  (Reader.takes_number .caseValue (int32?_toInt amount)).bind
    ((Reader.takes_expect .colon).bind ((sketches.takes_target printable present).return _))

/-- The operands of an instruction are read up to the end of the line. -/
theorem operands_eq (sketches : scope.Sketches function) (printable : function.Printable)
    (canPrint : function.CanPrint instruction) :
    Reader.operands scope instruction.opcode (function.operandTokens instruction) =
      .ok (instruction.renumber function.placeOf, []) := by
  cases instruction with
  | phi type incoming =>
      apply ((Reader.takes_scalarType type).bind_eq).trans
      apply Reader.bind_eq
      apply Reader.items_atEnd_eq
      · exact fun entry _ => List.cons_ne_nil _ _
      · intro entry member
        exact sketches.takes_incoming printable
          (canPrint.operands entry.1 (List.mem_map_of_mem member))
          (canPrint.incomingBlocks entry.2 (List.mem_map_of_mem member))
  | binary op left right =>
      have pair := sketches.takes_operandPair printable
        (canPrint.operands left (by simp [Instruction.operands]))
        (canPrint.operands right (by simp [Instruction.operands]))
      exact (pair.return _).whole
  | compare op left right =>
      have pair := sketches.takes_operandPair printable
        (canPrint.operands left (by simp [Instruction.operands]))
        (canPrint.operands right (by simp [Instruction.operands]))
      exact ((Reader.takes_comparison op).bind (pair.return _)).whole
  | select condition accept reject =>
      have pair := sketches.takes_operandPair printable
        (canPrint.operands accept (by simp [Instruction.operands]))
        (canPrint.operands reject (by simp [Instruction.operands]))
      have takesCondition := sketches.takes_operand printable
        (canPrint.operands condition (by simp [Instruction.operands]))
      exact (takesCondition.bind ((Reader.takes_expect .comma).bind (pair.return _))).whole
  | workItem query dimension =>
      exact ((Reader.takes_number .dimension (uint32?_toNat dimension)).return _).whole
  | load pointer =>
      have takesPointer := sketches.takes_operand printable
        (canPrint.operands pointer (by simp [Instruction.operands]))
      exact (takesPointer.return _).whole
  | store pointer value =>
      have pair := sketches.takes_operandPair printable
        (canPrint.operands pointer (by simp [Instruction.operands]))
        (canPrint.operands value (by simp [Instruction.operands]))
      exact (pair.return _).whole
  | call callee arguments =>
      have takesArguments : (Reader.items (Reader.accept .closeParen) fun _ =>
          Reader.operand scope).Takes _ (arguments.map (Value.renumber function.placeOf)) :=
        Reader.takes_items nofun
          (fun argument _ => ⟨_, [], rfl, function.valueToken_ne_mark argument _⟩)
          (fun argument member => sketches.takes_operand printable
            (canPrint.operands argument member))
      exact ((Reader.takes_functionName callee).bind
        ((Reader.takes_expect .openParen).bind (takesArguments.return _))).whole
  | barrier => rfl
  | branch target =>
      have takesTarget := sketches.takes_target printable
        (canPrint.successors target (by simp [Instruction.successors]))
      exact (takesTarget.return _).whole
  | condBranch condition accept reject =>
      have takesCondition := sketches.takes_operand printable
        (canPrint.operands condition (by simp [Instruction.operands]))
      have takesAccept := sketches.takes_target printable
        (canPrint.successors accept (by simp [Instruction.successors]))
      have takesReject := sketches.takes_target printable
        (canPrint.successors reject (by simp [Instruction.successors]))
      exact (takesCondition.bind ((Reader.takes_expect .comma).bind
        (takesAccept.bind ((Reader.takes_expect .comma).bind (takesReject.return _))))).whole
  | switch selector fallback cases =>
      have takesSelector := sketches.takes_operand printable
        (canPrint.operands selector (by simp [Instruction.operands]))
      have takesFallback := sketches.takes_target printable
        (canPrint.successors fallback (by simp [Instruction.successors]))
      have takesCases : (Reader.items (Reader.accept .closeBracket) fun _ =>
          Reader.switchCase scope).Takes _ (cases.map fun entry => (entry.1, entry.2)) :=
        Reader.takes_items nofun (fun entry _ => ⟨.number entry.1.toInt, _, rfl, nofun⟩)
          (fun entry member => sketches.takes_switchCase printable entry.1
            (canPrint.successors entry.2 (List.mem_cons_of_mem _ (List.mem_map_of_mem member))))
      rw [List.map_id'] at takesCases
      exact (takesSelector.bind ((Reader.takes_expect .comma).bind
        (takesFallback.bind ((Reader.takes_expect .openBracket).bind (takesCases.return _))))).whole
  | ret value =>
      cases value with
      | none => rfl
      | some value =>
          have takesValue := sketches.takes_operand printable
            (canPrint.operands value (by simp [Instruction.operands]))
          apply (Reader.bind_eq (Reader.atEnd_cons _ [])).trans
          exact (takesValue.return _).whole
  | unreachable => rfl

/-! ## Lines -/

theorem operation_eq (sketches : scope.Sketches function) (printable : function.Printable)
    (canPrint : function.CanPrint instruction) {named : Bool}
    (result : named = true → instruction.hasResult = true) :
    Reader.operation scope named
        (.word instruction.opcode.mnemonic :: function.operandTokens instruction) =
      .ok (instruction.renumber function.placeOf, []) := by
  unfold Reader.operation
  apply ((Reader.takes_word .opcode instruction.opcode.mnemonic).bind_eq).trans
  rw [Opcode.ofMnemonic?_mnemonic]
  apply (Reader.bind_eq (sketches.operands_eq printable canPrint)).trans
  apply (Reader.bind_eq Reader.finish_nil).trans
  cases named with
  | false => rfl
  | true =>
      have hasResult : instruction.opcode.hasResult = true := result rfl
      rw [hasResult]
      rfl

/-- The line of a placed instruction is read as the instruction, renumbered. -/
theorem instruction_eq (sketches : scope.Sketches function) (printable : function.Printable)
    (member : handle ∈ function.allPlaced)
    (stored : function.instructions.get? handle = some instruction) :
    Reader.instruction scope (function.instructionTokens handle instruction) =
      .ok (instruction.renumber function.placeOf, []) := by
  have canPrint := printable.instructions handle member instruction stored
  unfold instructionTokens
  by_cases hasResult : instruction.hasResult = true
  · have defines := defines_result member stored hasResult
    obtain ⟨name, isName, -⟩ := printable.exists_resultName defines
    rw [if_pos hasResult, valueToken_result isName]
    apply (Reader.bind_eq (Reader.takes_expect .equals _)).trans
    exact sketches.operation_eq printable canPrint fun _ => hasResult
  · rw [if_neg hasResult]
    exact sketches.operation_eq printable canPrint nofun

end Sketches

/-! ## Facts -/

def factToken (function : Function) : Fact → Token
  | .block block => function.blockToken block
  | .value value => function.valueToken value

/-- Whether an entry of a list of facts can be named in the text. -/
def DefinesFact (function : Function) : Fact → Prop
  | .block block => block < function.blocks.size
  | .value value => value.isConstant = false ∧ function.Defines value

end Function

def Fact.renumber (rename : InstId → InstId) : Fact → Fact
  | .block handle => .block handle
  | .value operand => .value (operand.renumber rename)

namespace Facts

variable {facts : Facts} {function scope : Function}

/-- The entries of the list of facts: blocks, then values. -/
def listed (facts : Facts) : List Fact :=
  facts.blocks.toList.map .block ++ facts.values.toList.map .value

theorem Printable.definesFact (printable : facts.Printable function) :
    ∀ entry ∈ facts.listed, function.DefinesFact entry := by
  intro entry member
  rcases List.mem_append.1 member with isBlock | isValue
  · obtain ⟨block, blockMember, rfl⟩ := List.mem_map.1 isBlock
    exact printable.blocks block blockMember
  · obtain ⟨value, valueMember, rfl⟩ := List.mem_map.1 isValue
    exact printable.values value valueMember

theorem Printable.listed_ne_nil (printable : facts.Printable function) : facts.listed ≠ [] := by
  intro empty
  obtain ⟨noBlocks, noValues⟩ := List.append_eq_nil_iff.1 empty
  have isEmpty : facts.isEmpty = true := by
    unfold isEmpty OrderedSet.isEmpty
    rw [List.map_eq_nil_iff.1 noBlocks, List.map_eq_nil_iff.1 noValues]
    rfl
  rw [printable.nonempty] at isEmpty
  exact absurd isEmpty nofun

/-- Renumbering keeps at least one fact. -/
theorem isEmpty_renumber (facts : Facts) (rename : InstId → InstId)
    (nonempty : facts.isEmpty = false) : (facts.renumber rename).isEmpty = false := by
  rw [Bool.eq_false_iff] at nonempty ⊢
  intro nothing
  apply nonempty
  unfold isEmpty OrderedSet.isEmpty at nothing ⊢
  obtain ⟨noBlocks, noValues⟩ := Bool.and_eq_true_iff.1 nothing
  rw [Bool.and_eq_true_iff]
  refine ⟨noBlocks, List.isEmpty_iff.2 (List.eq_nil_iff_forall_not_mem.2 fun value member => ?_)⟩
  have kept : value.renumber rename ∈ (facts.renumber rename).values :=
    OrderedSet.mem_ofList.2 (List.mem_map_of_mem member)
  rw [← OrderedSet.mem_toList, List.isEmpty_iff.1 noValues] at kept
  exact absurd kept List.not_mem_nil

/-- The tokens of a line of facts. -/
def tokens (facts : Facts) (function : Function) : List Token :=
  .word "uniform" :: Token.commaSeparated (facts.listed.map fun entry => [function.factToken entry])

theorem Printable.directive?_eq (printable : facts.Printable function) :
    function.directive? facts = some (Token.layout (facts.tokens function)) := by
  have noConstant : facts.values.toList.filter (fun value => !value.isConstant) =
      facts.values.toList := by
    rw [List.filter_eq_self]
    intro value member
    rw [(printable.values value member).1]
    rfl
  have sameTokens : function.factTokens facts = facts.listed.map function.factToken := by
    unfold Function.factTokens listed
    rw [noConstant, List.map_append, List.map_map, List.map_map]
    rfl
  unfold Function.directive?
  rw [sameTokens, if_neg]
  · rw [List.map_map]
    rfl
  · rw [List.isEmpty_iff, List.map_eq_nil_iff]
    exact printable.listed_ne_nil

theorem mem_blocks_foldl_mark {entries : List Fact} {start : Facts} {block : BlockId} :
    block ∈ (entries.foldl mark start).blocks ↔ block ∈ start.blocks ∨ .block block ∈ entries := by
  induction entries generalizing start with
  | nil => simp
  | cons entry entries inductionHypothesis =>
      rw [List.foldl_cons, inductionHypothesis]
      cases entry with
      | block other =>
          show block ∈ start.blocks.insert other ∨ _ ↔ _
          rw [OrderedSet.mem_insert, List.mem_cons, Fact.block.injEq, or_assoc, or_left_comm]
      | value other =>
          show block ∈ start.blocks ∨ _ ↔ _
          rw [List.mem_cons, or_iff_right (fun same => Fact.noConfusion same)]

theorem mem_values_foldl_mark {entries : List Fact} {start : Facts} {value : Value} :
    value ∈ (entries.foldl mark start).values ↔ value ∈ start.values ∨ .value value ∈ entries := by
  induction entries generalizing start with
  | nil => simp
  | cons entry entries inductionHypothesis =>
      rw [List.foldl_cons, inductionHypothesis]
      cases entry with
      | block other =>
          show value ∈ start.values ∨ _ ↔ _
          rw [List.mem_cons, or_iff_right (fun same => Fact.noConfusion same)]
      | value other =>
          show value ∈ start.values.insert other ∨ _ ↔ _
          rw [OrderedSet.mem_insert, List.mem_cons, Fact.value.injEq, or_assoc, or_left_comm]

/-- Marking all listed facts again restores them, renumbered. -/
theorem foldl_mark_listed (facts : Facts) (rename : InstId → InstId) :
    (facts.listed.map (Fact.renumber rename)).foldl mark .empty = facts.renumber rename := by
  have sameBlocks : ((facts.listed.map (Fact.renumber rename)).foldl mark .empty).blocks =
      facts.blocks := by
    apply OrderedSet.ext
    intro block
    refine mem_blocks_foldl_mark.trans ((or_iff_right (OrderedSet.not_mem_empty block)).trans ?_)
    simp [listed, Fact.renumber, OrderedSet.mem_toList]
  have sameValues : ((facts.listed.map (Fact.renumber rename)).foldl mark .empty).values =
      .ofList (facts.values.toList.map (Value.renumber rename)) := by
    apply OrderedSet.ext
    intro value
    refine mem_values_foldl_mark.trans ((or_iff_right (OrderedSet.not_mem_empty value)).trans ?_)
    rw [OrderedSet.mem_ofList]
    simp [listed, Fact.renumber]
  cases restored : (facts.listed.map (Fact.renumber rename)).foldl mark .empty
  rw [restored] at sameBlocks sameValues
  exact congrArg₂ Facts.mk sameBlocks sameValues

end Facts

namespace Function.Sketches

variable {facts : Facts} {function scope : Function} {entry : Fact}

theorem takes_fact (sketches : scope.Sketches function) (printable : function.Printable)
    (defines : function.DefinesFact entry) :
    (Reader.fact scope).Takes [function.factToken entry] (entry.renumber function.placeOf) := by
  intro rest
  cases entry with
  | block block =>
      have read : (Fact.block <$> Reader.target scope) ([function.blockToken block] ++ rest) =
          .ok (.block block, rest) := (sketches.takes_target printable defines).return _ rest
      obtain ⟨label, isToken, -⟩ := printable.legible.exists_blockToken defines
      show Reader.fact scope (function.blockToken block :: rest) = _
      rw [isToken] at read ⊢
      exact read
  | value value =>
      have read : (Fact.value <$> Reader.operand scope) ([function.valueToken value] ++ rest) =
          .ok (.value (value.renumber function.placeOf), rest) :=
        (sketches.takes_operand printable defines.2).return _ rest
      have isNamed : ∃ name, function.valueToken value = .valueName name := by
        cases value with
        | result handle => exact ⟨_, rfl⟩
        | argument index => exact ⟨_, rfl⟩
        | constant literal => exact absurd defines.1 nofun
      obtain ⟨name, isToken⟩ := isNamed
      show Reader.fact scope (function.valueToken value :: rest) = _
      rw [isToken] at read ⊢
      exact read

/-- The line of facts is read as the listed facts, renumbered. -/
theorem factLine_eq (sketches : scope.Sketches function) (printable : function.Printable)
    (printableFacts : facts.Printable function) :
    Reader.factLine scope (facts.tokens function) =
      .ok (facts.listed.map (Fact.renumber function.placeOf), []) := by
  apply ((Reader.takes_word .fact "uniform").bind_eq).trans
  apply Reader.items_atEnd_eq
  · exact fun entry _ => List.cons_ne_nil _ _
  · intro entry member
    exact sketches.takes_fact printable (printableFacts.definesFact entry member)

end Function.Sketches

end Workgroup

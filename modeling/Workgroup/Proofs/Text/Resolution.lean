import Workgroup.Proofs.Text.InstructionText
import Workgroup.Proofs.Text.Placement

/-!
Contract: what a reader answers is what the tokens it has taken spell.

Names are looked up and numbers are converted while a line is read, so nothing
else could have been meant: the tokens in front of those that are left are the
spelling of the answer in the same scope, and every name in it is known there.

Owns:
- values and instructions that a scope resolves;
- names that occur in a line;
- readers as partial inverses of the spelling, from one token to whole lines.
-/

namespace Workgroup

namespace Function

/-- Whether a scope has a name for the value: a constant, a declared argument or
a named result. -/
def Knows (scope : Function) : Value → Prop
  | .result handle => (scope.valueNames.get? handle).isSome = true
  | .argument index => index < scope.arguments.length
  | .constant _ => True

/-- Whether a scope knows all values and blocks that an instruction mentions. -/
structure Resolves (scope : Function) (instruction : Instruction) : Prop where
  operands : ∀ value ∈ instruction.operands, scope.Knows value
  successors : ∀ block ∈ instruction.successors, block < scope.blocks.size
  incomingBlocks : ∀ block ∈ instruction.incomingBlocks, block < scope.blocks.size

/-- An instruction that mentions no blocks is resolved once its operands are known. -/
theorem Resolves.of_operands {scope : Function} {instruction : Instruction}
    (known : ∀ value ∈ instruction.operands, scope.Knows value)
    (noBlocks : instruction.successors ++ instruction.incomingBlocks = []) :
    scope.Resolves instruction where
  operands := known
  successors := by
    rw [(List.append_eq_nil_iff.1 noBlocks).1]
    exact fun _ member => absurd member List.not_mem_nil
  incomingBlocks := by
    rw [(List.append_eq_nil_iff.1 noBlocks).2]
    exact fun _ member => absurd member List.not_mem_nil

/-- Whether a scope knows the block or the value of a fact, which is no constant. -/
def KnowsFact (scope : Function) : Fact → Prop
  | .block block => block < scope.blocks.size
  | .value value => value.isConstant = false ∧ scope.Knows value

end Function

namespace Text.Reader

variable {α : Type} {scope : Function} {tokens rest : List Token}

/-- What the reader takes is the spelling of its answer, which has a property. -/
def TakesOnly (reader : Reader α) (spell : α → List Token) (holds : α → Prop) : Prop :=
  ∀ tokens value rest, reader tokens = .ok (value, rest) →
    tokens = spell value ++ rest ∧ holds value

/-- One step of a reader that has succeeded. -/
theorem TakesOnly.of_bind {β : Type} {reader : Reader α} {next : α → Reader β}
    {spell : α → List Token} {holds : α → Prop} {result : β}
    (takesOnly : reader.TakesOnly spell holds)
    (read : (reader >>= next) tokens = .ok (result, rest)) : ∃ value between,
      tokens = spell value ++ between ∧ holds value ∧ next value between = .ok (result, rest) := by
  obtain ⟨value, between, first, second⟩ := exists_of_bind_eq_ok read
  obtain ⟨isTokens, known⟩ := takesOnly _ _ _ first
  exact ⟨value, between, isTokens, known, second⟩

/-! ## One token -/

theorem word_takesOnly (expectation : Expectation) :
    (word expectation).TakesOnly (fun name => [.word name]) fun _ => True := by
  intro tokens name rest read
  unfold word at read
  split at read
  · cases read
    exact ⟨rfl, trivial⟩
  · exact absurd read nofun

theorem valueName_takesOnly (expectation : Expectation) :
    (valueName expectation).TakesOnly (fun name => [.valueName name]) fun _ => True := by
  intro tokens name rest read
  unfold valueName at read
  split at read
  · cases read
    exact ⟨rfl, trivial⟩
  · exact absurd read nofun

theorem functionName_takesOnly :
    functionName.TakesOnly (fun name => [.functionName name]) fun _ => True := by
  intro tokens name rest read
  unfold functionName at read
  split at read
  · cases read
    exact ⟨rfl, trivial⟩
  · exact absurd read nofun

theorem number_takesOnly (expectation : Expectation) {fit? : Int → Option α} (amount : α → Int)
    (fits : ∀ {number value}, fit? number = some value → number = amount value) :
    (number expectation fit?).TakesOnly (fun value => [.number (amount value)])
      fun _ => True := by
  intro tokens value rest read
  unfold number at read
  split at read
  · split at read
    · next isValue =>
      cases read
      rw [fits isValue]
      exact ⟨rfl, trivial⟩
    · exact absurd read nofun
  · exact absurd read nofun

theorem eq_toInt_of_int32? {number : Int} {value : Int32} (fits : int32? number = some value) :
    number = value.toInt := by
  unfold int32? at fits
  split at fits
  · next bounds =>
    rw [Bool.and_eq_true, decide_eq_true_eq, decide_eq_true_eq] at bounds
    have least : Int32.minValue.toInt = -2147483648 := rfl
    have greatest : Int32.maxValue.toInt = 2147483647 := rfl
    rw [← Option.some.inj fits, Int32.toInt_ofInt_of_le] <;> omega
  · exact absurd fits nofun

theorem eq_toNat_of_uint32? {number : Int} {value : UInt32} (fits : uint32? number = some value) :
    number = value.toNat := by
  unfold uint32? at fits
  split at fits
  · next bounds =>
    rw [Bool.and_eq_true, decide_eq_true_eq, decide_eq_true_eq] at bounds
    have size : UInt32.size = 4294967296 := rfl
    rw [← Option.some.inj fits, UInt32.toNat_ofNat_of_lt'] <;> omega
  · exact absurd fits nofun

theorem accept_eq_true {sign : Mark} (read : accept sign tokens = .ok (true, rest)) :
    tokens = .mark sign :: rest := by
  unfold accept at read
  split at read
  · split at read
    · next same =>
      cases read
      rw [same]
    · cases read
  · cases read

theorem accept_eq_false {sign : Mark} (read : accept sign tokens = .ok (false, rest)) :
    rest = tokens := by
  unfold accept at read
  split at read
  · split at read
    · cases read
    · cases read
      rfl
  · cases read
    rfl

theorem expect_takesOnly (sign : Mark) :
    (expect sign).TakesOnly (fun _ => [.mark sign]) fun _ => True := by
  intro tokens value rest read
  unfold expect at read
  obtain ⟨accepted, _, first, read⟩ := exists_of_bind_eq_ok read
  cases accepted with
  | true =>
      cases read
      exact ⟨accept_eq_true first, trivial⟩
  | false => exact absurd read nofun

theorem atEnd_eq_ok {isEnd : Bool} (read : atEnd tokens = .ok (isEnd, rest)) :
    rest = tokens ∧ (isEnd = true → tokens = []) := by
  unfold atEnd at read
  cases read
  exact ⟨rfl, List.isEmpty_iff.1⟩

theorem finish_eq_ok {done : Unit} (read : finish tokens = .ok (done, rest)) :
    tokens = [] ∧ rest = [] := by
  unfold finish at read
  obtain ⟨isEnd, between, first, finished⟩ := exists_of_bind_eq_ok read
  obtain ⟨rfl, empty⟩ := atEnd_eq_ok first
  cases isEnd with
  | true =>
      cases finished
      exact ⟨empty rfl, empty rfl⟩
  | false => exact absurd finished nofun

/-! ## Names -/

theorem operand_takesOnly (scope : Function) :
    (operand scope).TakesOnly (fun value => [scope.valueToken value]) scope.Knows := by
  intro tokens value rest read
  unfold operand at read
  split at read
  · next name others =>
    split at read
    · next found =>
      cases read
      unfold Function.valueNamed? at found
      split at found
      · next index isIndex =>
        cases found
        obtain ⟨below, isNamed, -⟩ := List.findIdx?_eq_some_iff_getElem.1 isIndex
        refine ⟨?_, below⟩
        unfold Function.valueToken
        dsimp only
        rw [List.getElem?_eq_getElem below, Option.map_some, Option.getD_some, eq_of_beq isNamed]
        rfl
      · obtain ⟨entry, isEntry, rfl⟩ := Option.map_eq_some_iff.1 found
        have isNamed := List.find?_some isEntry
        have stored : scope.valueNames.get? entry.1 = some name := by
          rw [← eq_of_beq isNamed]
          exact IndexMap.get?_eq_some_iff.2 (List.mem_of_find?_eq_some isEntry)
        unfold Function.valueToken Function.Knows
        dsimp only
        rw [stored]
        exact ⟨rfl, rfl⟩
    · exact absurd read nofun
  · split at read
    · next fits =>
      cases read
      rw [eq_toInt_of_int32? fits]
      exact ⟨rfl, trivial⟩
    · exact absurd read nofun
  · next name others =>
    split at read
    · next isTrue =>
      cases read
      rw [isTrue]
      exact ⟨rfl, trivial⟩
    · split at read
      · next isFalse =>
        cases read
        rw [isFalse]
        exact ⟨rfl, trivial⟩
      · exact absurd read nofun
  · exact absurd read nofun

theorem target_takesOnly (scope : Function) :
    (target scope).TakesOnly (fun block => [scope.blockToken block])
      fun block => block < scope.blocks.size := by
  intro tokens block rest read
  unfold target at read
  obtain ⟨label, _, rfl, -, read⟩ := (word_takesOnly _).of_bind read
  cases found : scope.blockLabelled? label with
  | none =>
      rw [found] at read
      exact absurd read nofun
  | some index =>
      rw [found] at read
      cases read
      obtain ⟨below, labelled, -⟩ := List.findIdx?_eq_some_iff_getElem.1 found
      have isBody : scope.blocks.get? block = some scope.blocks.entries[block] :=
        List.getElem?_eq_getElem below
      have spelled : scope.blockToken block = .word label := by
        unfold Function.blockToken Function.blockName
        rw [isBody, Option.bind_some, eq_of_beq labelled]
        rfl
      dsimp only
      rw [spelled]
      exact ⟨rfl, below⟩

theorem scalarType_takesOnly :
    scalarType.TakesOnly (fun type => [.word type.name]) fun _ => True := by
  intro tokens type rest read
  unfold scalarType at read
  obtain ⟨name, _, rfl, -, read⟩ := (word_takesOnly _).of_bind read
  cases found : ScalarType.ofName? name with
  | none =>
      rw [found] at read
      exact absurd read nofun
  | some isType =>
      rw [found] at read
      cases read
      rw [ScalarType.ofName?_eq_some_iff.1 found]
      exact ⟨rfl, trivial⟩

theorem comparison_takesOnly :
    comparison.TakesOnly (fun op => [.word op.mnemonic]) fun _ => True := by
  intro tokens op rest read
  unfold comparison at read
  obtain ⟨name, _, rfl, -, read⟩ := (word_takesOnly _).of_bind read
  cases found : CompareOp.ofMnemonic? name with
  | none =>
      rw [found] at read
      exact absurd read nofun
  | some isOp =>
      rw [found] at read
      cases read
      rw [CompareOp.ofMnemonic?_eq_some_iff.1 found]
      exact ⟨rfl, trivial⟩

theorem functionKind_takesOnly :
    functionKind.TakesOnly (fun kind => [.word kind.keyword]) fun _ => True := by
  intro tokens kind rest read
  unfold functionKind at read
  split at read
  · split at read
    · next found =>
      cases read
      rw [FunctionKind.ofKeyword?_eq_some_iff.1 found]
      exact ⟨rfl, trivial⟩
    · exact absurd read nofun
  · exact absurd read nofun

/-! ## Lists of items -/

section Items

variable {done : Reader Bool} {item : List α → Reader α} {spell : α → List Token}
  {motive : List α → Prop} {read values : List α} {fuel : Nat}

/-- The tokens of further items: a comma in front of each, unless it is the first
of all. -/
def itemTokens (spell : α → List Token) (isFirst : Bool) : List α → List Token
  | [] => []
  | value :: values =>
      (if isFirst then [] else [.mark .comma]) ++ spell value ++ itemTokens spell false values

theorem itemTokens_false (spell : α → List Token) (values : List α) :
    itemTokens spell false values = values.flatMap fun value => .mark .comma :: spell value := by
  induction values with
  | nil => rfl
  | cons value values inductionHypothesis =>
      rw [itemTokens, List.flatMap_cons, inductionHypothesis]
      rfl

theorem itemTokens_true (spell : α → List Token) (values : List α) :
    itemTokens spell true values = Token.commaSeparated (values.map spell) := by
  cases values with
  | nil => rfl
  | cons value values =>
      rw [itemTokens, itemTokens_false, List.map_cons, Token.commaSeparated_cons, List.flatMap_map]
      rfl

/-- Each item takes a token, so the items are read up to what ends them before
the fuel runs out. -/
theorem itemsAfter_eq_ok
    (goesOn : ∀ {tokens rest}, done tokens = .ok (false, rest) → rest = tokens)
    (reads : ∀ {read tokens value rest}, motive read → item read tokens = .ok (value, rest) →
      tokens = spell value ++ rest ∧ motive (read ++ [value]))
    (nonempty : ∀ value, spell value ≠ []) (kept : motive read) (enough : tokens.length < fuel)
    (answer : itemsAfter done item fuel read tokens = .ok (values, rest)) :
    ∃ more stop, values = read ++ more ∧ tokens = itemTokens spell read.isEmpty more ++ stop ∧
      done stop = .ok (true, rest) ∧ motive values := by
  induction fuel generalizing read tokens with
  | zero => exact absurd enough (Nat.not_lt_zero _)
  | succ fuel inductionHypothesis =>
      unfold itemsAfter at answer
      obtain ⟨isDone, between, first, goes⟩ := exists_of_bind_eq_ok answer
      cases isDone with
      | true =>
          cases goes
          exact ⟨[], tokens, (List.append_nil _).symm, rfl, first, kept⟩
      | false =>
          obtain rfl := goesOn first
          rw [if_neg Bool.false_ne_true] at goes
          have separated : ∃ behindComma,
              between = (if read.isEmpty then [] else [.mark .comma]) ++ behindComma ∧
                (item read >>= fun next => itemsAfter done item fuel (read ++ [next]))
                  behindComma = .ok (values, rest) := by
            cases empty : read.isEmpty with
            | true =>
                rw [empty] at goes
                exact ⟨between, rfl, goes⟩
            | false =>
                rw [empty] at goes
                obtain ⟨_, behindComma, isComma, -, further⟩ :=
                  (expect_takesOnly .comma).of_bind goes
                exact ⟨behindComma, isComma, further⟩
          obtain ⟨behindComma, spelled, further⟩ := separated
          obtain ⟨value, behindItem, isItem, others⟩ := exists_of_bind_eq_ok further
          obtain ⟨rfl, keptNext⟩ := reads kept isItem
          have shorter : behindItem.length < fuel := by
            have positive := List.length_pos_iff.2 (nonempty value)
            rw [spelled, List.length_append, List.length_append] at enough
            omega
          obtain ⟨more, stop, sameValues, isRest, closed, keptAll⟩ :=
            inductionHypothesis keptNext shorter others
          have notFirst : (read ++ [value]).isEmpty = false := by
            rw [List.isEmpty_eq_false_iff]
            exact List.append_ne_nil_of_right_ne_nil _ (List.cons_ne_nil _ _)
          rw [notFirst] at isRest
          refine ⟨value :: more, stop, ?_, ?_, closed, keptAll⟩
          · rw [sameValues, List.append_assoc]
            rfl
          · rw [spelled, isRest, itemTokens]
            simp only [List.append_assoc]

theorem items_eq_ok
    (goesOn : ∀ {tokens rest}, done tokens = .ok (false, rest) → rest = tokens)
    (reads : ∀ {read tokens value rest}, motive read → item read tokens = .ok (value, rest) →
      tokens = spell value ++ rest ∧ motive (read ++ [value]))
    (nonempty : ∀ value, spell value ≠ []) (start : motive [])
    (answer : items done item tokens = .ok (values, rest)) :
    ∃ stop, tokens = Token.commaSeparated (values.map spell) ++ stop ∧
      done stop = .ok (true, rest) ∧ motive values := by
  obtain ⟨more, stop, rfl, isTokens, closed, kept⟩ :=
    itemsAfter_eq_ok goesOn reads nonempty start (Nat.lt_succ_self _) answer
  refine ⟨stop, ?_, closed, kept⟩
  rw [isTokens]
  exact congrArg (· ++ stop) (itemTokens_true spell values)

variable {reader : Reader α} {holds : α → Prop}

/-- A property of single items is one of all items. -/
theorem TakesOnly.forall_concat (takesOnly : reader.TakesOnly spell holds)
    (kept : ∀ value ∈ read, holds value) {value : α}
    (isItem : reader tokens = .ok (value, rest)) :
    tokens = spell value ++ rest ∧ ∀ other ∈ read ++ [value], holds other := by
  obtain ⟨isTokens, isValue⟩ := takesOnly _ _ _ isItem
  exact ⟨isTokens, List.forall_mem_append.2 ⟨kept, List.forall_mem_singleton.2 isValue⟩⟩

/-- Items up to a closing mark. -/
theorem TakesOnly.items (takesOnly : reader.TakesOnly spell holds)
    (nonempty : ∀ value, spell value ≠ []) (sign : Mark) :
    (items (accept sign) fun _ => reader).TakesOnly
      (fun values => Token.commaSeparated (values.map spell) ++ [.mark sign])
      fun values => ∀ value ∈ values, holds value := by
  intro tokens values rest answer
  obtain ⟨stop, rfl, closed, kept⟩ := items_eq_ok
    (motive := fun read => ∀ value ∈ read, holds value)
    (fun read => accept_eq_false read)
    (fun kept isItem => takesOnly.forall_concat kept isItem) nonempty
    (fun _ member => absurd member List.not_mem_nil) answer
  rw [accept_eq_true closed, List.append_assoc]
  exact ⟨rfl, kept⟩

/-- Items up to the end of the line. -/
theorem TakesOnly.itemsAtEnd (takesOnly : reader.TakesOnly spell holds)
    (nonempty : ∀ value, spell value ≠ []) :
    (Reader.items atEnd fun _ => reader).TakesOnly
      (fun values => Token.commaSeparated (values.map spell))
      fun values => ∀ value ∈ values, holds value := by
  intro tokens values rest answer
  obtain ⟨stop, rfl, closed, kept⟩ := items_eq_ok
    (motive := fun read => ∀ value ∈ read, holds value)
    (fun read => (atEnd_eq_ok read).1)
    (fun kept isItem => takesOnly.forall_concat kept isItem) nonempty
    (fun _ member => absurd member List.not_mem_nil) answer
  rw [(atEnd_eq_ok closed).1]
  exact ⟨rfl, kept⟩

end Items

/-! ## Operands -/

theorem operandPair_takesOnly (scope : Function) :
    (operandPair scope).TakesOnly
      (fun pair => [scope.valueToken pair.1, .mark .comma, scope.valueToken pair.2])
      fun pair => scope.Knows pair.1 ∧ scope.Knows pair.2 := by
  intro tokens pair rest read
  unfold operandPair at read
  obtain ⟨left, _, rfl, knowsLeft, read⟩ := (operand_takesOnly scope).of_bind read
  obtain ⟨_, _, rfl, -, read⟩ := (expect_takesOnly _).of_bind read
  obtain ⟨right, _, rfl, knowsRight, read⟩ := (operand_takesOnly scope).of_bind read
  cases read
  exact ⟨rfl, knowsLeft, knowsRight⟩

theorem incoming_takesOnly (scope : Function) :
    (incoming scope).TakesOnly
      (fun entry => [.mark .openBracket, scope.valueToken entry.1, .mark .comma,
        scope.blockToken entry.2, .mark .closeBracket])
      fun entry => scope.Knows entry.1 ∧ entry.2 < scope.blocks.size := by
  intro tokens entry rest read
  unfold incoming at read
  obtain ⟨_, _, rfl, -, read⟩ := (expect_takesOnly _).of_bind read
  obtain ⟨value, _, rfl, knows, read⟩ := (operand_takesOnly scope).of_bind read
  obtain ⟨_, _, rfl, -, read⟩ := (expect_takesOnly _).of_bind read
  obtain ⟨block, _, rfl, present, read⟩ := (target_takesOnly scope).of_bind read
  obtain ⟨_, _, rfl, -, read⟩ := (expect_takesOnly _).of_bind read
  cases read
  exact ⟨rfl, knows, present⟩

theorem switchCase_takesOnly (scope : Function) :
    (switchCase scope).TakesOnly
      (fun entry => [.number entry.1.toInt, .mark .colon, scope.blockToken entry.2])
      fun entry => entry.2 < scope.blocks.size := by
  intro tokens entry rest read
  unfold switchCase at read
  obtain ⟨value, _, rfl, -, read⟩ :=
    (number_takesOnly .caseValue Int32.toInt eq_toInt_of_int32?).of_bind read
  obtain ⟨_, _, rfl, -, read⟩ := (expect_takesOnly _).of_bind read
  obtain ⟨block, _, rfl, present, read⟩ := (target_takesOnly scope).of_bind read
  cases read
  exact ⟨rfl, present⟩

/-- What follows an opcode spells the operands of an instruction with this opcode. -/
theorem operands_takesOnly (scope : Function) (opcode : Opcode) :
    (operands scope opcode).TakesOnly scope.operandTokens
      fun instruction => instruction.opcode = opcode ∧ scope.Resolves instruction := by
  intro tokens instruction rest read
  cases opcode with
  | phi =>
      obtain ⟨type, _, rfl, -, read⟩ := scalarType_takesOnly.of_bind read
      obtain ⟨entries, _, rfl, known, read⟩ :=
        ((incoming_takesOnly scope).itemsAtEnd fun _ => List.cons_ne_nil _ _).of_bind read
      cases read
      refine ⟨rfl, rfl, ?_, fun _ member => absurd member List.not_mem_nil, ?_⟩
      · exact List.forall_mem_map.2 fun entry member => (known entry member).1
      · exact List.forall_mem_map.2 fun entry member => (known entry member).2
  | binary op =>
      obtain ⟨⟨left, right⟩, _, rfl, ⟨knowsLeft, knowsRight⟩, read⟩ :=
        (operandPair_takesOnly scope).of_bind read
      cases read
      exact ⟨rfl, rfl, .of_operands (by simp [Instruction.operands, knowsLeft, knowsRight]) rfl⟩
  | compare =>
      obtain ⟨op, _, rfl, -, read⟩ := comparison_takesOnly.of_bind read
      obtain ⟨⟨left, right⟩, _, rfl, ⟨knowsLeft, knowsRight⟩, read⟩ :=
        (operandPair_takesOnly scope).of_bind read
      cases read
      exact ⟨rfl, rfl, .of_operands (by simp [Instruction.operands, knowsLeft, knowsRight]) rfl⟩
  | select =>
      obtain ⟨condition, _, rfl, knowsCondition, read⟩ := (operand_takesOnly scope).of_bind read
      obtain ⟨_, _, rfl, -, read⟩ := (expect_takesOnly _).of_bind read
      obtain ⟨⟨accept, reject⟩, _, rfl, ⟨knowsAccept, knowsReject⟩, read⟩ :=
        (operandPair_takesOnly scope).of_bind read
      cases read
      exact ⟨rfl, rfl, .of_operands
        (by simp [Instruction.operands, knowsCondition, knowsAccept, knowsReject]) rfl⟩
  | workItem query =>
      obtain ⟨dimension, _, rfl, -, read⟩ := (number_takesOnly .dimension
        (fun value : UInt32 => (value.toNat : Int)) eq_toNat_of_uint32?).of_bind read
      cases read
      exact ⟨rfl, rfl, .of_operands (fun _ member => absurd member List.not_mem_nil) rfl⟩
  | load =>
      obtain ⟨pointer, _, rfl, knows, read⟩ := (operand_takesOnly scope).of_bind read
      cases read
      exact ⟨rfl, rfl, .of_operands (List.forall_mem_singleton.2 knows) rfl⟩
  | store =>
      obtain ⟨⟨pointer, value⟩, _, rfl, ⟨knowsPointer, knowsValue⟩, read⟩ :=
        (operandPair_takesOnly scope).of_bind read
      cases read
      exact ⟨rfl, rfl, .of_operands (by simp [Instruction.operands, knowsPointer, knowsValue]) rfl⟩
  | call =>
      obtain ⟨callee, _, rfl, -, read⟩ := functionName_takesOnly.of_bind read
      obtain ⟨_, _, rfl, -, read⟩ := (expect_takesOnly _).of_bind read
      obtain ⟨arguments, _, rfl, known, read⟩ :=
        ((operand_takesOnly scope).items (fun _ => List.cons_ne_nil _ _) .closeParen).of_bind read
      cases read
      refine ⟨?_, rfl, .of_operands known rfl⟩
      simp [Function.operandTokens]
  | barrier =>
      cases read
      exact ⟨rfl, rfl, .of_operands (fun _ member => absurd member List.not_mem_nil) rfl⟩
  | branch =>
      obtain ⟨block, _, rfl, present, read⟩ := (target_takesOnly scope).of_bind read
      cases read
      exact ⟨rfl, rfl, fun _ member => absurd member List.not_mem_nil,
        List.forall_mem_singleton.2 present, fun _ member => absurd member List.not_mem_nil⟩
  | condBranch =>
      obtain ⟨condition, _, rfl, knows, read⟩ := (operand_takesOnly scope).of_bind read
      obtain ⟨_, _, rfl, -, read⟩ := (expect_takesOnly _).of_bind read
      obtain ⟨accept, _, rfl, acceptPresent, read⟩ := (target_takesOnly scope).of_bind read
      obtain ⟨_, _, rfl, -, read⟩ := (expect_takesOnly _).of_bind read
      obtain ⟨reject, _, rfl, rejectPresent, read⟩ := (target_takesOnly scope).of_bind read
      cases read
      exact ⟨rfl, rfl, List.forall_mem_singleton.2 knows,
        by simp [Instruction.successors, acceptPresent, rejectPresent],
        fun _ member => absurd member List.not_mem_nil⟩
  | switch =>
      obtain ⟨selector, _, rfl, knows, read⟩ := (operand_takesOnly scope).of_bind read
      obtain ⟨_, _, rfl, -, read⟩ := (expect_takesOnly _).of_bind read
      obtain ⟨fallback, _, rfl, present, read⟩ := (target_takesOnly scope).of_bind read
      obtain ⟨_, _, rfl, -, read⟩ := (expect_takesOnly _).of_bind read
      obtain ⟨cases, _, rfl, known, read⟩ :=
        ((switchCase_takesOnly scope).items (fun _ => List.cons_ne_nil _ _)
          .closeBracket).of_bind read
      cases read
      refine ⟨?_, rfl, List.forall_mem_singleton.2 knows, ?_,
        fun _ member => absurd member List.not_mem_nil⟩
      · simp [Function.operandTokens]
      · exact List.forall_mem_cons.2 ⟨present, List.forall_mem_map.2 known⟩
  | ret =>
      obtain ⟨isEnd, between, first, answer⟩ := exists_of_bind_eq_ok read
      obtain ⟨rfl, -⟩ := atEnd_eq_ok first
      cases isEnd with
      | true =>
          cases answer
          exact ⟨rfl, rfl, .of_operands (fun _ member => absurd member List.not_mem_nil) rfl⟩
      | false =>
          obtain ⟨value, _, rfl, knows, answer⟩ := (operand_takesOnly scope).of_bind answer
          cases answer
          exact ⟨rfl, rfl, .of_operands (List.forall_mem_singleton.2 knows) rfl⟩
  | unreachable =>
      cases read
      exact ⟨rfl, rfl, .of_operands (fun _ member => absurd member List.not_mem_nil) rfl⟩

/-! ## Lines -/

variable {instruction : Instruction} {function : Function} {named closed : Bool}

theorem operation_eq_ok (read : operation scope named tokens = .ok (instruction, rest)) :
    tokens = .word instruction.opcode.mnemonic :: scope.operandTokens instruction ∧ rest = [] ∧
      scope.Resolves instruction ∧ (named = true → instruction.hasResult = true) := by
  unfold operation at read
  obtain ⟨mnemonic, _, rfl, -, read⟩ := (word_takesOnly _).of_bind read
  cases found : Opcode.ofMnemonic? mnemonic with
  | none =>
      rw [found] at read
      exact absurd read nofun
  | some opcode =>
      rw [found] at read
      obtain ⟨answer, _, rfl, ⟨sameOpcode, resolves⟩, read⟩ :=
        (operands_takesOnly scope opcode).of_bind read
      obtain ⟨_, left, finished, checked⟩ := exists_of_bind_eq_ok read
      obtain ⟨rfl, rfl⟩ := finish_eq_ok finished
      by_cases refused : (named && !opcode.hasResult) = true
      · rw [if_pos refused] at checked
        exact absurd checked nofun
      · rw [if_neg refused] at checked
        cases checked
        have hasResult : named = true → instruction.hasResult = true := by
          intro isNamed
          unfold Instruction.hasResult
          rw [sameOpcode]
          simpa [isNamed] using refused
        rw [Opcode.ofMnemonic?_eq_some_iff.1 found, ← sameOpcode, List.append_nil]
        exact ⟨rfl, rfl, resolves, hasResult⟩

/-- An instruction line spells the instruction that is read from it, behind a
result name or without one. -/
theorem instruction_eq_ok (read : Reader.instruction scope tokens = .ok (instruction, rest)) :
    rest = [] ∧ scope.Resolves instruction ∧
      ((∃ name, tokens = .valueName name :: .mark .equals ::
          .word instruction.opcode.mnemonic :: scope.operandTokens instruction ∧
          instruction.hasResult = true) ∨
        tokens = .word instruction.opcode.mnemonic :: scope.operandTokens instruction) := by
  unfold Reader.instruction at read
  split at read
  · next name others =>
    obtain ⟨_, _, rfl, -, read⟩ := (expect_takesOnly _).of_bind read
    obtain ⟨rfl, noRest, resolves, hasResult⟩ := operation_eq_ok read
    exact ⟨noRest, resolves, .inl ⟨name, rfl, hasResult rfl⟩⟩
  · obtain ⟨rfl, noRest, resolves, -⟩ := operation_eq_ok read
    exact ⟨noRest, resolves, .inr rfl⟩

theorem fact_takesOnly (scope : Function) :
    (fact scope).TakesOnly (fun fact => [scope.factToken fact]) scope.KnowsFact := by
  intro tokens entry rest read
  unfold fact at read
  split at read
  · change (target scope >>= fun block => pure (Fact.block block)) _ = _ at read
    obtain ⟨block, _, isTarget, present, answer⟩ := (target_takesOnly scope).of_bind read
    cases answer
    exact ⟨isTarget, present⟩
  · next name others =>
    change (operand scope >>= fun value => pure (Fact.value value)) _ = _ at read
    obtain ⟨value, _, isOperand, known, answer⟩ := (operand_takesOnly scope).of_bind read
    cases answer
    refine ⟨isOperand, ?_, known⟩
    cases value with
    | constant literal =>
        -- No constant is spelled like a name.
        cases literal with
        | bool truth => cases truth <;> exact absurd isOperand nofun
        | int amount => exact absurd isOperand nofun
    | _ => rfl
  · exact absurd read nofun

/-- A line of facts spells the facts that are read from it. -/
theorem factLine_eq_ok {facts : List Fact} (read : factLine scope tokens = .ok (facts, rest)) :
    (∃ keyword, tokens = .word keyword ::
      (Token.commaSeparated (facts.map fun fact => [scope.factToken fact]) ++ rest)) ∧
      ∀ fact ∈ facts, scope.KnowsFact fact := by
  unfold factLine at read
  obtain ⟨keyword, _, rfl, -, read⟩ := (word_takesOnly _).of_bind read
  obtain ⟨rfl, known⟩ :=
    (fact_takesOnly scope).itemsAtEnd (fun _ => List.cons_ne_nil _ _) _ _ _ read
  exact ⟨⟨keyword, rfl⟩, known⟩

def argumentTokens (argument : Argument) : List Token :=
  [.valueName argument.name, .mark .colon, .word argument.type.name]

theorem argument_takesOnly (before : List Argument) :
    (argument before).TakesOnly argumentTokens
      fun argument => argument.name ∉ before.map Argument.name := by
  intro tokens found rest read
  unfold argument at read
  obtain ⟨name, _, rfl, -, read⟩ := (valueName_takesOnly _).of_bind read
  by_cases isKnown : (before.any fun argument => argument.name == name) = true
  · rw [if_pos isKnown] at read
    exact absurd read nofun
  · rw [if_neg isKnown] at read
    obtain ⟨_, _, rfl, -, read⟩ := (expect_takesOnly _).of_bind read
    obtain ⟨type, _, rfl, -, read⟩ := scalarType_takesOnly.of_bind read
    cases read
    refine ⟨rfl, fun member => isKnown ?_⟩
    obtain ⟨other, listed, same⟩ := List.mem_map.1 member
    exact List.any_eq_true.2 ⟨other, listed, beq_iff_eq.2 same⟩

/-- A signature line spells the signature that is read from it. -/
theorem tokens_of_signature (read : signature tokens = .ok ((function, closed), rest)) :
    tokens = function.signatureTokens ++ (if closed then [.mark .closeBrace] else []) ∧
      (function.arguments.map Argument.name).Nodup := by
  unfold signature at read
  obtain ⟨kind, _, rfl, -, read⟩ := functionKind_takesOnly.of_bind read
  obtain ⟨name, _, rfl, -, read⟩ := functionName_takesOnly.of_bind read
  obtain ⟨_, _, rfl, -, read⟩ := (expect_takesOnly _).of_bind read
  obtain ⟨arguments, _, isArguments, ending⟩ := exists_of_bind_eq_ok read
  have extend : ∀ {before tokens found rest}, (before.map Argument.name).Nodup →
      argument before tokens = .ok (found, rest) →
      tokens = argumentTokens found ++ rest ∧ ((before ++ [found]).map Argument.name).Nodup := by
    intro before tokens found rest distinct isArgument
    obtain ⟨isTokens, fresh⟩ := argument_takesOnly before _ _ _ isArgument
    refine ⟨isTokens, ?_⟩
    rw [List.map_append, List.map_singleton]
    exact List.nodup_append.2 ⟨distinct, List.nodup_singleton _, fun other member last isLast =>
      fun same => fresh (by rwa [← List.mem_singleton.1 isLast, ← same])⟩
  obtain ⟨stop, rfl, ended, distinct⟩ := items_eq_ok
    (motive := fun read => (read.map Argument.name).Nodup) (fun isEnd => accept_eq_false isEnd)
    extend (fun _ => List.cons_ne_nil _ _) List.nodup_nil isArguments
  obtain rfl := accept_eq_true ended
  obtain ⟨_, behind, rfl, -, ending⟩ := (expect_takesOnly _).of_bind ending
  obtain ⟨isClosed, _, isAccepted, ending⟩ := exists_of_bind_eq_ok ending
  obtain ⟨_, left, finished, answer⟩ := exists_of_bind_eq_ok ending
  obtain ⟨rfl, rfl⟩ := finish_eq_ok finished
  cases answer
  refine ⟨?_, distinct⟩
  have isEnd : behind = if closed then [Token.mark .closeBrace] else [] := by
    cases closed with
    | true => exact accept_eq_true isAccepted
    | false => exact (accept_eq_false isAccepted).symm
  rw [isEnd]
  simp only [Function.signatureTokens, Function.declare, List.append_assoc, List.cons_append,
    List.nil_append]
  rfl

end Text.Reader

/-! ## Names of values in a line -/

namespace Text

/-- The name that a token spells, if it is the name of a value. -/
def Token.valueName? : Token → Option String
  | .valueName name => some name
  | _ => none

/-- The names of values among tokens, in their order. -/
def namesAmong (tokens : List Token) : List String := tokens.filterMap Token.valueName?

theorem mem_namesAmong {tokens : List Token} {name : String} :
    name ∈ namesAmong tokens ↔ .valueName name ∈ tokens := by
  unfold namesAmong
  rw [List.mem_filterMap]
  constructor
  · rintro ⟨token, member, spells⟩
    cases token with
    | valueName other =>
        cases spells
        exact member
    | _ => exact absurd spells nofun
  · exact fun member => ⟨_, member, rfl⟩

@[simp] theorem namesAmong_append (tokens more : List Token) :
    namesAmong (tokens ++ more) = namesAmong tokens ++ namesAmong more :=
  List.filterMap_append

end Text

open Text in
/-- A signature mentions the names of its arguments, in their order. -/
theorem Function.namesAmong_signatureTokens (function : Function) :
    namesAmong function.signatureTokens = function.arguments.map Argument.name := by
  have ofArguments : ∀ arguments : List Argument,
      namesAmong (Token.commaSeparated (arguments.map fun argument =>
        [.valueName argument.name, .mark .colon, .word argument.type.name])) =
      arguments.map Argument.name := by
    intro arguments
    cases arguments with
    | nil => rfl
    | cons first others =>
        rw [List.map_cons, Token.commaSeparated_cons, namesAmong_append, List.flatMap_map]
        show first.name :: namesAmong _ = first.name :: _
        congr 1
        induction others with
        | nil => rfl
        | cons second others inductionHypothesis =>
            rw [List.flatMap_cons, namesAmong_append, inductionHypothesis]
            rfl
  unfold Function.signatureTokens
  rw [namesAmong_append, namesAmong_append, ofArguments]
  exact List.append_nil _

end Workgroup

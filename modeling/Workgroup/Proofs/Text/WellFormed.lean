import Workgroup.Proofs.Text.OutlineText
import Workgroup.Proofs.Text.Resolution
import Workgroup.Validation

/-!
Contract: everything that is read is well formed.

The outline gives every instruction line a place holder at its place and
collects labels and names, refusing those that are there already.  The second
reading resolves names in the finished outline, so whatever an instruction
mentions exists, and it replaces place holders without moving them.

Owns:
- well-formed functions, facts and programs, and what makes them legible;
- the invariant of an outline and of an assembly;
- the faults that a function that has been read can have.
-/

namespace Workgroup

open Text

/-! ## Well-formed programs -/

/-- Names are legal and distinct, every block is labelled, the handles are placed
in ascending order, only instructions with a result are named, and what
instructions mention is known. -/
structure Function.WellFormed (function : Function) : Prop where
  name : isName function.name = true
  names : ∀ name ∈ function.localNames, isName name = true
  distinct : function.localNames.Nodup
  labels : ∀ body ∈ function.blocks.entries, body.label.any isLabel = true
  distinctLabels : (function.blocks.entries.map Block.label).Nodup
  ordered : function.Ordered
  defined : ∀ entry ∈ function.valueNames.entries, function.Defines (.result entry.1)
  resolves : ∀ {handle instruction}, function.instructions.get? handle = some instruction →
    function.Resolves instruction
  callees : ∀ {handle instruction}, function.instructions.get? handle = some instruction →
    ∀ callee ∈ instruction.callee?, isName callee = true

/-- There are facts, about blocks that exist and about values that are known and
no constants. -/
structure Facts.WellFormed (facts : Facts) (function : Function) : Prop where
  nonempty : facts.isEmpty = false
  blocks : ∀ block ∈ facts.blocks, block < function.blocks.size
  values : ∀ value ∈ facts.values, value.isConstant = false ∧ function.Knows value

/-- Function names are distinct, functions are well formed, and facts belong to
functions. -/
structure Program.WellFormed (program : Program) : Prop where
  distinct : (program.module.functions.entries.map Function.name).Nodup
  functions : ∀ function ∈ program.module.functions.entries, function.WellFormed
  facts : ∀ {handle facts}, program.facts.get? handle = some facts → ∃ function,
    program.module.functions.get? handle = some function ∧ facts.WellFormed function

/-- A function as its signature line leaves it. -/
structure Function.IsSignature (function : Function) : Prop where
  name : isName function.name = true
  names : ∀ name ∈ function.arguments.map Argument.name, isName name = true
  distinct : (function.arguments.map Argument.name).Nodup
  noBlocks : function.blocks = .empty
  noInstructions : function.instructions = .empty
  noNames : function.valueNames = .empty

theorem Function.WellFormed.hasResult_of_named {function : Function} {handle : InstId}
    (wellFormed : function.WellFormed) (named : (function.valueNames.get? handle).isSome = true) :
    handle ∈ function.allPlaced ∧ function.hasResult handle = true := by
  obtain ⟨name, isName⟩ := Option.isSome_iff_exists.1 named
  exact wellFormed.defined _ (IndexMap.get?_eq_some_iff.1 isName)

/-- What is known can be printed. -/
theorem Function.WellFormed.defines {function : Function} {value : Value}
    (wellFormed : function.WellFormed) (known : function.Knows value) : function.Defines value := by
  cases value with
  | result handle => exact wellFormed.hasResult_of_named known
  | argument index => exact known
  | constant literal => trivial

theorem Function.WellFormed.canPrint {function : Function} {handle : InstId}
    {instruction : Instruction} (wellFormed : function.WellFormed)
    (stored : function.instructions.get? handle = some instruction) :
    function.CanPrint instruction where
  operands := fun value member =>
    wellFormed.defines ((wellFormed.resolves stored).operands value member)
  successors := (wellFormed.resolves stored).successors
  incomingBlocks := (wellFormed.resolves stored).incomingBlocks
  callee := wellFormed.callees stored

theorem Function.WellFormed.legible {function : Function} (wellFormed : function.WellFormed) :
    function.Legible where
  name := wellFormed.name
  names := wellFormed.names
  labels := wellFormed.labels
  stored := wellFormed.ordered.wellPlaced.stored
  instructions := fun _ _ _ stored => wellFormed.canPrint stored

theorem Facts.WellFormed.printable {facts : Facts} {function : Function}
    (wellFormed : facts.WellFormed function) (functionWellFormed : function.WellFormed) :
    facts.Printable function where
  nonempty := wellFormed.nonempty
  blocks := wellFormed.blocks
  values := fun value member => ⟨(wellFormed.values value member).1,
    functionWellFormed.defines (wellFormed.values value member).2⟩

theorem Program.WellFormed.legible {program : Program} (wellFormed : program.WellFormed) :
    program.Legible where
  functions := fun function member => (wellFormed.functions function member).legible
  facts := fun isFacts => by
    obtain ⟨function, isFunction, factsWellFormed⟩ := wellFormed.facts isFacts
    exact ⟨function, isFunction,
      factsWellFormed.printable (wellFormed.functions _ (List.mem_of_getElem? isFunction))⟩

/-! ## Outlines -/

namespace Outline

variable {outline next : Outline} {line : Line} {signature : Function}

theorem not_mem_localNames {function : Function} {name : String}
    (unknown : function.valueNamed? name = none) : name ∉ function.localNames := by
  unfold Function.valueNamed? at unknown
  split at unknown
  · exact absurd unknown nofun
  · next noArgument =>
    rw [List.findIdx?_eq_none_iff] at noArgument
    rw [Option.map_eq_none_iff, List.find?_eq_none] at unknown
    intro member
    rcases List.mem_append.1 member with isArgument | isResult
    · obtain ⟨argument, listed, rfl⟩ := List.mem_map.1 isArgument
      have different := noArgument argument listed
      rw [beq_self_eq_true] at different
      exact absurd different nofun
    · obtain ⟨entry, listed, rfl⟩ := List.mem_map.1 isResult
      exact unknown entry listed (beq_self_eq_true _)

/-- A line is taken up as a label, as a list of facts or as an instruction. -/
theorem add_cases (added : outline.add line = .ok next) :
    (∃ label, line.tokens = [.word label, .mark .colon] ∧
      outline.addLabel line.number label = .ok next) ∨
    (resultName? line.tokens = none ∧
      next = { outline with factLines := outline.factLines ++ [line] }) ∨
    outline.addInstruction line = .ok next := by
  unfold Outline.add at added
  split at added
  · next label isLabel => exact .inl ⟨label, isLabel, added⟩
  · next name rest _ isWord =>
    split at added
    · cases added
      refine .inr (.inl ⟨?_, rfl⟩)
      rw [isWord]
      rfl
    · exact .inr (.inr added)
  · exact .inr (.inr added)

theorem addLabel_cases {number : Nat} {label : String}
    (added : outline.addLabel number label = .ok next) :
    outline.function.blockLabelled? label = none ∧
      next = { outline with
        function := outline.function.addBlock (some label)
        current := some outline.function.blocks.size } := by
  unfold Outline.addLabel at added
  split at added
  · exact absurd added nofun
  · next fresh =>
    cases added
    exact ⟨Option.not_isSome_iff_eq_none.1 fresh, rfl⟩

/-- An instruction without result name, or with one that is not known yet. -/
theorem addInstruction_cases (added : outline.addInstruction line = .ok next) :
    ∃ block, outline.current = some block ∧
      ((resultName? line.tokens = none ∧
        next = { outline with
          function := outline.function.append block .unreachable
          instructionLines := outline.instructionLines ++ [line] }) ∨
      ∃ name, resultName? line.tokens = some name ∧ outline.function.valueNamed? name = none ∧
        next = { outline with
          function := outline.function.appendNamed block name .unreachable
          instructionLines := outline.instructionLines ++ [line] }) := by
  unfold Outline.addInstruction at added
  split at added
  · exact absurd added nofun
  · next block isCurrent =>
    dsimp only at added
    split at added
    · next noName =>
      cases added
      exact ⟨block, isCurrent, .inl ⟨noName, rfl⟩⟩
    · next name isName =>
      split at added
      · exact absurd added nofun
      · next fresh =>
        cases added
        exact ⟨block, isCurrent,
          .inr ⟨name, isName, Option.not_isSome_iff_eq_none.1 fresh, rfl⟩⟩

/-- The names grow by the result that the line names, which is new. -/
theorem localNames_add (ordered : outline.Ordered) (added : outline.add line = .ok next) :
    next.function.localNames =
        outline.function.localNames ++ (resultName? line.tokens).toList ∧
      ∀ name ∈ resultName? line.tokens, name ∉ outline.function.localNames := by
  rcases add_cases added with ⟨label, isLabel, labelled⟩ | ⟨noName, rfl⟩ | instruction
  · obtain ⟨-, rfl⟩ := addLabel_cases labelled
    rw [isLabel]
    exact ⟨(List.append_nil _).symm, fun name isName => absurd isName nofun⟩
  · rw [noName]
    exact ⟨(List.append_nil _).symm, fun name isName => absurd isName nofun⟩
  · obtain ⟨block, -, ⟨noName, rfl⟩ | ⟨name, isName, fresh, rfl⟩⟩ :=
      addInstruction_cases instruction
    · rw [noName]
      exact ⟨(List.append_nil _).symm, fun name isName => absurd isName nofun⟩
    · rw [isName]
      refine ⟨?_, fun other same => Option.some.inj same ▸ not_mem_localNames fresh⟩
      show outline.function.arguments.map Argument.name ++
        (IndexMap.insertAscending outline.function.instructions.size name
          outline.function.valueNames.entries).map Prod.snd = _
      rw [IndexMap.insertAscending_of_lt ordered.named, List.map_append, ← List.append_assoc]
      rfl

/-- The invariant of an outline: names and labels are legal and distinct, and the
names of the results stand on their lines. -/
structure WellFormed (outline : Outline) : Prop where
  ordered : outline.Ordered
  name : isName outline.function.name = true
  names : ∀ name ∈ outline.function.localNames, isName name = true
  distinct : outline.function.localNames.Nodup
  labels : ∀ label ∈ outline.function.blocks.entries.map Block.label, label.any isLabel = true
  distinctLabels : (outline.function.blocks.entries.map Block.label).Nodup
  results : ∀ place, outline.function.valueNames.get? place =
    outline.instructionLines[place]?.bind fun line => resultName? line.tokens
  legal : ∀ line ∈ outline.instructionLines, ∀ token ∈ line.tokens, token.isLegal = true

theorem wellFormed_start (isSignature : signature.IsSignature) : (start signature).WellFormed where
  ordered :=
    ordered_start isSignature.noBlocks isSignature.noInstructions isSignature.noNames
  name := isSignature.name
  names := by
    unfold start Function.localNames
    rw [isSignature.noNames]
    simpa [IndexMap.empty] using isSignature.names
  distinct := by
    unfold start Function.localNames
    rw [isSignature.noNames]
    simpa [IndexMap.empty] using isSignature.distinct
  labels := by
    unfold start
    rw [isSignature.noBlocks]
    exact fun label member => absurd member List.not_mem_nil
  distinctLabels := by
    unfold start
    rw [isSignature.noBlocks]
    exact List.nodup_nil
  results := by
    unfold start
    rw [isSignature.noNames]
    exact fun place => rfl
  legal := fun line member => absurd member List.not_mem_nil

theorem resultName?_mem {tokens : List Token} {name : String}
    (isName : resultName? tokens = some name) : .valueName name ∈ tokens := by
  unfold resultName? at isName
  split at isName
  · cases isName
    exact List.mem_cons_self
  · exact absurd isName nofun

/-- Names stay distinct. -/
theorem nodup_localNames_add (ordered : outline.Ordered)
    (distinct : outline.function.localNames.Nodup) (added : outline.add line = .ok next) :
    next.function.localNames.Nodup := by
  obtain ⟨grown, fresh⟩ := localNames_add ordered added
  rw [grown]
  cases isName : resultName? line.tokens with
  | none =>
      rw [Option.toList_none, List.append_nil]
      exact distinct
  | some name =>
      rw [Option.toList_some]
      refine List.nodup_append.2 ⟨distinct, List.nodup_singleton name, ?_⟩
      intro other member last isLast same
      rw [same, List.mem_singleton.1 isLast] at member
      exact fresh name isName member

/-- Lines that are taken up add the names of their results, which stay distinct. -/
theorem localNames_foldlM {lines : List Line} (ordered : outline.Ordered)
    (distinct : outline.function.localNames.Nodup)
    (outlined : lines.foldlM Outline.add outline = .ok next) :
    next.function.localNames = outline.function.localNames ++
        (lines.map Line.tokens).filterMap resultName? ∧ next.function.localNames.Nodup := by
  induction lines generalizing outline with
  | nil =>
      cases outlined
      exact ⟨(List.append_nil _).symm, distinct⟩
  | cons line lines inductionHypothesis =>
      rw [List.foldlM_cons] at outlined
      obtain ⟨middle, added, rest⟩ := bind_eq_ok_iff.1 outlined
      obtain ⟨grown, nodup⟩ := inductionHypothesis (ordered.add added)
        (nodup_localNames_add ordered distinct added) rest
      refine ⟨?_, nodup⟩
      rw [grown, (localNames_add ordered added).1, List.append_assoc, List.map_cons,
        List.filterMap_cons]
      cases resultName? line.tokens <;> rfl

/-- Names stay legal. -/
theorem WellFormed.names_add (wellFormed : outline.WellFormed)
    (legal : ∀ token ∈ line.tokens, token.isLegal = true) (added : outline.add line = .ok next) :
    ∀ name ∈ next.function.localNames, isName name = true := by
  rw [(localNames_add wellFormed.ordered added).1]
  refine List.forall_mem_append.2 ⟨wellFormed.names, fun name member => ?_⟩
  exact legal _ (resultName?_mem (Option.mem_toList.1 member))

theorem labels_append (function : Function) (block : BlockId) (instruction : Instruction) :
    (function.append block instruction).blocks.entries.map Block.label =
      function.blocks.entries.map Block.label :=
  Function.labels_modify function.blocks block fun _ => rfl

/-- One line keeps the invariant. -/
theorem WellFormed.add (wellFormed : outline.WellFormed)
    (legal : ∀ token ∈ line.tokens, token.isLegal = true) (added : outline.add line = .ok next) :
    next.WellFormed := by
  have ordered := wellFormed.ordered.add added
  have names := wellFormed.names_add legal added
  have distinct := nodup_localNames_add wellFormed.ordered wellFormed.distinct added
  have legalLines : ∀ other ∈ outline.instructionLines ++ [line], ∀ token ∈ other.tokens,
      token.isLegal = true :=
    List.forall_mem_append.2 ⟨wellFormed.legal, List.forall_mem_singleton.2 legal⟩
  rcases add_cases added with ⟨label, isLabel, labelled⟩ | ⟨-, rfl⟩ | instruction
  · obtain ⟨fresh, rfl⟩ := addLabel_cases labelled
    have labelLegal : Text.isLabel label = true :=
      legal (.word label) (by rw [isLabel]; exact List.mem_cons_self)
    have grown : (outline.function.addBlock (some label)).blocks.entries.map Block.label =
        outline.function.blocks.entries.map Block.label ++ [some label] := List.map_append
    refine ⟨ordered, wellFormed.name, names, distinct, ?_, ?_, wellFormed.results,
      wellFormed.legal⟩
    · dsimp only
      rw [grown]
      exact List.forall_mem_append.2
        ⟨wellFormed.labels, List.forall_mem_singleton.2 labelLegal⟩
    · dsimp only
      rw [grown]
      refine List.nodup_append.2
        ⟨wellFormed.distinctLabels, List.nodup_singleton _, fun other member last isLast same => ?_⟩
      unfold Function.blockLabelled? at fresh
      rw [List.findIdx?_eq_none_iff] at fresh
      obtain ⟨body, listed, isOther⟩ := List.mem_map.1 member
      have different := fresh body listed
      rw [isOther, same, List.mem_singleton.1 isLast, beq_self_eq_true] at different
      exact absurd different nofun
  · exact ⟨ordered, wellFormed.name, names, distinct, wellFormed.labels,
      wellFormed.distinctLabels, wellFormed.results, wellFormed.legal⟩
  · have length := wellFormed.ordered.length
    obtain ⟨block, -, ⟨noName, rfl⟩ | ⟨name, isName, fresh, rfl⟩⟩ :=
      addInstruction_cases instruction
    · refine ⟨ordered, wellFormed.name, names, distinct, ?_, ?_, fun place => ?_, legalLines⟩
      · exact (labels_append outline.function block .unreachable).symm ▸ wellFormed.labels
      · exact (labels_append outline.function block .unreachable).symm ▸ wellFormed.distinctLabels
      · show outline.function.valueNames.get? place = _
        rw [wellFormed.results, getElem?_concat]
        split
        · next isLast =>
          rw [isLast, List.getElem?_eq_none (Nat.le_refl _), Option.bind_some, noName]
          rfl
        · rfl
    · refine ⟨ordered, wellFormed.name, names, distinct, ?_, ?_, fun place => ?_, legalLines⟩
      · exact (labels_append outline.function block .unreachable).symm ▸ wellFormed.labels
      · exact (labels_append outline.function block .unreachable).symm ▸ wellFormed.distinctLabels
      · show (outline.function.valueNames.insert outline.function.instructions.size name).get?
          place = _
        rw [IndexMap.get?_insert, getElem?_concat, length]
        split
        · exact isName.symm
        · exact wellFormed.results place

/-! ## Completion -/

/-- Each result of a list comes from the item at its place. -/
theorem exists_of_forall₂ {α β : Type} {related : α → β → Prop} {items : List α}
    {results : List β} (all : List.Forall₂ related items results) {place : Nat} {result : β}
    (isResult : results[place]? = some result) :
    ∃ item, items[place]? = some item ∧ related item result := by
  obtain ⟨below, rfl⟩ := List.getElem?_eq_some_iff.1 isResult
  have itemBelow : place < items.length := all.length_eq ▸ below
  exact ⟨items[place], List.getElem?_eq_getElem itemBelow,
    (List.forall₂_iff_get.1 all).2 place itemBelow below⟩

theorem mem_operandTokens_of_callee? (function : Function) {instruction : Instruction}
    {callee : String} (isCallee : instruction.callee? = some callee) :
    .functionName callee ∈ function.operandTokens instruction := by
  cases instruction with
  | call name arguments =>
      cases isCallee
      exact List.mem_cons_self
  | _ => exact absurd isCallee nofun

/-- Facts that a scope knows are well formed once they are marked, if there are any. -/
theorem wellFormed_foldl_mark {function : Function} {entries : List Fact}
    (known : ∀ entry ∈ entries, function.KnowsFact entry)
    (nonempty : (entries.foldl Facts.mark .empty).isEmpty = false) :
    (entries.foldl Facts.mark .empty).WellFormed function where
  nonempty := nonempty
  blocks := by
    intro block member
    rw [Facts.mem_blocks_foldl_mark] at member
    exact known _ (member.resolve_left (OrderedSet.not_mem_empty block))
  values := by
    intro value member
    rw [Facts.mem_values_foldl_mark] at member
    exact known _ (member.resolve_left (OrderedSet.not_mem_empty value))

/-- A finished outline is completed to a well-formed function and its facts. -/
theorem WellFormed.complete {function : Function} {facts : Facts} (wellFormed : outline.WellFormed)
    (completed : outline.complete = .ok (function, facts)) :
    function.WellFormed ∧ (facts.isEmpty = false → facts.WellFormed function) := by
  have functionOrdered := (wellFormed.ordered.complete completed).1
  obtain ⟨instructions, lists, readInstructions, readFacts, rfl, rfl⟩ := complete_eq_ok completed
  have fromLines := forall₂_of_mapM_eq_ok readInstructions
  have fromFactLines := forall₂_of_mapM_eq_ok readFacts
  have lineOf {handle : InstId} {instruction : Instruction}
      (stored : instructions[handle]? = some instruction) :
      ∃ line rest, outline.instructionLines[handle]? = some line ∧
        Reader.instruction outline.function line.tokens = .ok (instruction, rest) := by
    obtain ⟨line, isLine, read⟩ := exists_of_forall₂ fromLines stored
    obtain ⟨rest, read⟩ := Reader.readLine_eq_ok_iff.1 read
    exact ⟨line, rest, isLine, read⟩
  constructor
  · refine ⟨wellFormed.name, wellFormed.names, wellFormed.distinct,
      List.forall_mem_map.1 wellFormed.labels, wellFormed.distinctLabels, functionOrdered,
      fun entry member => ?_, fun {handle instruction} stored => ?_,
      fun {handle instruction} stored callee isCallee => ?_⟩
    · -- A named place has a line with a result name, so the instruction has a result.
      have isEntry : outline.function.valueNames.get? entry.1 = some entry.2 :=
        IndexMap.get?_eq_some_iff.2 member
      have sameLength : instructions.length = outline.function.instructions.size :=
        fromLines.length_eq.symm.trans wellFormed.ordered.length
      have below : entry.1 < instructions.length :=
        sameLength ▸ wellFormed.ordered.named entry member
      obtain ⟨line, rest, isLine, read⟩ := lineOf (List.getElem?_eq_getElem below)
      rw [wellFormed.results, isLine, Option.bind_some] at isEntry
      constructor
      · rw [functionOrdered]
        exact List.mem_range.2 below
      · obtain ⟨-, -, ⟨name, -, hasResult⟩ | unnamed⟩ := Reader.instruction_eq_ok read
        · show ((instructions[entry.1]?).any Instruction.hasResult) = true
          rw [List.getElem?_eq_getElem below]
          exact hasResult
        · rw [unnamed] at isEntry
          exact absurd isEntry nofun
    · obtain ⟨line, rest, -, read⟩ := lineOf stored
      obtain ⟨-, resolves, -⟩ := Reader.instruction_eq_ok read
      exact ⟨resolves.operands, resolves.successors, resolves.incomingBlocks⟩
    · obtain ⟨line, rest, isLine, read⟩ := lineOf stored
      have legal := wellFormed.legal line (List.mem_of_getElem? isLine)
      have named := mem_operandTokens_of_callee? outline.function isCallee
      obtain ⟨-, -, ⟨name, spelled, -⟩ | spelled⟩ := Reader.instruction_eq_ok read
      · exact legal (.functionName callee) (by rw [spelled]; simp [named])
      · exact legal (.functionName callee) (by rw [spelled]; simp [named])
  · apply wellFormed_foldl_mark
    intro entry member
    obtain ⟨list, isList, inList⟩ := List.mem_flatten.1 member
    obtain ⟨place, isPlace⟩ := List.mem_iff_getElem?.1 isList
    obtain ⟨line, -, read⟩ := exists_of_forall₂ fromFactLines isPlace
    obtain ⟨rest, read⟩ := Reader.readLine_eq_ok_iff.1 read
    exact (Reader.factLine_eq_ok read).2 entry inList

/-- A line of a body leaves the signature alone. -/
theorem signature_add (added : outline.add line = .ok next) :
    next.function.name = outline.function.name ∧ next.function.kind = outline.function.kind ∧
      next.function.arguments = outline.function.arguments := by
  rcases add_cases added with ⟨label, -, labelled⟩ | ⟨-, rfl⟩ | instruction
  · obtain ⟨-, rfl⟩ := addLabel_cases labelled
    exact ⟨rfl, rfl, rfl⟩
  · exact ⟨rfl, rfl, rfl⟩
  · obtain ⟨block, -, ⟨-, rfl⟩ | ⟨name, -, -, rfl⟩⟩ := addInstruction_cases instruction
    · exact ⟨rfl, rfl, rfl⟩
    · exact ⟨rfl, rfl, rfl⟩

end Outline

/-- What is read from legal lines is well formed. -/
theorem Function.IsSignature.readBody {signature function : Function} {facts : Facts}
    {body : List Line} (isSignature : signature.IsSignature)
    (legal : ∀ line ∈ body, ∀ token ∈ line.tokens, token.isLegal = true)
    (read : signature.readBody body = .ok (function, facts)) :
    function.WellFormed ∧ (facts.isEmpty = false → facts.WellFormed function) ∧
      function.name = signature.name := by
  obtain ⟨outline, outlined, completed⟩ := bind_eq_ok_iff.1 read
  have wellFormed := foldlM_invariant Outline.WellFormed
    (fun member wellFormed added => wellFormed.add (legal _ member) added)
    (Outline.wellFormed_start isSignature) outlined
  have sameName := foldlM_invariant (fun outline => outline.function.name = signature.name)
    (fun _ same added => (Outline.signature_add added).1.trans same) rfl outlined
  obtain ⟨functionWellFormed, factsWellFormed⟩ := wellFormed.complete completed
  refine ⟨functionWellFormed, factsWellFormed, ?_⟩
  obtain ⟨instructions, -, -, -, rfl, -⟩ := Outline.complete_eq_ok completed
  exact sameName

/-- A signature alone is a function without body. -/
theorem Function.IsSignature.wellFormed {signature : Function}
    (isSignature : signature.IsSignature) : signature.WellFormed := by
  have completed : (Outline.start signature).complete =
      .ok ({ signature with instructions := ⟨[]⟩ }, .empty) := rfl
  have same : { signature with instructions := ⟨[]⟩ } = signature := by
    have noInstructions := isSignature.noInstructions
    cases signature
    dsimp only at noInstructions
    rw [noInstructions]
    rfl
  rw [← same]
  exact ((Outline.wellFormed_start isSignature).complete completed).1

/-! ## Programs -/

namespace Assembly

variable {assembly next : Assembly} {line : Line}

/-- The invariant of an assembly: what is complete is well formed, and what is
not has a signature of a new name and legal lines. -/
structure WellFormed (assembly : Assembly) : Prop where
  program : assembly.program.WellFormed
  unfinished : ∀ {signature body}, assembly.unfinished = some (signature, body) →
    signature.IsSignature ∧
      signature.name ∉ assembly.program.module.functions.entries.map Function.name ∧
      ∀ line ∈ body, ∀ token ∈ line.tokens, token.isLegal = true

theorem wellFormed_start : start.WellFormed where
  program :=
    { distinct := List.nodup_nil
      functions := fun _ member => absurd member List.not_mem_nil
      facts := fun isFacts => absurd isFacts nofun }
  unfinished := fun isUnfinished => absurd isUnfinished nofun

theorem WellFormed.addFunction (wellFormed : assembly.WellFormed) {function : Function}
    {facts : Facts} (functionWellFormed : function.WellFormed)
    (factsWellFormed : facts.isEmpty = false → facts.WellFormed function)
    (fresh : function.name ∉ assembly.program.module.functions.entries.map Function.name) :
    (assembly.addFunction function facts).WellFormed where
  program :=
    { distinct := by
        show ((assembly.program.module.functions.entries ++ [function]).map Function.name).Nodup
        rw [List.map_append]
        refine List.nodup_append.2 ⟨wellFormed.program.distinct, List.nodup_singleton _, ?_⟩
        intro other member last isLast same
        rw [same, List.mem_singleton.1 isLast] at member
        exact fresh member
      functions := List.forall_mem_append.2
        ⟨wellFormed.program.functions, List.forall_mem_singleton.2 functionWellFormed⟩
      facts := by
        intro handle found isFacts
        have earlier (known : assembly.program.facts.get? handle = some found) :
            ∃ other, (assembly.program.module.functions.append function).get? handle = some other ∧
              found.WellFormed other := by
          obtain ⟨other, isOther, otherWellFormed⟩ := wellFormed.program.facts known
          have below := Table.get?_isSome_iff.1 (Option.isSome_iff_exists.2 ⟨other, isOther⟩)
          exact ⟨other, (Table.get?_append_of_lt function below).trans isOther, otherWellFormed⟩
        unfold Assembly.addFunction at isFacts
        dsimp only at isFacts
        split at isFacts
        · exact earlier isFacts
        · next some =>
          rw [IndexMap.get?_insert] at isFacts
          split at isFacts
          · next isLast =>
            cases isFacts
            subst isLast
            exact ⟨function, Table.get?_append_size _ _,
              factsWellFormed (Bool.eq_false_iff.2 some)⟩
          · exact earlier isFacts }
  unfinished := fun isUnfinished => absurd isUnfinished nofun

/-- What a signature line with legal tokens declares. -/
theorem isSignature_of_read {function : Function} {closed : Bool} {tokens rest : List Token}
    (legal : ∀ token ∈ tokens, token.isLegal = true)
    (read : Reader.signature tokens = .ok ((function, closed), rest)) : function.IsSignature := by
  obtain ⟨spelled, distinct⟩ := Reader.tokens_of_signature read
  refine ⟨?_, ?_, distinct, ?_, ?_, ?_⟩
  · exact legal (.functionName function.name) (by rw [spelled]; simp [Function.signatureTokens])
  · refine List.forall_mem_map.2 fun argument listed => ?_
    apply legal (.valueName argument.name)
    rw [spelled]
    apply List.mem_append_left
    rw [← mem_namesAmong, function.namesAmong_signatureTokens]
    exact List.mem_map_of_mem listed
  all_goals
    obtain ⟨name, kind, arguments, rfl⟩ := Reader.signature_eq_ok read
    rfl

theorem not_mem_names {module : Module} {name : String}
    (unknown : module.functionNamed? name = none) :
    name ∉ module.functions.entries.map Function.name := by
  intro known
  obtain ⟨other, listed, sameName⟩ := List.mem_map.1 known
  have differs := List.findIdx?_eq_none_iff.1 unknown other listed
  rw [sameName, beq_self_eq_true] at differs
  exact absurd differs nofun

theorem WellFormed.addSignature (wellFormed : assembly.WellFormed)
    (legal : ∀ token ∈ line.tokens, token.isLegal = true)
    (added : assembly.addSignature line = .ok next) : next.WellFormed := by
  obtain ⟨function, closes, read, unknown, rfl⟩ := addSignature_cases added
  obtain ⟨rest, read⟩ := Reader.readLine_eq_ok_iff.1 read
  have isSignature := isSignature_of_read legal read
  have fresh := not_mem_names unknown
  cases closes with
  | true =>
      refine wellFormed.addFunction isSignature.wellFormed (fun some => ?_) fresh
      cases some
  | false =>
      refine ⟨wellFormed.program, fun isUnfinished => ?_⟩
      cases isUnfinished
      exact ⟨isSignature, fresh, fun other member => absurd member List.not_mem_nil⟩

theorem WellFormed.add (wellFormed : assembly.WellFormed)
    (legal : ∀ token ∈ line.tokens, token.isLegal = true)
    (added : assembly.add line = .ok next) : next.WellFormed := by
  unfold Assembly.add at added
  split at added
  · exact wellFormed.addSignature legal added
  · next signature body isUnfinished =>
    obtain ⟨isSignature, fresh, bodyLegal⟩ := wellFormed.unfinished isUnfinished
    split at added
    · obtain ⟨⟨function, facts⟩, read, added⟩ := bind_eq_ok_iff.1 added
      cases added
      obtain ⟨functionWellFormed, factsWellFormed, sameName⟩ := isSignature.readBody bodyLegal read
      exact wellFormed.addFunction functionWellFormed factsWellFormed (sameName ▸ fresh)
    · cases added
      refine ⟨wellFormed.program, fun same => ?_⟩
      cases same
      exact ⟨isSignature, fresh,
        List.forall_mem_append.2 ⟨bodyLegal, List.forall_mem_singleton.2 legal⟩⟩

end Assembly

theorem Program.wellFormed_of_parse {source : String} {program : Program}
    (parsed : Program.parse source = .ok program) : program.WellFormed := by
  obtain ⟨lines, tokenized, read⟩ := bind_eq_ok_iff.1 parsed
  obtain ⟨assembly, assembled, finished⟩ := bind_eq_ok_iff.1 read
  have legal := isLegal_of_tokenizeLines tokenized
  have wellFormed := foldlM_invariant Assembly.WellFormed
    (fun member wellFormed added => wellFormed.add (legal _ member) added)
    Assembly.wellFormed_start assembled
  obtain ⟨-, rfl⟩ := Assembly.finish_eq_ok_iff.1 finished
  exact wellFormed.program

/-! ## Faults -/

/-- Whether the fault is about the order of the instructions in a block. -/
def Fault.concernsOrder : Fault → Bool
  | .missingTerminator _ | .misplacedTerminator _ | .misplacedPhi _ => true
  | .badHandle _ _ _ | .notInBlock _ _ | .badArgument _ _ => false

namespace Function

variable {function : Function} {instruction : Instruction}

/-- A resolved instruction can only be in the wrong place. -/
theorem concernsOrder_instructionFaults (resolves : function.Resolves instruction)
    (named : ∀ {handle}, (function.valueNames.get? handle).isSome = true →
      handle < function.instructions.size) (block : BlockId) (afterNonPhi isLast : Bool) :
    ∀ fault ∈ function.instructionFaults block instruction afterNonPhi isLast,
      fault.concernsOrder = true := by
  have noTargetFault : instruction.successors.filterMap function.targetFault? = [] := by
    rw [List.filterMap_eq_nil_iff]
    intro target member
    unfold targetFault?
    rw [if_pos (Table.contains_iff.2 (resolves.successors target member))]
  have noOperandFault : instruction.operands.filterMap function.operandFault? = [] := by
    rw [List.filterMap_eq_nil_iff]
    intro value member
    have known := resolves.operands value member
    unfold operandFault?
    cases value with
    | result handle =>
        dsimp only
        rw [if_pos (Table.contains_iff.2 (named known))]
    | argument index =>
        have below : index < function.arguments.length := known
        dsimp only
        rw [if_pos below]
    | constant literal => rfl
  unfold instructionFaults
  rw [noTargetFault, noOperandFault, List.append_nil, List.append_nil]
  intro fault member
  rcases List.mem_append.1 member with isPhi | isTerminator
  · split at isPhi
    · rw [List.mem_singleton.1 isPhi]
      rfl
    · exact absurd isPhi List.not_mem_nil
  · split at isTerminator
    · rw [List.mem_singleton.1 isTerminator]
      rfl
    · exact absurd isTerminator List.not_mem_nil

namespace WellFormed

/-- The handles of a block lead to resolved instructions. -/
theorem concernsOrder_placementFaults (wellFormed : function.WellFormed) (block : BlockId)
    {handles : List InstId} (stored : ∀ handle ∈ handles, handle < function.instructions.size)
    (afterNonPhi : Bool) :
    ∀ fault ∈ function.placementFaults block afterNonPhi handles,
      fault.concernsOrder = true := by
  induction handles generalizing afterNonPhi with
  | nil => exact fun fault member => absurd member List.not_mem_nil
  | cons handle handles inductionHypothesis =>
      obtain ⟨below, restStored⟩ := List.forall_mem_cons.1 stored
      obtain ⟨instruction, isStored⟩ :=
        Option.isSome_iff_exists.1 (Table.get?_isSome_iff.2 below)
      have named {other : InstId} (isNamed : (function.valueNames.get? other).isSome = true) :
          other < function.instructions.size :=
        wellFormed.ordered.wellPlaced.stored (wellFormed.hasResult_of_named isNamed).1
      unfold placementFaults
      rw [isStored]
      exact List.forall_mem_append.2
        ⟨concernsOrder_instructionFaults (wellFormed.resolves isStored) named block _ _,
          inductionHypothesis restStored _⟩

/-- A well-formed function has no faults but misplaced and missing instructions. -/
theorem concernsOrder_faults (wellFormed : function.WellFormed) :
    ∀ fault ∈ function.faults, fault.concernsOrder = true := by
  unfold faults blockFaults
  rw [List.forall_mem_flatMap]
  intro block _
  refine List.forall_mem_append.2 ⟨?_, ?_⟩
  · split
    · exact List.forall_mem_singleton.2 rfl
    · exact fun fault member => absurd member List.not_mem_nil
  · exact wellFormed.concernsOrder_placementFaults block
      (fun handle member => wellFormed.ordered.wellPlaced.stored_of_placed member) false

end WellFormed

end Function

/-- Everything that is read is well formed.  Its functions can miss a terminator,
have one in the middle of a block or a phi behind another instruction; they have
no other faults, and in particular no handle or argument that refers to nothing. -/
theorem Program.parse_wellFormed {source : String} {program : Program}
    (parsed : Program.parse source = .ok program) :
    program.WellFormed ∧ ∀ function ∈ program.module.functions.entries,
      ∀ fault ∈ function.faults, fault.concernsOrder = true := by
  have wellFormed := Program.wellFormed_of_parse parsed
  exact ⟨wellFormed, fun function member =>
    (wellFormed.functions function member).concernsOrder_faults⟩

namespace LatePhi

/-- A value is used above its definition, the phi stands behind its user, and
nothing ends the block. -/
def source : String :=
  "func @f(%n: i32) \x7b\n  uniform head, %n\nhead:\n  %next = add %i, 1\n" ++
    "  %i = phi i32 [%n, head], [%next, head]\n\x7d\n"

def function : Function where
  name := "f"
  kind := .helper
  arguments := [⟨"n", .i32⟩]
  blocks := ⟨[⟨some "head", [0, 1]⟩]⟩
  instructions :=
    ⟨[.binary .add (.result 1) (.constant (.int 1)), .phi .i32 [(.argument 0, 0), (.result 0, 0)]]⟩
  valueNames := (IndexMap.empty.insert 0 "next").insert 1 "i"

def program : Program where
  module := ⟨⟨[function]⟩⟩
  facts := IndexMap.empty.insert 0 ((Facts.empty.markBlock 0).markValue (.argument 0))

theorem parse_source : Program.parse source = .ok program := by
  apply eq_ok_of_toOption
  decide +kernel

theorem wellFormed_with_faults :
    function.faults = [.missingTerminator "head", .misplacedPhi "head"] ∧ program.WellFormed ∧
      ∀ other ∈ program.module.functions.entries, ∀ fault ∈ other.faults,
        fault.concernsOrder = true := by
  refine ⟨?_, Program.parse_wellFormed parse_source⟩
  decide +kernel

end LatePhi

end Workgroup

import Workgroup.Proofs.Text.Placement
import Workgroup.Proofs.Text.ProgramText

/-!
Contract: the body of a printable function is read back, renumbered.

The outline takes up the lines in the order in which the handles are placed,
so the handle it gives to an instruction is the place of the printed one.

Owns:
- the invariant of the outline: the blocks and handles it has taken up;
- one step for a line of facts, a label and an instruction;
- the reading of a whole body.
-/

namespace Workgroup

open Text

theorem Text.Line.eq_of_tokens {line : Line} {tokens : List Token}
    (isLine : line.tokens = tokens) : line = ⟨line.number, tokens⟩ := by
  cases line
  exact congrArg _ isLine

theorem foldlM_append_eq {α β ε : Type} {step : β → α → Except ε β} {front back : List α}
    {start middle : β} (first : front.foldlM step start = .ok middle) :
    (front ++ back).foldlM step start = back.foldlM step middle := by
  rw [List.foldlM_append, first]
  rfl

theorem getElem?_concat {α : Type} (entries : List α) (last : α) (index : Nat) :
    (entries ++ [last])[index]? =
      if index = entries.length then some last else entries[index]? := by
  by_cases same : index = entries.length
  · rw [if_pos same, same, List.getElem?_concat_length]
  · rw [if_neg same]
    by_cases below : index < entries.length
    · exact List.getElem?_append_left below
    · rw [List.getElem?_eq_none (Nat.le_of_not_lt below), List.getElem?_eq_none]
      rw [List.length_append, List.length_singleton]
      omega

namespace Outline

variable {function : Function} {facts : Option Facts} {bodies front : List Block}
  {outline : Outline} {label : Option String} {handles : List InstId} {handle : InstId}

/-- The outline has taken up the facts and some blocks of a function, each
handle at its place. -/
structure Traces (function : Function) (facts : Option Facts) (bodies : List Block)
    (outline : Outline) : Prop where
  name_eq : outline.function.name = function.name
  kind_eq : outline.function.kind = function.kind
  arguments_eq : outline.function.arguments = function.arguments
  blocks_eq : outline.function.blocks.entries = bodies.map (Block.renumber function.placeOf)
  size_eq : outline.function.instructions.size = (bodies.flatMap Block.instructions).length
  names_eq : ∀ place, outline.function.valueNames.get? place =
    (bodies.flatMap Block.instructions)[place]?.bind function.valueNames.get?
  current_eq : ∀ {front body}, bodies = front ++ [body] → outline.current = some front.length
  lines_eq : outline.instructionLines.map Line.tokens =
    (bodies.flatMap Block.instructions).map function.handleTokens
  facts_eq : outline.factLines.map Line.tokens =
    (facts.map fun facts => facts.tokens function).toList

/-! ## Facts -/

theorem add_facts {facts : Facts} (listed : facts.listed ≠ []) (outline : Outline) (number : Nat) :
    outline.add ⟨number, facts.tokens function⟩ =
      .ok { outline with factLines := outline.factLines ++ [⟨number, facts.tokens function⟩] } := by
  obtain ⟨entry, entries, isListed⟩ := List.exists_cons_of_ne_nil listed
  have begins : ∃ more, facts.tokens function =
      .word "uniform" :: function.factToken entry :: more := by
    unfold Facts.tokens
    rw [isListed, List.map_cons, Token.commaSeparated_cons]
    exact ⟨_, rfl⟩
  have notMark : ∀ sign, function.factToken entry ≠ .mark sign := by
    intro sign
    cases entry with
    | block block => exact nofun
    | value value => exact function.valueToken_ne_mark value sign
  obtain ⟨more, spelled⟩ := begins
  rw [spelled]
  unfold add
  split
  · next isLabel =>
    exact absurd (List.cons.inj (List.cons.inj isLabel).2).1 (notMark .colon)
  · next name rest _ isWord =>
    cases isWord
    rw [if_pos rfl]
  · next notWord => exact absurd rfl (notWord _ _)

theorem Traces.addFacts {facts : Facts} (traces : outline.Traces function none bodies)
    (listed : facts.listed ≠ []) (number : Nat) : ∃ next,
      outline.add ⟨number, facts.tokens function⟩ = .ok next ∧
        next.Traces function (some facts) bodies := by
  have noLines := List.map_eq_nil_iff.1 traces.facts_eq
  refine ⟨_, add_facts listed outline number, traces.name_eq, traces.kind_eq, traces.arguments_eq,
    traces.blocks_eq, traces.size_eq, traces.names_eq, traces.current_eq, traces.lines_eq, ?_⟩
  show (outline.factLines ++ [_]).map Line.tokens = _
  rw [noLines]
  rfl

/-! ## Labels -/

theorem Traces.addLabel {label : String} (traces : outline.Traces function facts bodies)
    (fresh : some label ∉ bodies.map Block.label) (number : Nat) : ∃ next,
      outline.add ⟨number, [.word label, .mark .colon]⟩ = .ok next ∧
        next.Traces function facts (bodies ++ [⟨some label, []⟩]) := by
  have unknown : outline.function.blockLabelled? label = none := by
    unfold Function.blockLabelled?
    rw [traces.blocks_eq, List.findIdx?_eq_none_iff, List.forall_mem_map]
    intro body member
    exact beq_eq_false_iff_ne.2 fun same => fresh (List.mem_map.2 ⟨body, member, same⟩)
  have added : outline.add ⟨number, [.word label, .mark .colon]⟩ = .ok { outline with
      function := outline.function.addBlock (some label)
      current := some outline.function.blocks.size } := by
    show outline.addLabel number label = _
    unfold Outline.addLabel
    rw [unknown]
    rfl
  have sameHandles : (bodies ++ [(⟨some label, []⟩ : Block)]).flatMap Block.instructions =
      bodies.flatMap Block.instructions := by
    rw [List.flatMap_append]
    exact List.append_nil _
  refine ⟨_, added, traces.name_eq, traces.kind_eq, traces.arguments_eq, ?_, ?_, ?_, ?_, ?_,
    traces.facts_eq⟩
  · show outline.function.blocks.entries ++ [_] = _
    rw [traces.blocks_eq, List.map_append]
    rfl
  · rw [sameHandles]
    exact traces.size_eq
  · rw [sameHandles]
    exact traces.names_eq
  · intro front body split
    have sameFront := (List.append_inj_left' split rfl)
    show some outline.function.blocks.size = _
    unfold Table.size
    rw [traces.blocks_eq, List.length_map, sameFront]
  · rw [sameHandles]
    exact traces.lines_eq

/-! ## Instructions -/

/-- Operands never consist of a lone mark. -/
theorem operandTokens_ne_colon (function : Function) {instruction : Instruction}
    (noResult : instruction.hasResult = false) :
    function.operandTokens instruction ≠ [.mark .colon] := by
  intro same
  cases instruction with
  | ret value =>
      cases value with
      | none => exact absurd same nofun
      | some value => exact function.valueToken_ne_mark value .colon (List.cons.inj same).1
  | store pointer value => exact absurd (List.cons.inj same).2 nofun
  | barrier => exact absurd same nofun
  | branch target => exact absurd same nofun
  | condBranch condition accept reject => exact absurd (List.cons.inj same).2 nofun
  | switch selector fallback cases => exact absurd (List.cons.inj same).2 nofun
  | unreachable => exact absurd same nofun
  | _ => exact absurd noResult nofun

theorem mnemonic_ne_uniform (opcode : Opcode) : opcode.mnemonic ≠ "uniform" := by
  cases opcode with
  | binary op => cases op <;> decide
  | workItem query => cases query <;> decide
  | _ => decide

/-- A line without result name is taken up as an instruction. -/
theorem add_unnamed {opcode : Opcode} {tokens : List Token} (notLabel : tokens ≠ [.mark .colon])
    (outline : Outline) (number : Nat) :
    outline.add ⟨number, .word opcode.mnemonic :: tokens⟩ =
      outline.addInstruction ⟨number, .word opcode.mnemonic :: tokens⟩ := by
  unfold add
  split
  · next isLabel => exact absurd (List.cons.inj isLabel).2 notLabel
  · next isWord =>
    have sameName := Token.word.inj (List.cons.inj isWord).1
    rw [if_neg]
    rw [← sameName]
    exact mnemonic_ne_uniform opcode
  · rfl

theorem addInstruction_unnamed {line : Line} {block : BlockId}
    (isCurrent : outline.current = some block) (noName : resultName? line.tokens = none) :
    outline.addInstruction line = .ok { outline with
      function := outline.function.append block .unreachable
      instructionLines := outline.instructionLines ++ [line] } := by
  unfold addInstruction
  rw [isCurrent]
  simp only [noName]

theorem addInstruction_named {line : Line} {block : BlockId} {name : String}
    (isCurrent : outline.current = some block) (isName : resultName? line.tokens = some name)
    (fresh : outline.function.valueNamed? name = none) :
    outline.addInstruction line = .ok { outline with
      function := outline.function.appendNamed block name .unreachable
      instructionLines := outline.instructionLines ++ [line] } := by
  unfold addInstruction
  rw [isCurrent]
  simp only [isName, fresh]
  rfl

/-- The names of the values that have been taken up do not include the next one. -/
theorem Traces.valueNamed?_eq_none (traces : outline.Traces function facts bodies)
    (printable : function.Printable) {name : String}
    (isName : function.valueNames.get? handle = some name)
    (fresh : handle ∉ bodies.flatMap Block.instructions) :
    outline.function.valueNamed? name = none := by
  have notArgument : outline.function.arguments.findIdx? (fun argument => argument.name == name) =
      none := by
    rw [traces.arguments_eq]
    exact printable.findIdx?_argument_eq_none isName
  have notResult : outline.function.valueNames.entries.find? (fun entry => entry.2 == name) =
      none := by
    rw [List.find?_eq_none]
    intro entry member same
    have isEntry : outline.function.valueNames.get? entry.1 = some entry.2 :=
      IndexMap.get?_eq_some_iff.2 member
    rw [traces.names_eq, Option.bind_eq_some_iff, eq_of_beq same] at isEntry
    obtain ⟨other, isOther, isOtherName⟩ := isEntry
    rw [printable.result_unique isName isOtherName] at fresh
    exact fresh (List.mem_of_getElem? isOther)
  unfold Function.valueNamed?
  rw [notArgument, notResult]
  rfl

/-- The handles of the last block grow by one. -/
theorem flatMap_concat (front : List Block) (label : Option String) (handles : List InstId)
    (handle : InstId) :
    (front ++ [(⟨label, handles ++ [handle]⟩ : Block)]).flatMap Block.instructions =
      (front ++ [(⟨label, handles⟩ : Block)]).flatMap Block.instructions ++ [handle] := by
  simp

/-- An instruction is placed behind all that have been taken up, under the same
name. -/
theorem Traces.extend {next : Outline} {line : Line}
    (traces : outline.Traces function facts (front ++ [⟨label, handles⟩]))
    (isPlace : function.placeOf handle =
      ((front ++ [(⟨label, handles⟩ : Block)]).flatMap Block.instructions).length)
    (isLine : line.tokens = function.handleTokens handle) (names : IndexMap String)
    (names_eq : ∀ place, names.get? place =
      if place = outline.function.instructions.size then function.valueNames.get? handle
      else outline.function.valueNames.get? place)
    (isNext : next = { outline with
      function :=
        { outline.function.append front.length .unreachable with valueNames := names }
      instructionLines := outline.instructionLines ++ [line] }) :
    next.Traces function facts (front ++ [⟨label, handles ++ [handle]⟩]) := by
  subst isNext
  refine ⟨traces.name_eq, traces.kind_eq, traces.arguments_eq, ?_, ?_, ?_, ?_, ?_,
    traces.facts_eq⟩
  · show outline.function.blocks.entries.modify front.length _ = _
    rw [traces.blocks_eq, List.map_append, List.map_singleton]
    have sameLength : front.length = (front.map (Block.renumber function.placeOf)).length :=
      (List.length_map _).symm
    rw [sameLength, modify_append_cons, List.map_append, List.map_singleton]
    unfold Block.renumber
    rw [List.map_append, List.map_singleton, isPlace, traces.size_eq]
  · show (outline.function.instructions.append .unreachable).size = _
    rw [Table.size_append, traces.size_eq, flatMap_concat, List.length_append,
      List.length_singleton]
  · intro place
    show names.get? place = _
    rw [names_eq, flatMap_concat, getElem?_concat, traces.size_eq]
    by_cases same : place = ((front ++ [(⟨label, handles⟩ : Block)]).flatMap
        Block.instructions).length
    · rw [if_pos same, if_pos same]
      rfl
    · rw [if_neg same, if_neg same]
      exact traces.names_eq place
  · intro other body split
    have sameFront := List.append_inj_left' split rfl
    rw [← sameFront]
    exact traces.current_eq rfl
  · show (outline.instructionLines ++ [line]).map Line.tokens = _
    rw [List.map_append, traces.lines_eq, flatMap_concat, List.map_append, List.map_singleton,
      List.map_singleton, isLine]

section Handle

variable {line : Line}
  (traces : outline.Traces function facts (front ++ [⟨label, handles⟩]))
  (printable : function.Printable)
  (isPlace : function.placeOf handle =
    ((front ++ [(⟨label, handles⟩ : Block)]).flatMap Block.instructions).length)
  (stored : function.instructions.get? handle = some instruction)
  (isLine : line.tokens = function.handleTokens handle)

include traces printable isPlace stored isLine

theorem Traces.addNamed (hasResult : instruction.hasResult = true)
    (member : handle ∈ function.allPlaced)
    (fresh : handle ∉ (front ++ [(⟨label, handles⟩ : Block)]).flatMap Block.instructions) :
    ∃ next, outline.add line = .ok next ∧
      next.Traces function facts (front ++ [⟨label, handles ++ [handle]⟩]) := by
  obtain ⟨number, tokens⟩ := line
  obtain ⟨name, isName, -⟩ :=
    printable.exists_resultName (Function.defines_result member stored hasResult)
  have spelled : tokens = function.instructionTokens handle instruction :=
    isLine.trans (Function.handleTokens_eq stored)
  unfold Function.instructionTokens at spelled
  rw [if_pos hasResult, Function.valueToken_result isName] at spelled
  have isResult : resultName? tokens = some name := by
    rw [spelled]
    rfl
  have isInstruction : outline.add ⟨number, tokens⟩ = outline.addInstruction ⟨number, tokens⟩ := by
    rw [spelled]
    rfl
  refine ⟨_, isInstruction.trans (addInstruction_named (traces.current_eq rfl) isResult
    (traces.valueNamed?_eq_none printable isName fresh)), ?_⟩
  refine traces.extend isPlace isLine
    (outline.function.valueNames.insert outline.function.instructions.size name) ?_ rfl
  intro place
  rw [IndexMap.get?_insert, isName]

theorem Traces.addUnnamed (noResult : instruction.hasResult = false) :
    ∃ next, outline.add line = .ok next ∧
      next.Traces function facts (front ++ [⟨label, handles ++ [handle]⟩]) := by
  obtain ⟨number, tokens⟩ := line
  have noName : function.valueNames.get? handle = none := by
    rw [← Option.not_isSome_iff_eq_none, printable.named_iff]
    rintro ⟨-, named⟩
    unfold Function.hasResult at named
    rw [stored] at named
    exact absurd (noResult.symm.trans named) nofun
  have spelled : tokens = function.instructionTokens handle instruction :=
    isLine.trans (Function.handleTokens_eq stored)
  unfold Function.instructionTokens at spelled
  rw [if_neg (Bool.eq_false_iff.1 noResult), List.nil_append] at spelled
  have isResult : resultName? tokens = none := by
    rw [spelled]
    rfl
  have isInstruction : outline.add ⟨number, tokens⟩ = outline.addInstruction ⟨number, tokens⟩ := by
    rw [spelled]
    exact add_unnamed (operandTokens_ne_colon function noResult) outline number
  refine ⟨_, isInstruction.trans (addInstruction_unnamed (traces.current_eq rfl) isResult), ?_⟩
  refine traces.extend isPlace isLine outline.function.valueNames ?_ rfl
  intro place
  by_cases same : place = outline.function.instructions.size
  · rw [if_pos same, noName, traces.names_eq, same, traces.size_eq,
      List.getElem?_eq_none (Nat.le_refl _)]
    rfl
  · rw [if_neg same]

end Handle

/-- The line of the next placed handle is taken up at its place. -/
theorem Traces.addHandle (traces : outline.Traces function facts (front ++ [⟨label, handles⟩]))
    (printable : function.Printable) {rest : List InstId}
    (isNext : function.allPlaced =
      (front ++ [(⟨label, handles⟩ : Block)]).flatMap Block.instructions ++ handle :: rest)
    {line : Line} (isLine : line.tokens = function.handleTokens handle) : ∃ next,
      outline.add line = .ok next ∧
        next.Traces function facts (front ++ [⟨label, handles ++ [handle]⟩]) := by
  have member : handle ∈ function.allPlaced := by
    rw [isNext]
    exact List.mem_append_right _ List.mem_cons_self
  have isPlace : function.placeOf handle =
      ((front ++ [(⟨label, handles⟩ : Block)]).flatMap Block.instructions).length := by
    apply printable.wellPlaced.placeOf_eq
    rw [isNext, List.getElem?_append_right (Nat.le_refl _), Nat.sub_self]
    rfl
  have fresh : handle ∉ (front ++ [(⟨label, handles⟩ : Block)]).flatMap Block.instructions := by
    intro taken
    have distinct := printable.wellPlaced.nodup
    rw [isNext, List.nodup_append] at distinct
    exact distinct.2.2 handle taken handle List.mem_cons_self rfl
  obtain ⟨instruction, stored⟩ := printable.legible.exists_stored member
  cases hasResult : instruction.hasResult with
  | true => exact traces.addNamed printable isPlace stored isLine hasResult member fresh
  | false => exact traces.addUnnamed printable isPlace stored isLine hasResult

/-! ## Blocks -/

/-- The lines of the handles that are left in a block are taken up one by one. -/
theorem Traces.addHandles (printable : function.Printable) {left rest : List InstId}
    {lines : List Line} (traces : outline.Traces function facts (front ++ [⟨label, handles⟩]))
    (isNext : function.allPlaced =
      (front ++ [(⟨label, handles⟩ : Block)]).flatMap Block.instructions ++ (left ++ rest))
    (isLines : lines.map Line.tokens = left.map function.handleTokens) : ∃ next,
      lines.foldlM add outline = .ok next ∧
        next.Traces function facts (front ++ [⟨label, handles ++ left⟩]) := by
  induction left generalizing outline handles lines with
  | nil =>
      rw [List.map_nil, List.map_eq_nil_iff] at isLines
      subst isLines
      rw [List.append_nil]
      exact ⟨outline, rfl, traces⟩
  | cons handle left inductionHypothesis =>
      obtain ⟨line, others, rfl, isLine, areOthers⟩ := List.map_eq_cons_iff.1 isLines
      obtain ⟨middle, added, middleTraces⟩ := traces.addHandle printable isNext isLine
      have isStillNext : function.allPlaced =
          (front ++ [(⟨label, handles ++ [handle]⟩ : Block)]).flatMap Block.instructions ++
            (left ++ rest) := by
        rw [flatMap_concat, List.append_assoc]
        exact isNext
      obtain ⟨next, rest, nextTraces⟩ := inductionHypothesis middleTraces isStillNext areOthers
      rw [List.append_assoc] at nextTraces
      refine ⟨next, ?_, nextTraces⟩
      rw [List.foldlM_cons, added]
      exact rest

/-- The lines of the blocks that are left are taken up block by block. -/
theorem Traces.addBlocks (printable : function.Printable) {left : List Block} {lines : List Line}
    (traces : outline.Traces function facts bodies)
    (isSplit : function.blocks.entries = bodies ++ left)
    (isLines : lines.map Line.tokens = left.flatMap fun body =>
      [.word (body.label.getD ""), .mark .colon] :: body.instructions.map function.handleTokens) :
    ∃ next, lines.foldlM add outline = .ok next ∧
      next.Traces function facts function.blocks.entries := by
  induction left generalizing outline bodies lines with
  | nil =>
      rw [List.flatMap_nil, List.map_eq_nil_iff] at isLines
      subst isLines
      rw [List.append_nil] at isSplit
      rw [isSplit]
      exact ⟨outline, rfl, traces⟩
  | cons body left inductionHypothesis =>
      rw [List.flatMap_cons] at isLines
      obtain ⟨bodyLines, otherLines, rfl, areBody, areOthers⟩ := List.map_eq_append_iff.1 isLines
      obtain ⟨labelLine, handleLines, rfl, isLabelLine, areHandles⟩ :=
        List.map_eq_cons_iff.1 areBody
      have member : body ∈ function.blocks.entries := by
        rw [isSplit]
        exact List.mem_append_right _ List.mem_cons_self
      obtain ⟨label, isLabel, -⟩ := printable.legible.exists_label_of_mem member
      have fresh : some label ∉ bodies.map Block.label := by
        have distinct := printable.distinctLabels
        rw [isSplit, List.map_append, List.nodup_append] at distinct
        intro taken
        exact distinct.2.2 _ taken _ List.mem_cons_self isLabel.symm
      obtain ⟨opened, labelAdded, openedTraces⟩ := traces.addLabel fresh labelLine.number
      have isLine : labelLine = ⟨labelLine.number, [.word label, .mark .colon]⟩ := by
        rw [isLabel] at isLabelLine
        exact Line.eq_of_tokens isLabelLine
      have isNext : function.allPlaced =
          (bodies ++ [(⟨some label, []⟩ : Block)]).flatMap Block.instructions ++
            (body.instructions ++ left.flatMap Block.instructions) := by
        unfold Function.allPlaced
        rw [isSplit, List.flatMap_append, List.flatMap_cons, List.flatMap_append]
        simp
      obtain ⟨filled, handlesAdded, filledTraces⟩ :=
        openedTraces.addHandles printable isNext areHandles
      have isBody : (⟨some label, [] ++ body.instructions⟩ : Block) = body := by
        cases body
        cases isLabel
        rfl
      rw [isBody] at filledTraces
      have isStillSplit : function.blocks.entries = bodies ++ [body] ++ left := by
        rw [isSplit, List.append_assoc]
        rfl
      obtain ⟨next, rest, nextTraces⟩ := inductionHypothesis filledTraces isStillSplit areOthers
      refine ⟨next, ?_, nextTraces⟩
      have bodyAdded : (labelLine :: handleLines).foldlM add outline = .ok filled := by
        rw [List.foldlM_cons, isLine, labelAdded]
        exact handlesAdded
      rw [foldlM_append_eq bodyAdded]
      exact rest

/-! ## Completion -/

theorem Traces.sketches (traces : outline.Traces function facts function.blocks.entries) :
    outline.function.Sketches function where
  arguments_eq := traces.arguments_eq
  labels_eq := by
    rw [traces.blocks_eq, List.map_map]
    rfl
  names_eq := traces.names_eq

/-- The instruction lines are read as the placed instructions, renumbered. -/
theorem mapM_instruction_eq {scope : Function} (sketches : scope.Sketches function)
    (printable : function.Printable) {handles : List InstId}
    (placed : ∀ handle ∈ handles, handle ∈ function.allPlaced) {lines : List Line}
    (isLines : lines.map Line.tokens = handles.map function.handleTokens) :
    lines.mapM (Reader.readLine (Reader.instruction scope)) =
      .ok (handles.filterMap fun handle =>
        (function.instructions.get? handle).map (Instruction.renumber function.placeOf)) := by
  induction handles generalizing lines with
  | nil =>
      rw [List.map_nil, List.map_eq_nil_iff] at isLines
      subst isLines
      rfl
  | cons handle handles inductionHypothesis =>
      obtain ⟨line, others, rfl, isLine, areOthers⟩ := List.map_eq_cons_iff.1 isLines
      have member := placed handle List.mem_cons_self
      obtain ⟨instruction, stored⟩ := printable.legible.exists_stored member
      have read : Reader.readLine (Reader.instruction scope) line =
          .ok (instruction.renumber function.placeOf) := by
        rw [Reader.readLine_eq_ok_iff, isLine, Function.handleTokens_eq stored]
        exact ⟨[], sketches.instruction_eq printable member stored⟩
      have rest := inductionHypothesis
        (fun other isOther => placed other (List.mem_cons_of_mem handle isOther)) areOthers
      rw [List.mapM_cons, read, List.filterMap_cons, stored]
      show Except.bind (others.mapM (Reader.readLine (Reader.instruction scope))) _ = _
      rw [rest]
      rfl

theorem mapM_factLine_eq {scope : Function} (sketches : scope.Sketches function)
    (printable : function.Printable)
    (printableFacts : ∀ listed ∈ facts, listed.Printable function) {lines : List Line}
    (isLines : lines.map Line.tokens = (facts.map fun facts => facts.tokens function).toList) :
    lines.mapM (Reader.readLine (Reader.factLine scope)) =
      .ok (facts.map fun facts => facts.listed.map (Fact.renumber function.placeOf)).toList := by
  cases facts with
  | none =>
      obtain rfl := List.map_eq_nil_iff.1 isLines
      rfl
  | some facts =>
      obtain ⟨line, others, rfl, isLine, areOthers⟩ := List.map_eq_cons_iff.1 isLines
      obtain rfl := List.map_eq_nil_iff.1 areOthers
      have read : Reader.readLine (Reader.factLine scope) line =
          .ok (facts.listed.map (Fact.renumber function.placeOf)) := by
        rw [Reader.readLine_eq_ok_iff, isLine]
        exact ⟨[], sketches.factLine_eq printable (printableFacts facts rfl)⟩
      rw [List.mapM_cons, read]
      rfl

/-- A completed outline is the function and its facts, renumbered. -/
theorem Traces.complete_eq (traces : outline.Traces function facts function.blocks.entries)
    (printable : function.Printable)
    (printableFacts : ∀ listed ∈ facts, listed.Printable function) :
    outline.complete = .ok (function.renumbered,
      (facts.map (Facts.renumber function.placeOf)).getD .empty) := by
  have sketches := traces.sketches
  have instructions := mapM_instruction_eq sketches printable (fun _ member => member)
    traces.lines_eq
  have lists := mapM_factLine_eq sketches printable printableFacts traces.facts_eq
  have sameBlocks : outline.function.blocks =
      function.blocks.map (Block.renumber function.placeOf) := Table.ext traces.blocks_eq
  have sameNames : outline.function.valueNames = function.renumbered.valueNames := by
    apply IndexMap.ext
    intro place
    rw [traces.names_eq, printable.get?_renumbered_valueNames]
    rfl
  have sameFacts : (facts.map fun facts => facts.listed.map
      (Fact.renumber function.placeOf)).toList.flatten.foldl Facts.mark .empty =
        (facts.map (Facts.renumber function.placeOf)).getD .empty := by
    cases facts with
    | none => rfl
    | some facts =>
        show ((facts.listed.map (Fact.renumber function.placeOf)) ++ []).foldl Facts.mark .empty = _
        rw [List.append_nil]
        exact facts.foldl_mark_listed function.placeOf
  unfold complete
  rw [instructions, lists]
  refine congrArg Except.ok (Prod.ext ?_ sameFacts)
  show Function.mk outline.function.name outline.function.kind outline.function.arguments
    outline.function.blocks _ outline.function.valueNames = _
  rw [traces.name_eq, traces.kind_eq, traces.arguments_eq, sameBlocks, sameNames]
  rfl

end Outline

/-! ## Bodies -/

theorem Table.flatMap_handles {α β : Type} {table : Table α} {fromHandle : Nat → List β}
    {fromEntry : α → List β}
    (agree : ∀ {handle entry}, table.get? handle = some entry →
      fromHandle handle = fromEntry entry) :
    table.handles.flatMap fromHandle = table.entries.flatMap fromEntry := by
  rw [List.flatMap_def, List.flatMap_def]
  apply congrArg
  apply List.ext_getElem?
  intro handle
  rw [List.getElem?_map, List.getElem?_map]
  by_cases below : handle < table.size
  · have isEntry := List.getElem?_eq_getElem (below : handle < table.entries.length)
    rw [isEntry]
    unfold handles
    rw [List.getElem?_range below]
    exact congrArg some (agree isEntry)
  · have noHandle : table.handles[handle]? = none := by
      rw [List.getElem?_eq_none_iff]
      unfold handles
      rw [List.length_range]
      exact Nat.le_of_not_lt below
    have noEntry : table.entries[handle]? = none :=
      List.getElem?_eq_none_iff.2 (Nat.le_of_not_lt below)
    rw [noHandle, noEntry]
    rfl

namespace Function

variable {function : Function} {facts : Option Facts} {body : List Line}

theorem Printable.flatMap_bodyTokens (printable : function.Printable) :
    function.blocks.handles.flatMap function.bodyTokens =
      function.blocks.entries.flatMap fun body =>
        [.word (body.label.getD ""), .mark .colon] ::
          body.instructions.map function.handleTokens := by
  apply Table.flatMap_handles
  intro block body isBody
  obtain ⟨label, isLabel, -⟩ := printable.legible.exists_label_of_mem (List.mem_of_getElem? isBody)
  unfold bodyTokens blockToken blockName placed
  rw [isBody, Option.bind_some, Option.map_some, isLabel]
  rfl

/-- The function as its signature line declares it. -/
def bare (function : Function) : Function :=
  { declare function.name function.kind with arguments := function.arguments }

/-- The body of a printed function is read as the function and its facts,
renumbered. -/
theorem Printable.readBody_eq (printable : function.Printable)
    (printableFacts : ∀ listed ∈ facts, listed.Printable function)
    (isBody : body.map Line.tokens = (facts.map fun facts => facts.tokens function).toList ++
      function.blocks.handles.flatMap function.bodyTokens) :
    function.bare.readBody body =
      .ok (function.renumbered, (facts.map (Facts.renumber function.placeOf)).getD .empty) := by
  have start : (Outline.start function.bare).Traces function none [] :=
    ⟨rfl, rfl, rfl, rfl, rfl, fun _ => rfl, fun split => absurd split (by simp), rfl, rfl⟩
  obtain ⟨factLines, blockLines, rfl, areFacts, areBlocks⟩ := List.map_eq_append_iff.1 isBody
  rw [printable.flatMap_bodyTokens] at areBlocks
  have factsRead : ∃ outline, factLines.foldlM Outline.add (Outline.start function.bare) =
      .ok outline ∧ outline.Traces function facts [] := by
    cases facts with
    | none =>
        obtain rfl := List.map_eq_nil_iff.1 areFacts
        exact ⟨_, rfl, start⟩
    | some facts =>
        obtain ⟨line, others, rfl, isLine, areOthers⟩ := List.map_eq_cons_iff.1 areFacts
        obtain rfl := List.map_eq_nil_iff.1 areOthers
        obtain ⟨outline, added, traces⟩ :=
          start.addFacts (printableFacts facts rfl).listed_ne_nil line.number
        have sameLine : line = ⟨line.number, facts.tokens function⟩ := Line.eq_of_tokens isLine
        refine ⟨outline, ?_, traces⟩
        rw [List.foldlM_cons, sameLine, added]
        rfl
  obtain ⟨outline, factsAdded, traces⟩ := factsRead
  obtain ⟨filled, blocksAdded, filledTraces⟩ := traces.addBlocks printable rfl areBlocks
  unfold readBody
  rw [foldlM_append_eq factsAdded, blocksAdded]
  exact filledTraces.complete_eq printable printableFacts

end Function

end Workgroup

import Workgroup.Proofs.Text.WellFormed

/-!
Contract: what is read from an instruction line is printed as the same line.

The lines of a text are those of its functions, one after the other, and the
instruction lines of a function are as many as its stored instructions.  Each of
them spells its instruction token by token: nothing in a line that is accepted is
skipped, put elsewhere, made up or read as something else.

Owns:
- the lines of a function, and which of its body lines are instructions;
- what the invariant of an outline says about the printed instructions;
- the lines of a program that has been read.
-/

namespace Workgroup

open Text

/-- What is established from one item to the next, of the items so far and the
state they lead to, holds at the end of a run. -/
theorem foldlM_history {α β ε : Type} {step : β → α → Except ε β}
    (keeps : List α → β → Prop) {items : List α} {start stop : β}
    (stepKeeps : ∀ {before state item next}, item ∈ items → keeps before state →
      step state item = .ok next → keeps (before ++ [item]) next)
    (holds : keeps [] start) (finished : items.foldlM step start = .ok stop) :
    keeps items stop := by
  suffices general : ∀ {before rest state}, (∀ item ∈ rest, item ∈ items) → keeps before state →
      rest.foldlM step state = .ok stop → keeps (before ++ rest) stop from
    general (fun _ => id) holds finished
  intro before rest state listed keepsState run
  induction rest generalizing before state with
  | nil =>
      cases run
      rw [List.append_nil]
      exact keepsState
  | cons item rest inductionHypothesis =>
      rw [List.foldlM_cons] at run
      obtain ⟨next, stepped, further⟩ := bind_eq_ok_iff.1 run
      rw [List.append_cons]
      exact inductionHypothesis
        (fun other member => listed other (List.mem_cons_of_mem item member))
        (stepKeeps (listed item List.mem_cons_self) keepsState stepped) further

/-! ## The lines of a function -/

/-- Whether a body line is an instruction, that is no label and no list of facts. -/
def Text.Line.isInstruction (line : Line) : Bool :=
  match line.tokens with
  | [.word _, .mark .colon] => false
  | .word name :: _ => name != "uniform"
  | _ => true

theorem Text.Line.isInstruction_of_word (line : Line) {name : String} {rest : List Token}
    (isWord : line.tokens = .word name :: rest) (notLabel : rest ≠ [.mark .colon]) :
    line.isInstruction = (name != "uniform") := by
  unfold isInstruction
  rw [isWord]
  split
  · next label same => exact absurd (List.cons.inj same).2 notLabel
  · next other _ _ same =>
    cases same
    rfl
  · next notWord => exact absurd rfl (notWord _ _)

/-- The lines of one function.  The signature of a function without body closes it
itself. -/
structure FunctionText where
  signature : Line
  body : List Line
  closing : Option Line

namespace FunctionText

def lines (text : FunctionText) : List Line := text.signature :: (text.body ++ text.closing.toList)

def instructionLines (text : FunctionText) : List Line := text.body.filter Line.isInstruction

/-- The lines are those that the function has been read from: its signature, what
stands in front of the next closing brace, and one instruction line per stored
instruction, which is printed as the same tokens. -/
structure Spells (text : FunctionText) (function : Function) : Prop where
  signature : text.signature.tokens =
    function.signatureTokens ++ if text.closing.isSome then [] else [.mark .closeBrace]
  body : ∀ line ∈ text.body, line.tokens ≠ [.mark .closeBrace]
  closing : ∀ line ∈ text.closing, line.tokens = [.mark .closeBrace]
  bodiless : text.closing = none → text.body = []
  size_eq : text.instructionLines.length = function.instructions.size
  /-- A line that names its result, or whose instruction has none, is kept as it is. -/
  verbatim : ∀ {handle line instruction}, text.instructionLines[handle]? = some line →
    function.instructions.get? handle = some instruction →
    (Outline.resultName? line.tokens).isSome = true ∨ instruction.hasResult = false →
    tokenize (function.instructionLine handle).toList = .ok line.tokens
  /-- A line that leaves out the name of its result is kept behind the handle. -/
  numbered : ∀ {handle line instruction}, text.instructionLines[handle]? = some line →
    function.instructions.get? handle = some instruction →
    Outline.resultName? line.tokens = none → instruction.hasResult = true →
    tokenize (function.instructionLine handle).toList =
      .ok (.valueName (toString handle) :: .mark .equals :: line.tokens)

end FunctionText

/-! ## Bodies -/

namespace Outline

variable {outline next : Outline} {line : Line}

/-- Exactly the instruction lines are taken up as instructions. -/
theorem instructionLines_add (added : outline.add line = .ok next) :
    next.instructionLines =
      outline.instructionLines ++ if line.isInstruction then [line] else [] := by
  have ofInstruction (added : outline.addInstruction line = .ok next) :
      next.instructionLines = outline.instructionLines ++ [line] := by
    obtain ⟨block, -, ⟨-, rfl⟩ | ⟨name, -, -, rfl⟩⟩ := addInstruction_cases added
    · rfl
    · rfl
  unfold Outline.add at added
  split at added
  · next label isLabel =>
    obtain ⟨-, rfl⟩ := addLabel_cases added
    unfold Line.isInstruction
    rw [isLabel]
    exact (List.append_nil _).symm
  · next name rest notLabel isWord =>
    rw [line.isInstruction_of_word isWord notLabel]
    split at added
    · next isUniform =>
      cases added
      rw [isUniform]
      exact (List.append_nil _).symm
    · next notUniform =>
      rw [bne_iff_ne.2 notUniform, if_pos rfl]
      exact ofInstruction added
  · next notLabel notWord =>
    have isInstruction : line.isInstruction = true := by
      unfold Line.isInstruction
      split
      · next label isLabel => exact absurd isLabel (notLabel label)
      · next name rest _ isWord => exact absurd isWord (notWord name rest)
      · rfl
    rw [isInstruction, if_pos rfl]
    exact ofInstruction added

theorem instructionLines_foldlM {signature : Function} {body : List Line}
    (outlined : body.foldlM Outline.add (start signature) = .ok outline) :
    outline.instructionLines = body.filter Line.isInstruction := by
  refine foldlM_history (fun taken (outline : Outline) =>
    outline.instructionLines = taken.filter Line.isInstruction) ?_ rfl outlined
  intro taken outline line next _ sameLines added
  rw [instructionLines_add added, sameLines, List.filter_append]
  cases isInstruction : line.isInstruction <;> simp [isInstruction]

theorem signatureTokens_foldlM {signature : Function} {body : List Line}
    (outlined : body.foldlM Outline.add (start signature) = .ok outline) :
    outline.function.signatureTokens = signature.signatureTokens := by
  refine foldlM_invariant (fun outline : Outline =>
    outline.function.signatureTokens = signature.signatureTokens) ?_ rfl outlined
  intro line outline next _ same added
  obtain ⟨sameName, sameKind, sameArguments⟩ := signature_add added
  rw [← same]
  unfold Function.signatureTokens
  rw [sameName, sameKind, sameArguments]

/-- The printed tokens of an instruction that is read from a line are those of the
line, behind the handle if the line does not name the result. -/
theorem WellFormed.instructionTokens_eq {function : Function} {facts : Facts} {handle : InstId}
    {instruction : Instruction} (wellFormed : outline.WellFormed)
    (completed : outline.complete = .ok (function, facts))
    (isLine : outline.instructionLines[handle]? = some line)
    (stored : function.instructions.get? handle = some instruction) :
    function.instructionTokens handle instruction =
      (if instruction.hasResult && (resultName? line.tokens).isNone then
        [.valueName (toString handle), .mark .equals] else []) ++ line.tokens := by
  obtain ⟨instructions, -, readInstructions, -, rfl, -⟩ := complete_eq_ok completed
  obtain ⟨other, isOther, read⟩ :=
    exists_of_forall₂ (forall₂_of_mapM_eq_ok readInstructions) stored
  cases isLine.symm.trans isOther
  obtain ⟨rest, read⟩ := Reader.readLine_eq_ok_iff.1 read
  obtain ⟨-, -, spelled⟩ := Reader.instruction_eq_ok read
  have isName : outline.function.valueNames.get? handle = resultName? line.tokens := by
    rw [wellFormed.results, isLine]
    rfl
  have sameToken : Function.valueToken
      { outline.function with instructions := ⟨instructions⟩ } (.result handle) =
        .valueName ((resultName? line.tokens).getD (toString handle)) := by
    rw [← isName]
    rfl
  have sameOperands : Function.operandTokens
      { outline.function with instructions := ⟨instructions⟩ } instruction =
        outline.function.operandTokens instruction := rfl
  unfold Function.instructionTokens
  rw [sameToken, sameOperands]
  rcases spelled with ⟨name, spelled, hasResult⟩ | spelled
  · rw [spelled, hasResult]
    rfl
  · rw [spelled]
    cases instruction.hasResult <;> rfl

end Outline

namespace FunctionText

variable {signature function : Function} {facts : Facts} {body : List Line} {line : Line}

/-- The lines that a function with a body is read from spell it. -/
theorem spells_of_readBody (isSignature : signature.IsSignature)
    (isFirst : line.tokens = signature.signatureTokens)
    (legal : ∀ line ∈ body, ∀ token ∈ line.tokens, token.isLegal = true)
    (inside : ∀ line ∈ body, line.tokens ≠ [.mark .closeBrace])
    (read : signature.readBody body = .ok (function, facts)) {last : Line}
    (isLast : last.tokens = [.mark .closeBrace]) :
    (FunctionText.mk line body (some last)).Spells function := by
  obtain ⟨outline, outlined, completed⟩ := bind_eq_ok_iff.1 read
  have wellFormed := foldlM_invariant Outline.WellFormed
    (fun member wellFormed added => wellFormed.add (legal _ member) added)
    (Outline.wellFormed_start isSignature) outlined
  have sameLines := Outline.instructionLines_foldlM outlined
  have tokensOf {handle : InstId} {other : Line} {instruction : Instruction}
      (isLine : (body.filter Line.isInstruction)[handle]? = some other)
      (stored : function.instructions.get? handle = some instruction) :=
    wellFormed.instructionTokens_eq completed (sameLines ▸ isLine) stored
  have legalOf {handle : InstId} {other : Line}
      (isLine : (body.filter Line.isInstruction)[handle]? = some other) :
      ∀ token ∈ other.tokens, token.isLegal = true :=
    legal other (List.mem_of_mem_filter (List.mem_of_getElem? isLine))
  have printed {handle : InstId} {instruction : Instruction}
      (stored : function.instructions.get? handle = some instruction) :
      function.instructionLine handle =
        Token.layout (function.instructionTokens handle instruction) := by
    unfold Function.instructionLine
    rw [stored]
  obtain ⟨instructions, -, readInstructions, -, isFunction, -⟩ := Outline.complete_eq_ok completed
  refine ⟨?_, inside, ?_, nofun, ?_, ?_, ?_⟩
  · have sameTokens := Outline.signatureTokens_foldlM outlined
    rw [isFirst, ← sameTokens, isFunction]
    exact (List.append_nil _).symm
  · intro other isClosing
    cases isClosing
    exact isLast
  · rw [isFunction]
    show (body.filter Line.isInstruction).length = instructions.length
    rw [← sameLines]
    exact (forall₂_of_mapM_eq_ok readInstructions).length_eq
  · intro handle other instruction isLine stored kept
    have sameTokens : function.instructionTokens handle instruction = other.tokens := by
      rw [tokensOf isLine stored]
      rcases kept with named | noResult
      · obtain ⟨name, isName⟩ := Option.isSome_iff_exists.1 named
        rw [isName, Option.isNone_some, Bool.and_false]
        rfl
      · rw [noResult]
        rfl
    rw [printed stored, sameTokens]
    exact tokenize_layout (legalOf isLine)
  · intro handle other instruction isLine stored noName hasResult
    have sameTokens : function.instructionTokens handle instruction =
        .valueName (toString handle) :: .mark .equals :: other.tokens := by
      rw [tokensOf isLine stored, noName, hasResult]
      rfl
    rw [printed stored, sameTokens]
    apply tokenize_layout
    exact List.forall_mem_cons.2 ⟨isName_toString handle,
      List.forall_mem_cons.2 ⟨rfl, legalOf isLine⟩⟩

/-- A signature that closes the function itself spells it. -/
theorem spells_of_signature (isSignature : signature.IsSignature)
    (isFirst : line.tokens = signature.signatureTokens ++ [.mark .closeBrace]) :
    (FunctionText.mk line [] none).Spells signature where
  signature := isFirst
  body := fun _ member => absurd member List.not_mem_nil
  closing := fun _ isClosing => absurd isClosing nofun
  bodiless := fun _ => rfl
  size_eq := by
    rw [isSignature.noInstructions]
    rfl
  verbatim := fun isLine => absurd isLine nofun
  numbered := fun isLine => absurd isLine nofun

end FunctionText

/-! ## Programs -/

/-- The functions are spelled by the lines, which are those of the functions in
their order and no others. -/
def Module.IsSpelledBy (module : Module) (lines : List Line) : Prop :=
  ∃ texts : List FunctionText, lines = texts.flatMap FunctionText.lines ∧
    List.Forall₂ FunctionText.Spells texts module.functions.entries

namespace Assembly

variable {assembly next : Assembly} {line : Line} {taken : List Line}

/-- The invariant of an assembly: the lines taken up so far spell the functions
that are complete, and the others are a signature and what follows it. -/
structure Spelled (taken : List Line) (assembly : Assembly) : Prop where
  complete : assembly.unfinished = none → assembly.program.module.IsSpelledBy taken
  unfinished : ∀ {signature body}, assembly.unfinished = some (signature, body) →
    ∃ earlier first, taken = earlier ++ first :: body ∧
      assembly.program.module.IsSpelledBy earlier ∧ first.tokens = signature.signatureTokens ∧
      ∀ line ∈ body, line.tokens ≠ [.mark .closeBrace]

theorem spelled_start : Spelled [] start where
  complete := fun _ => ⟨[], rfl, .nil⟩
  unfinished := nofun

/-- One more function is spelled by its own lines. -/
theorem spelled_addFunction {function : Function} {text : FunctionText}
    (spelled : assembly.program.module.IsSpelledBy taken) (spells : text.Spells function)
    (facts : Facts) : Spelled (taken ++ text.lines) (assembly.addFunction function facts) where
  complete := by
    obtain ⟨texts, sameLines, all⟩ := spelled
    intro _
    refine ⟨texts ++ [text], ?_, List.rel_append all (.cons spells .nil)⟩
    rw [sameLines, List.flatMap_append, List.flatMap_singleton]
  unfinished := nofun

theorem Spelled.addSignature (spelled : assembly.Spelled taken)
    (closed : assembly.unfinished = none) (legal : ∀ token ∈ line.tokens, token.isLegal = true)
    (added : assembly.addSignature line = .ok next) : next.Spelled (taken ++ [line]) := by
  have earlier := spelled.complete closed
  obtain ⟨function, closes, read, -, rfl⟩ := addSignature_cases added
  obtain ⟨rest, read⟩ := Reader.readLine_eq_ok_iff.1 read
  have isSignature := isSignature_of_read legal read
  have isFirst := (Reader.tokens_of_signature read).1
  cases closes with
  | true =>
      exact spelled_addFunction earlier (FunctionText.spells_of_signature isSignature isFirst) .empty
  | false =>
      refine ⟨nofun, fun isUnfinished => ?_⟩
      cases isUnfinished
      exact ⟨taken, line, rfl, earlier, isFirst.trans (List.append_nil _),
        fun other member => absurd member List.not_mem_nil⟩

theorem Spelled.add (spelled : assembly.Spelled taken) (wellFormed : assembly.WellFormed)
    (legal : ∀ token ∈ line.tokens, token.isLegal = true)
    (added : assembly.add line = .ok next) : next.Spelled (taken ++ [line]) := by
  unfold Assembly.add at added
  split at added
  · next closed => exact spelled.addSignature closed legal added
  · next signature body isUnfinished =>
    obtain ⟨isSignature, -, bodyLegal⟩ := wellFormed.unfinished isUnfinished
    obtain ⟨earlier, first, sameLines, earlierSpelled, isFirst, inside⟩ :=
      spelled.unfinished isUnfinished
    split at added
    · next isLast =>
      obtain ⟨⟨function, facts⟩, read, added⟩ := bind_eq_ok_iff.1 added
      cases added
      have spells :=
        FunctionText.spells_of_readBody isSignature isFirst bodyLegal inside read isLast
      rw [sameLines, List.append_assoc]
      exact spelled_addFunction earlierSpelled spells facts
    · next notLast =>
      cases added
      refine ⟨nofun, fun same => ?_⟩
      cases same
      refine ⟨earlier, first, ?_, earlierSpelled, isFirst,
        List.forall_mem_append.2 ⟨inside, List.forall_mem_singleton.2 notLast⟩⟩
      rw [sameLines, List.append_assoc]
      rfl

end Assembly

/-- What is read from a text is printed as the text says it.  The lines of the text
are those of the functions, one after the other; a function has one instruction
line per stored instruction, and the line printed for the instruction has the very
tokens of this line if it names its result or if there is no result to name.
Otherwise it has them behind the handle of the instruction. -/
theorem Program.parse_verbatim {source : String} {program : Program}
    (parsed : Program.parse source = .ok program) :
    ∃ lines, tokenizeLines 1 (splitLines source.toList) = .ok lines ∧
      program.module.IsSpelledBy lines := by
  obtain ⟨lines, tokenized, read⟩ := bind_eq_ok_iff.1 parsed
  obtain ⟨assembly, assembled, finished⟩ := bind_eq_ok_iff.1 read
  have legal := isLegal_of_tokenizeLines tokenized
  have invariant := foldlM_history
    (fun taken (assembly : Assembly) => assembly.WellFormed ∧ assembly.Spelled taken)
    (fun member ⟨wellFormed, spelled⟩ added =>
      ⟨wellFormed.add (legal _ member) added, spelled.add wellFormed (legal _ member) added⟩)
    ⟨Assembly.wellFormed_start, Assembly.spelled_start⟩ assembled
  refine ⟨lines, tokenized, ?_⟩
  unfold Assembly.finish at finished
  split at finished
  · next closed =>
    cases finished
    exact invariant.2.complete closed
  · exact absurd finished nofun

namespace EveryOpcode

/-- One line of each form, results used above their definition, a block labelled
like a truth value, and a call without a name for its result. -/
def source : String :=
  "kernel @k(%n: i32, %p: ptr) \x7b\n" ++ "  uniform head, %n\n" ++
    "entry:\n" ++ "  br head ; enter\n" ++
    "head:\n" ++ "  %i = phi i32 [0, entry], [%next, true]\n" ++ "  %c = cmp lt %i, %n\n" ++
    "  condbr %c, true, exit\n" ++
    "true:\n" ++ "  %next = add %i, -1\n" ++ "  %s = select %c, %next, true\n" ++
    "  %g = global_id 2\n" ++ "  %v = load %p\n" ++ "  store %p,%v\n" ++
    "  call @h(%v, false)\n" ++ "  barrier\n" ++ "  switch %s, exit [ 0: head, -5: true ]\n" ++
    "exit:\n" ++ "  ret %i\n" ++ "dead:\n" ++ "  unreachable\n\x7d\n"

def function : Function where
  name := "k"
  kind := .kernel
  arguments := [⟨"n", .i32⟩, ⟨"p", .ptr⟩]
  blocks :=
    ⟨[⟨some "entry", [0]⟩, ⟨some "head", [1, 2, 3]⟩,
      ⟨some "true", [4, 5, 6, 7, 8, 9, 10, 11]⟩, ⟨some "exit", [12]⟩, ⟨some "dead", [13]⟩]⟩
  instructions :=
    ⟨[.branch 1, .phi .i32 [(.constant (.int 0), 0), (.result 4, 2)],
      .compare .less (.result 1) (.argument 0), .condBranch (.result 2) 2 3,
      .binary .add (.result 1) (.constant (.int (-1))),
      .select (.result 2) (.result 4) (.constant (.bool true)), .workItem .globalId 2,
      .load (.argument 1), .store (.argument 1) (.result 7),
      .call "h" [.result 7, .constant (.bool false)], .barrier,
      .switch (.result 5) 3 [(0, 1), (-5, 2)], .ret (some (.result 1)), .unreachable]⟩
  valueNames := .ofPairs [(1, "i"), (2, "c"), (4, "next"), (5, "s"), (6, "g"), (7, "v")]

def program : Program where
  module := ⟨⟨[function]⟩⟩
  facts := IndexMap.empty.insert 0 ((Facts.empty.markBlock 1).markValue (.argument 0))

theorem parse_source : Program.parse source = .ok program := by
  apply eq_ok_of_toOption
  -- Taking a long literal apart is slow, so each line is taken apart by itself.
  unfold Program.parse source
  simp only [String.toList_append]
  decide +kernel

/-- The nameless call gets its handle in front and the other lines are kept. -/
theorem lines_kept :
    function.instructionLine 9 = "%9 = call @h(%v, false)" ∧
      Program.parse source = .ok program ∧
      ∃ lines, tokenizeLines 1 (splitLines source.toList) = .ok lines ∧
        program.module.IsSpelledBy lines :=
  ⟨by decide +kernel, parse_source, Program.parse_verbatim parse_source⟩

end EveryOpcode

end Workgroup

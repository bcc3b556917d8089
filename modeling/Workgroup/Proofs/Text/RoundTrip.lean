import Workgroup.Proofs.Text.OutlineText

/-!
Contract: a printable program is read back from its text, renumbered.

Functions are assembled in the order in which they were printed; each one is
its signature, its body and a closing brace, and its facts are kept under the
handle it gets again.

Owns:
- the reading of signatures;
- the lines of one function, taken up by the assembly;
- the invariant of the assembly and its step for one function;
- reading back what was printed.
-/

namespace Workgroup

open Text

/-! ## Signatures -/

namespace Text.Reader

theorem takes_argument {before : List Argument} {argument : Argument}
    (fresh : ∀ other ∈ before, other.name ≠ argument.name) :
    (Reader.argument before).Takes
      [.valueName argument.name, .mark .colon, .word argument.type.name] argument := by
  have isNew : (before.any fun other => other.name == argument.name) = false := by
    rw [List.any_eq_false]
    intro other member
    rw [beq_eq_false_iff_ne.2 (fresh other member)]
    exact Bool.false_ne_true
  intro rest
  apply ((takes_valueName .argumentName argument.name).bind_eq).trans
  rw [isNew]
  exact ((takes_expect .colon).bind ((takes_scalarType argument.type).return _)) rest

end Text.Reader

namespace Function

variable {function : Function}

/-- A printed signature is read as the function without its body, whose body
follows. -/
theorem signature_eq (distinct : (function.arguments.map Argument.name).Nodup) :
    Reader.signature function.signatureTokens = .ok ((function.bare, false), []) := by
  have arguments : Reader.items (Reader.accept .closeParen) Reader.argument
      (Token.commaSeparated (function.arguments.map fun argument =>
        [.valueName argument.name, .mark .colon, .word argument.type.name]) ++
          [.mark .closeParen, .mark .openBrace]) =
      .ok (function.arguments.map id, [.mark .openBrace]) := by
    apply Reader.items_eq (Reader.accept_self .closeParen [.mark .openBrace])
    · exact fun after => Reader.accept_other (nofun : Mark.comma ≠ .closeParen) after
    · exact fun argument member after => rfl
    · exact fun argument member => List.cons_ne_nil _ _
    · intro front argument back split
      rw [List.map_id]
      apply Reader.takes_argument
      rw [split, List.map_append, List.nodup_append] at distinct
      intro other member
      exact distinct.2.2 _ (List.mem_map_of_mem member) _ List.mem_cons_self
  rw [List.map_id] at arguments
  unfold signatureTokens Reader.signature
  rw [List.append_assoc]
  apply ((Reader.takes_functionKind function.kind).bind_eq).trans
  apply ((Reader.takes_functionName function.name).bind_eq).trans
  apply ((Reader.takes_expect .openParen).bind_eq).trans
  apply (Reader.bind_eq arguments).trans
  rfl

end Function

namespace Assembly

variable {program : Program} {assembly : Assembly} {function : Function} {facts : Option Facts}

/-- Lines of a body are put aside up to the closing brace. -/
theorem foldlM_body {lines : List Line}
    (notClosing : ∀ line ∈ lines, line.tokens ≠ [.mark .closeBrace]) {signature : Function}
    {body : List Line} (isOpen : assembly.unfinished = some (signature, body)) :
    lines.foldlM add assembly =
      .ok { assembly with unfinished := some (signature, body ++ lines) } := by
  induction lines generalizing assembly body with
  | nil =>
      rw [List.append_nil, ← isOpen]
      rfl
  | cons line lines inductionHypothesis =>
      obtain ⟨isBody, areBody⟩ := List.forall_mem_cons.1 notClosing
      have added : assembly.add line =
          .ok { assembly with unfinished := some (signature, body ++ [line]) } := by
        unfold add
        rw [isOpen]
        exact if_neg isBody
      rw [List.foldlM_cons, added]
      apply (inductionHypothesis areBody rfl).trans
      rw [List.append_assoc]
      rfl

section OneFunction

variable {line closing : Line} {body after : List Line} {closes : Bool}
  (closed : assembly.unfinished = none)
include closed

theorem add_eq_addSignature : assembly.add line = assembly.addSignature line := by
  unfold add
  rw [closed]

theorem add_of_known (read : Reader.readLine Reader.signature line = .ok (function, closes))
    (known : (assembly.program.module.functionNamed? function.name).isSome = true) :
    assembly.add line = .error (.onLine line.number (.duplicateFunction function.name)) := by
  rw [add_eq_addSignature closed, addSignature_of_read read, if_pos known]

theorem add_of_fresh (read : Reader.readLine Reader.signature line = .ok (function, closes))
    (fresh : assembly.program.module.functionNamed? function.name = none) :
    assembly.add line = .ok (if closes then assembly.addFunction function .empty
      else { assembly with unfinished := some (function, []) }) := by
  rw [add_eq_addSignature closed, addSignature_of_read read,
    if_neg (Option.not_isSome_iff_eq_none.2 fresh)]

/-- A signature and lines without closing brace. -/
theorem foldlM_open (read : Reader.readLine Reader.signature line = .ok (function, false))
    (fresh : assembly.program.module.functionNamed? function.name = none)
    (inside : ∀ line ∈ body, line.tokens ≠ [.mark .closeBrace]) :
    (line :: body).foldlM add assembly =
      .ok { assembly with unfinished := some (function, body) } := by
  have isOpen : Assembly.unfinished { assembly with unfinished := some (function, []) } =
      some (function, []) := rfl
  rw [List.foldlM_cons, add_of_fresh closed read fresh]
  exact foldlM_body inside isOpen

/-- A signature and the lines of its body up to the closing brace. -/
theorem foldlM_closed (read : Reader.readLine Reader.signature line = .ok (function, false))
    (fresh : assembly.program.module.functionNamed? function.name = none)
    (inside : ∀ line ∈ body, line.tokens ≠ [.mark .closeBrace])
    (isClosing : closing.tokens = [.mark .closeBrace]) :
    (line :: (body ++ closing :: after)).foldlM add assembly = (do
      let (whole, facts) ← function.readBody body
      after.foldlM add (assembly.addFunction whole facts)) := by
  rw [← List.cons_append, foldlM_append_eq (foldlM_open closed read fresh inside),
    List.foldlM_cons]
  have isAdd : Assembly.add { assembly with unfinished := some (function, body) } closing = (do
      let (whole, facts) ← function.readBody body
      return assembly.addFunction whole facts) := if_pos isClosing
  rw [isAdd]
  cases function.readBody body <;> rfl

end OneFunction

/-- No line of a body is a closing brace. -/
theorem tokens_ne_closeBrace (legible : function.Legible) {body : List Line}
    (areBody : body.map Line.tokens = (facts.map fun facts => facts.tokens function).toList ++
      function.blocks.handles.flatMap function.bodyTokens) :
    ∀ line ∈ body, line.tokens ≠ [.mark .closeBrace] := by
  intro line isLine
  have member : line.tokens ∈ body.map Line.tokens := List.mem_map_of_mem isLine
  rw [areBody] at member
  rcases List.mem_append.1 member with isFacts | isBlock
  · obtain ⟨listed, -, spelled⟩ := Option.map_eq_some_iff.1 (Option.mem_toList.1 isFacts)
    rw [← spelled]
    exact nofun
  · obtain ⟨block, -, inBlock⟩ := List.mem_flatMap.1 isBlock
    rcases List.mem_cons.1 inBlock with isLabel | isHandle
    · rw [isLabel]
      exact nofun
    · obtain ⟨handle, placed, spelled⟩ := List.mem_map.1 isHandle
      obtain ⟨instruction, stored⟩ :=
        legible.exists_stored ((function.placed_sublist block).subset placed)
      rw [← spelled, Function.handleTokens_eq stored]
      unfold Function.instructionTokens
      split
      · exact nofun
      · exact nofun

/-- The lines of a function are taken up by reading its body, unless there is a
function of its name. -/
theorem foldlM_tokenLines (legible : function.Legible)
    (distinct : (function.arguments.map Argument.name).Nodup)
    (closed : assembly.unfinished = none) {lines : List Line}
    (areLines : lines.map Line.tokens = function.tokenLines facts) : ∃ number body,
      (body.map Line.tokens = (facts.map fun facts => facts.tokens function).toList ++
        function.blocks.handles.flatMap function.bodyTokens) ∧
      lines.foldlM add assembly =
        if (assembly.program.module.functionNamed? function.name).isSome then
          .error (.onLine number (.duplicateFunction function.name))
        else (function.bare.readBody body).map fun answer =>
          assembly.addFunction answer.1 answer.2 := by
  obtain ⟨front, closing, rfl, areFront, isClosing⟩ := List.map_eq_append_iff.1 areLines
  obtain ⟨signatureLine, body, rfl, isSignature, areBody⟩ := List.map_eq_cons_iff.1 areFront
  obtain ⟨closingLine, others, rfl, isClosingLine, areOthers⟩ := List.map_eq_cons_iff.1 isClosing
  obtain rfl := List.map_eq_nil_iff.1 areOthers
  refine ⟨signatureLine.number, body, areBody, ?_⟩
  have read : Reader.readLine Reader.signature signatureLine = .ok (function.bare, false) := by
    rw [Reader.readLine_eq_ok_iff, isSignature]
    exact ⟨[], Function.signature_eq distinct⟩
  have inside := tokens_ne_closeBrace legible areBody
  rw [List.cons_append]
  split
  · next known =>
    rw [List.foldlM_cons, add_of_known closed read known]
    rfl
  · next unknown =>
    rw [foldlM_closed closed read (Option.not_isSome_iff_eq_none.1 unknown) inside isClosingLine]
    cases function.bare.readBody body <;> rfl

/-! ## Functions -/

/-- The assembly has taken up some functions and their facts, renumbered. -/
structure Traces (program : Program) (front : List Function) (assembly : Assembly) : Prop where
  unfinished_eq : assembly.unfinished = none
  functions_eq : assembly.program.module.functions.entries = front.map Function.renumbered
  facts_eq : ∀ handle, assembly.program.facts.get? handle =
    if handle < front.length then program.renumberedFacts.get? handle else none

variable {front left : List Function}

theorem get?_of_split (isSplit : program.module.functions.entries = front ++ function :: left) :
    program.module.functions.get? front.length = some function := by
  unfold Table.get?
  rw [isSplit, List.getElem?_append_right (Nat.le_refl _), Nat.sub_self]
  rfl

/-- One more function is taken up under its old handle. -/
theorem Traces.addFunction (traces : assembly.Traces program front)
    (printable : program.Printable)
    (isSplit : program.module.functions.entries = front ++ function :: left) :
    (assembly.addFunction function.renumbered
      (((program.facts.get? front.length).map (Facts.renumber function.placeOf)).getD
        .empty)).Traces program (front ++ [function]) := by
  have isFunction := get?_of_split isSplit
  have size_eq : assembly.program.module.functions.size = front.length := by
    unfold Table.size
    rw [traces.functions_eq, List.length_map]
  refine ⟨rfl, ?_, fun handle => ?_⟩
  · show assembly.program.module.functions.entries ++ [function.renumbered] = _
    rw [traces.functions_eq, List.map_append]
    rfl
  · have known : program.renumberedFacts.get? front.length =
        (program.facts.get? front.length).map (Facts.renumber function.placeOf) := by
      rw [program.get?_renumberedFacts, isFunction]
      cases program.facts.get? front.length <;> rfl
    have atMost : handle < (front ++ [function]).length ↔
        handle < front.length ∨ handle = front.length := by
      rw [List.length_append, List.length_singleton]
      omega
    simp only [atMost]
    unfold Assembly.addFunction
    cases isFacts : program.facts.get? front.length with
    | none =>
        show assembly.program.facts.get? handle = _
        rw [traces.facts_eq]
        by_cases same : handle = front.length
        · rw [isFacts] at known
          rw [same, if_neg (Nat.lt_irrefl _), if_pos (.inr rfl), known]
          rfl
        · simp only [same, or_false]
    | some facts =>
        have printableFacts := printable.legible.facts_of_get? isFunction facts isFacts
        have nonempty := facts.isEmpty_renumber function.placeOf printableFacts.nonempty
        show IndexMap.get? (if (facts.renumber function.placeOf).isEmpty = true then _ else _)
          handle = _
        rw [nonempty, if_neg Bool.false_ne_true, IndexMap.get?_insert, size_eq, traces.facts_eq]
        by_cases same : handle = front.length
        · rw [isFacts] at known
          rw [if_pos same, if_pos (.inr same), same, known]
          rfl
        · rw [if_neg same]
          simp only [same, or_false]

/-- The lines of the functions that are left are taken up one function after the
other. -/
theorem Traces.addFunctions (traces : assembly.Traces program front)
    (printable : program.Printable) (isSplit : program.module.functions.entries = front ++ left)
    {lines : List Line} (areLines : lines.map Line.tokens =
      (left.mapIdx fun index function =>
        function.tokenLines (program.facts.get? (front.length + index))).flatten) :
    ∃ next, lines.foldlM add assembly = .ok next ∧
      next.Traces program program.module.functions.entries := by
  induction left generalizing assembly front lines with
  | nil =>
      obtain rfl := List.map_eq_nil_iff.1 areLines
      rw [List.append_nil] at isSplit
      rw [isSplit]
      exact ⟨assembly, rfl, traces⟩
  | cons function left inductionHypothesis =>
      rw [List.mapIdx_cons, List.flatten_cons] at areLines
      obtain ⟨functionLines, others, rfl, areFunction, areOthers⟩ :=
        List.map_eq_append_iff.1 areLines
      have member : function ∈ program.module.functions.entries := by
        rw [isSplit]
        exact List.mem_append_right _ List.mem_cons_self
      have isFunction := get?_of_split isSplit
      have fresh : assembly.program.module.functionNamed? function.name = none := by
        unfold Module.functionNamed?
        rw [traces.functions_eq, List.findIdx?_eq_none_iff, List.forall_mem_map]
        intro other otherMember
        have distinct := printable.distinct
        rw [isSplit, List.map_append, List.nodup_append] at distinct
        exact beq_eq_false_iff_ne.2
          (distinct.2.2 _ (List.mem_map_of_mem otherMember) _ List.mem_cons_self)
      have functionPrintable := printable.functions function member
      obtain ⟨number, body, areBody, functionAdded⟩ := foldlM_tokenLines
        functionPrintable.legible functionPrintable.distinct_arguments traces.unfinished_eq
        areFunction
      rw [fresh, functionPrintable.readBody_eq (printable.legible.facts_of_get? isFunction) areBody]
        at functionAdded
      have isStillSplit : program.module.functions.entries = front ++ [function] ++ left := by
        rw [isSplit, List.append_assoc]
        rfl
      have areStillOthers : others.map Line.tokens = (left.mapIdx fun index other =>
          other.tokenLines
            (program.facts.get? ((front ++ [function]).length + index))).flatten := by
        have sameHandle (index : Nat) :
            (front ++ [function]).length + index = front.length + (index + 1) := by
          rw [List.length_append, List.length_singleton]
          omega
        simp only [sameHandle]
        exact areOthers
      obtain ⟨next, rest, nextTraces⟩ := inductionHypothesis
        (traces.addFunction printable isSplit) isStillSplit areStillOthers
      refine ⟨next, ?_, nextTraces⟩
      rw [foldlM_append_eq functionAdded]
      exact rest

end Assembly

/-! ## Programs -/

/-- The token lists of a printable program are read as the program, with every
function renumbered by places. -/
theorem Program.Printable.ofLines_eq {program : Program} (printable : program.Printable)
    {lines : List Line} (areLines : lines.map Line.tokens =
      (program.module.functions.entries.mapIdx fun handle function =>
        function.tokenLines (program.facts.get? handle)).flatten) :
    Program.ofLines lines = .ok program.renumbered := by
  have start : Assembly.start.Traces program [] :=
    ⟨rfl, rfl, fun handle => (if_neg (Nat.not_lt_zero handle)).symm⟩
  have areAll : lines.map Line.tokens = (program.module.functions.entries.mapIdx
      fun index function => function.tokenLines
        (program.facts.get? (([] : List Function).length + index))).flatten := by
    simp only [List.length_nil, Nat.zero_add]
    exact areLines
  obtain ⟨assembly, assembled, traces⟩ := start.addFunctions printable rfl areAll
  have sameFunctions : assembly.program.module.functions =
      program.module.functions.map Function.renumbered := Table.ext traces.functions_eq
  have sameFacts : assembly.program.facts = program.renumberedFacts := by
    apply IndexMap.ext
    intro handle
    rw [traces.facts_eq]
    by_cases below : handle < program.module.functions.entries.length
    · rw [if_pos below]
    · have missing : program.module.functions.get? handle = none :=
        List.getElem?_eq_none (Nat.le_of_not_lt below)
      rw [if_neg below, program.get?_renumberedFacts, missing]
      cases program.facts.get? handle <;> rfl
  have sameProgram : assembly.program = program.renumbered := by
    unfold renumbered
    rw [← sameFunctions, ← sameFacts]
  unfold ofLines
  rw [assembled]
  show assembly.finish = _
  unfold Assembly.finish
  rw [traces.unfinished_eq, sameProgram]

/-- The text of a legible program is read as its token lists are. -/
theorem Program.Legible.parse_render_eq {program : Program} (legible : program.Legible) :
    ∃ lines, (lines.map Line.tokens = (program.module.functions.entries.mapIdx
      fun handle function => function.tokenLines (program.facts.get? handle)).flatten) ∧
      Program.parse program.render = Program.ofLines lines := by
  obtain ⟨lines, tokenized, areLines⟩ := legible.exists_tokenizeLines
  refine ⟨lines, areLines, ?_⟩
  unfold parse
  rw [tokenized]
  rfl

/-- What was printed is read back, with every function renumbered by places. -/
theorem Program.parse_render {program : Program} (printable : program.Printable) :
    Program.parse program.render = .ok program.renumbered := by
  obtain ⟨lines, areLines, parsed⟩ := printable.legible.parse_render_eq
  rw [parsed]
  exact printable.ofLines_eq areLines

namespace ScatteredStorage

/-- A loop whose instructions are stored in another order than they are placed,
with one that is not placed at all. -/
def kernel : Function where
  name := "k"
  kind := .kernel
  arguments := [⟨"n", .i32⟩]
  blocks := ⟨[⟨some "entry", [3]⟩, ⟨some "head", [0, 1, 4, 5]⟩, ⟨some "exit", [2]⟩]⟩
  instructions :=
    ⟨[.phi .i32 [(.constant (.int 0), 0), (.result 1, 1)],
      .binary .add (.result 0) (.constant (.int (-1))), .ret none, .branch 1,
      .compare .less (.result 1) (.argument 0), .condBranch (.result 4) 1 2, .unreachable]⟩
  valueNames := .ofPairs [(0, "i"), (1, "j"), (4, "c")]

def program : Program where
  module := ⟨⟨[kernel]⟩⟩
  facts := .ofPairs [(0, ((Facts.empty.markBlock 1).markValue (.argument 0)).markValue (.result 4))]

theorem printable_kernel : kernel.Printable where
  name := by decide +kernel
  names := by decide +kernel
  distinct := by decide +kernel
  labels := by decide +kernel
  distinctLabels := by decide +kernel
  wellPlaced := by
    have stored : ∀ handle ∈ kernel.allPlaced, handle < kernel.instructions.size := by
      decide +kernel
    exact ⟨fun {handle} => stored handle, by decide +kernel⟩
  named := by decide +kernel
  defined := by decide +kernel
  instructions := by decide +kernel

theorem printable : program.Printable where
  distinct := by decide +kernel
  functions := List.forall_mem_singleton.2 printable_kernel
  facts := List.forall_mem_singleton.2
    ⟨kernel, rfl, by decide +kernel, by decide +kernel, by decide +kernel⟩

theorem reads_back :
    Program.parse program.render = .ok program.renumbered ∧ program.renumbered ≠ program :=
  ⟨Program.parse_render printable, by decide +kernel⟩

end ScatteredStorage

end Workgroup

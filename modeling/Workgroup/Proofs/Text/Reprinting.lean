import Workgroup.Proofs.Text.Respelling
import Workgroup.Proofs.Text.WellFormed

/-!
Contract: when the text of a program that has been read is accepted again.

A result without a name is printed under its handle.  Nothing keeps an argument
or another result from having this numeral as its name, and then the text defines
the name twice.  Otherwise the text is that of the program in which results bear
the names they are printed under, and it is read as this program.

Owns:
- the names that the text of a function defines;
- the program in which results are named as they are printed;
- the names that a body line by line defines, and the acceptance of a text.
-/

namespace Workgroup

open Text

theorem IndexMap.entries_ofPairs {α : Type} {pairs : List (Nat × α)}
    (ascending : pairs.Pairwise fun left right => left.1 < right.1) :
    (ofPairs pairs).entries = pairs := by
  have distinct : (pairs.map Prod.fst).Nodup :=
    (List.pairwise_map.2 ascending).imp Nat.ne_of_lt
  have same : ofPairs pairs = ⟨pairs, ascending⟩ := by
    refine IndexMap.ext fun handle => Option.ext fun value => (get?_ofPairs distinct).trans ?_
    rw [get?_eq_some_iff]
  rw [same]

namespace Function

variable {function : Function} {handle : InstId} {facts : Option Facts}

/-! ## Names as printed -/

/-- The names that the text of the function defines: those of its arguments, and
those under which its results are printed. -/
def printedNames (function : Function) : List String :=
  function.arguments.map Argument.name ++ function.results.map function.resultName

/-- The function with a name for every result, the one under which it is printed. -/
def namedAsPrinted (function : Function) : Function :=
  { function with
    valueNames := .ofPairs (function.results.map fun handle =>
      (handle, function.resultName handle)) }

theorem localNames_namedAsPrinted (ascend : function.ResultsAscend) :
    function.namedAsPrinted.localNames = function.printedNames := by
  have inOrder : (function.results.map fun handle =>
      (handle, function.resultName handle)).Pairwise fun left right => left.1 < right.1 :=
    List.pairwise_map.2 ascend
  unfold localNames namedAsPrinted printedNames
  dsimp only
  rw [IndexMap.entries_ofPairs inOrder, List.map_map]
  rfl

theorem get?_namedAsPrinted (wellPlaced : function.WellPlaced) {name : String} :
    function.namedAsPrinted.valueNames.get? handle = some name ↔
      function.Defines (.result handle) ∧ function.resultName handle = name := by
  have distinct : ((function.results.map fun handle =>
      (handle, function.resultName handle)).map Prod.fst).Nodup := by
    rw [List.map_map]
    exact (List.map_id _).symm ▸ wellPlaced.nodup.filter _
  rw [← mem_results]
  refine (IndexMap.get?_ofPairs distinct).trans ?_
  rw [List.mem_map]
  constructor
  · rintro ⟨other, member, same⟩
    cases same
    exact ⟨member, rfl⟩
  · rintro ⟨member, rfl⟩
    exact ⟨handle, member, rfl⟩

theorem defines_namedAsPrinted {value : Value} :
    function.namedAsPrinted.Defines value ↔ function.Defines value := by
  cases value <;> exact Iff.rfl

/-- Naming results as they are printed changes no spelling. -/
theorem WellFormed.respells_namedAsPrinted (wellFormed : function.WellFormed) :
    Respells id function function.namedAsPrinted where
  name_eq := rfl
  kind_eq := rfl
  arguments_eq := rfl
  blocks_eq := by
    have sameBlock : Block.renumber id = id := funext fun body => by
      unfold Block.renumber
      rw [List.map_id]
      rfl
    rw [sameBlock]
    exact Table.ext (List.map_id _).symm
  stored_eq := by
    intro handle _
    have sameInstruction : Instruction.renumber id = id := funext Instruction.renumber_id
    rw [sameInstruction, Option.map_id]
    rfl
  valueToken_eq := by
    intro value defines
    rw [value.renumber_id]
    cases value with
    | result handle =>
        exact valueToken_result
          ((get?_namedAsPrinted wellFormed.ordered.wellPlaced).2 ⟨defines, rfl⟩)
    | argument index => rfl
    | constant literal => rfl

/-- With distinct names for all results, a well-formed function can be printed. -/
theorem WellFormed.printable_namedAsPrinted (wellFormed : function.WellFormed)
    (distinct : function.printedNames.Nodup) : function.namedAsPrinted.Printable where
  name := wellFormed.name
  names := by
    rw [localNames_namedAsPrinted wellFormed.ordered.resultsAscend]
    refine List.forall_mem_append.2 ⟨List.forall_mem_map.2 ?_, List.forall_mem_map.2 ?_⟩
    · exact fun argument => wellFormed.legible.isName_argument
    · exact fun handle _ => wellFormed.legible.isName_resultName handle
  distinct := by
    rw [localNames_namedAsPrinted wellFormed.ordered.resultsAscend]
    exact distinct
  labels := wellFormed.labels
  distinctLabels := wellFormed.distinctLabels
  wellPlaced := ⟨wellFormed.ordered.wellPlaced.stored, wellFormed.ordered.wellPlaced.nodup⟩
  named := by
    intro handle member hasResult
    rw [Option.isSome_iff_exists]
    exact ⟨_, (get?_namedAsPrinted wellFormed.ordered.wellPlaced).2 ⟨⟨member, hasResult⟩, rfl⟩⟩
  defined := by
    intro entry member
    rw [defines_namedAsPrinted]
    have isName := IndexMap.get?_eq_some_iff.2 member
    exact ((get?_namedAsPrinted wellFormed.ordered.wellPlaced).1 isName).1
  instructions := by
    intro handle _ instruction stored
    have canPrint := wellFormed.canPrint stored
    exact ⟨fun value member => defines_namedAsPrinted.2 (canPrint.operands value member),
      canPrint.successors, canPrint.incomingBlocks, canPrint.callee⟩

/-! ## Names that the lines define -/

/-- The line of a placed handle defines the printed name of its result, if it has one. -/
theorem resultName?_handleTokens (legible : function.Legible)
    (member : handle ∈ function.allPlaced) :
    Outline.resultName? (function.handleTokens handle) =
      if function.hasResult handle then some (function.resultName handle) else none := by
  obtain ⟨instruction, stored⟩ := legible.exists_stored member
  have sameResult : function.hasResult handle = instruction.hasResult := by
    unfold hasResult
    rw [stored]
    rfl
  rw [handleTokens_eq stored, sameResult]
  unfold instructionTokens
  split <;> rfl

theorem filterMap_resultName?_body (legible : function.Legible) :
    ((facts.map fun facts => facts.tokens function).toList ++
      function.blocks.handles.flatMap function.bodyTokens).filterMap Outline.resultName? =
      function.results.map function.resultName := by
  have noName : (facts.map fun facts => facts.tokens function).toList.filterMap
      Outline.resultName? = [] := by
    cases facts <;> rfl
  have blockNames (body : Block) (listed : ∀ handle ∈ body.instructions,
      handle ∈ function.allPlaced) :
      (body.instructions.map function.handleTokens).filterMap Outline.resultName? =
        (body.instructions.filter function.hasResult).map function.resultName := by
    rw [List.filterMap_map, ← List.filterMap_eq_map, ← List.filterMap_eq_filter,
      List.filterMap_filterMap]
    refine List.filterMap_congr fun handle member => ?_
    rw [Function.comp_apply, resultName?_handleTokens legible (listed handle member)]
    cases hasResult : function.hasResult handle <;> simp [Option.guard, hasResult]
  have allNames : function.blocks.handles.flatMap (fun block =>
      (function.bodyTokens block).filterMap Outline.resultName?) =
      function.blocks.entries.flatMap fun body =>
        (body.instructions.filter function.hasResult).map function.resultName := by
    apply Table.flatMap_handles
    intro block body isBody
    have sameHandles : function.placed block = body.instructions := by
      unfold placed
      rw [isBody]
      rfl
    unfold bodyTokens
    rw [List.filterMap_cons, sameHandles]
    exact blockNames body (sameHandles ▸ (function.placed_sublist block).subset)
  rw [List.filterMap_append, noName, List.nil_append, List.filterMap_flatMap, allNames]
  unfold results allPlaced
  rw [List.filter_flatMap, List.map_flatMap]

/-- A body whose lines are those of a function is only read if their names are
distinct. -/
theorem Legible.nodup_of_readBody (legible : function.Legible)
    (distinct : (function.arguments.map Argument.name).Nodup) {body : List Line}
    (isBody : body.map Line.tokens = (facts.map fun facts => facts.tokens function).toList ++
      function.blocks.handles.flatMap function.bodyTokens)
    {answer : Function × Facts} (read : function.bare.readBody body = .ok answer) :
    function.printedNames.Nodup := by
  obtain ⟨outline, outlined, -⟩ := bind_eq_ok_iff.1 read
  have bareNames : (Outline.start function.bare).function.localNames =
      function.arguments.map Argument.name := List.append_nil _
  obtain ⟨names_eq, nodup⟩ := Outline.localNames_foldlM (Outline.ordered_start rfl rfl rfl)
    (bareNames ▸ distinct) outlined
  rw [names_eq, bareNames, isBody, filterMap_resultName?_body legible] at nodup
  exact nodup

end Function

namespace Assembly

variable {assembly next : Assembly} {function : Function} {facts : Option Facts}

/-- The lines of a function are only taken up if they define distinct names. -/
theorem nodup_of_foldlM_tokenLines (legible : function.Legible)
    (distinct : (function.arguments.map Argument.name).Nodup)
    (closed : assembly.unfinished = none) {lines : List Line}
    (areLines : lines.map Line.tokens = function.tokenLines facts)
    (assembled : lines.foldlM add assembly = .ok next) :
    next.unfinished = none ∧ function.printedNames.Nodup := by
  obtain ⟨number, body, areBody, taken⟩ := foldlM_tokenLines legible distinct closed areLines
  rw [taken] at assembled
  split at assembled
  · cases assembled
  · cases read : function.bare.readBody body with
    | error failure =>
        rw [read] at assembled
        cases assembled
    | ok answer =>
        rw [read] at assembled
        cases assembled
        exact ⟨rfl, legible.nodup_of_readBody distinct areBody read⟩

/-- The lines of several functions are only taken up if those of each one define
distinct names. -/
theorem nodup_of_foldlM_functions {functions : List Function} {listed : Nat → Option Facts}
    (legible : ∀ function ∈ functions, function.Legible)
    (distinct : ∀ function ∈ functions, (function.arguments.map Argument.name).Nodup)
    (closed : assembly.unfinished = none) {lines : List Line}
    (areLines : lines.map Line.tokens = (functions.mapIdx fun index function =>
      function.tokenLines (listed index)).flatten)
    (assembled : lines.foldlM add assembly = .ok next) :
    ∀ function ∈ functions, function.printedNames.Nodup := by
  induction functions generalizing assembly lines listed with
  | nil => exact fun function member => absurd member List.not_mem_nil
  | cons function functions inductionHypothesis =>
      rw [List.mapIdx_cons, List.flatten_cons] at areLines
      obtain ⟨functionLines, others, rfl, areFunction, areOthers⟩ :=
        List.map_eq_append_iff.1 areLines
      rw [List.foldlM_append] at assembled
      obtain ⟨middle, functionAdded, rest⟩ := bind_eq_ok_iff.1 assembled
      rw [List.forall_mem_cons] at legible distinct
      obtain ⟨stillClosed, nodup⟩ :=
        nodup_of_foldlM_tokenLines legible.1 distinct.1 closed areFunction functionAdded
      exact List.forall_mem_cons.2 ⟨nodup,
        inductionHypothesis legible.2 distinct.2 stillClosed areOthers rest⟩

end Assembly

/-! ## Programs -/

namespace Program

variable {program : Program}

/-- The program in which every result has the name under which it is printed. -/
def namedAsPrinted (program : Program) : Program where
  module := ⟨program.module.functions.map Function.namedAsPrinted⟩
  facts := program.facts

theorem WellFormed.render_namedAsPrinted (wellFormed : program.WellFormed) :
    program.namedAsPrinted.render = program.render := by
  refine render_eq_of_lines (Table.size_map _ _) fun {handle function changed} isFunction same => ?_
  rw [namedAsPrinted, Table.get?_map, isFunction] at same
  cases same
  have functionWellFormed := wellFormed.functions function (List.mem_of_getElem? isFunction)
  have respells := functionWellFormed.respells_namedAsPrinted
  have sameHeader : (program.facts.get? handle).bind function.namedAsPrinted.directive? =
      (program.facts.get? handle).bind function.directive? := by
    cases isFacts : program.facts.get? handle with
    | none => rfl
    | some facts =>
        have printable := wellFormed.legible.facts_of_get? isFunction facts isFacts
        have sameFacts : facts.renumber id = facts := by
          have sameValue : Value.renumber id = id := funext Value.renumber_id
          unfold Facts.renumber
          rw [sameValue, List.map_id]
          exact congrArg (Facts.mk facts.blocks) (OrderedSet.ext fun _ => OrderedSet.mem_ofList)
        have sameDirective := respells.directive?_eq printable fun _ _ inOrder => inOrder
        rw [sameFacts] at sameDirective
        exact sameDirective
  show function.namedAsPrinted.lines
    ((program.facts.get? handle).bind function.namedAsPrinted.directive?).toList = _
  rw [sameHeader]
  exact respells.lines_eq functionWellFormed.legible _

theorem WellFormed.printable_namedAsPrinted (wellFormed : program.WellFormed)
    (distinct : ∀ function ∈ program.module.functions.entries, function.printedNames.Nodup) :
    program.namedAsPrinted.Printable where
  distinct := by
    show ((program.module.functions.entries.map Function.namedAsPrinted).map Function.name).Nodup
    rw [List.map_map]
    exact wellFormed.distinct
  functions := List.forall_mem_map.2 fun function member =>
    (wellFormed.functions function member).printable_namedAsPrinted (distinct function member)
  facts := by
    intro entry member
    obtain ⟨function, isFunction, factsWellFormed⟩ :=
      wellFormed.facts (IndexMap.get?_eq_some_iff.2 member)
    have printable := factsWellFormed.printable
      (wellFormed.functions function (List.mem_of_getElem? isFunction))
    refine ⟨function.namedAsPrinted, ?_, printable.nonempty, printable.blocks, ?_⟩
    · show (program.module.functions.map Function.namedAsPrinted).get? entry.1 = _
      rw [Table.get?_map, isFunction]
      rfl
    · exact fun value isValue => ⟨(printable.values value isValue).1,
        Function.defines_namedAsPrinted.2 (printable.values value isValue).2⟩

/-- The text of a program that has been read is accepted again exactly if no
function defines a name twice when results without a name are printed under their
handles.  Whenever it is accepted, what is read has the same text. -/
theorem reread_iff_printedNames_nodup {source : String}
    (parsed : Program.parse source = .ok program) :
    ((∃ reread, Program.parse program.render = .ok reread) ↔
      ∀ function ∈ program.module.functions.entries, function.printedNames.Nodup) ∧
    ∀ reread, Program.parse program.render = .ok reread → reread.render = program.render := by
  have wellFormed := wellFormed_of_parse parsed
  have rereads (distinct : ∀ function ∈ program.module.functions.entries,
      function.printedNames.Nodup) :
      Program.parse program.render = .ok program.namedAsPrinted.renumbered ∧
        program.namedAsPrinted.renumbered.render = program.render := by
    have ascend : ∀ function ∈ program.namedAsPrinted.module.functions.entries,
        function.ResultsAscend := List.forall_mem_map.2 fun function member =>
      (wellFormed.functions function member).ordered.resultsAscend
    obtain ⟨parsedAgain, sameText⟩ := (wellFormed.printable_namedAsPrinted distinct).rereads ascend
    rw [wellFormed.render_namedAsPrinted] at parsedAgain sameText
    exact ⟨parsedAgain, sameText⟩
  have accepted (reread : Program) (parsedAgain : Program.parse program.render = .ok reread) :
      ∀ function ∈ program.module.functions.entries, function.printedNames.Nodup := by
    obtain ⟨lines, areLines, sameAnswer⟩ := wellFormed.legible.parse_render_eq
    rw [sameAnswer] at parsedAgain
    obtain ⟨assembly, assembled, -⟩ := bind_eq_ok_iff.1 parsedAgain
    refine Assembly.nodup_of_foldlM_functions wellFormed.legible.functions ?_ rfl areLines assembled
    exact fun function member =>
      (List.nodup_append.1 (wellFormed.functions function member).distinct).1
  refine ⟨⟨fun ⟨reread, parsedAgain⟩ => accepted reread parsedAgain, fun distinct =>
    ⟨_, (rereads distinct).1⟩⟩, fun reread parsedAgain => ?_⟩
  obtain ⟨expected, sameText⟩ := rereads (accepted reread parsedAgain)
  cases expected.symm.trans parsedAgain
  exact sameText

end Program

namespace NumberedResult

/-- A result without a name, which is printed under its handle. -/
def source : String := "func @f(%a: i32) \x7b\nentry:\n  local_id 0\n  ret\n\x7d\n"

def function : Function where
  name := "f"
  kind := .helper
  arguments := [⟨"a", .i32⟩]
  blocks := ⟨[⟨some "entry", [0, 1]⟩]⟩
  instructions := ⟨[.workItem .localId 0, .ret none]⟩
  valueNames := .empty

def program : Program := ⟨⟨⟨[function]⟩⟩, .empty⟩

theorem parse_source : Program.parse source = .ok program := by
  apply eq_ok_of_toOption
  decide +kernel

/-- The text is accepted although it names the result, which the program does not. -/
theorem reread_accepted : ∃ reread, Program.parse program.render = .ok reread ∧
    reread.render = program.render ∧ reread ≠ program := by
  obtain ⟨accepted_iff, sameText⟩ := Program.reread_iff_printedNames_nodup parse_source
  have distinct : ∀ function ∈ program.module.functions.entries, function.printedNames.Nodup := by
    decide +kernel
  obtain ⟨reread, parsed⟩ := accepted_iff.2 distinct
  refine ⟨reread, parsed, sameText reread parsed, fun same => ?_⟩
  have named : (Program.parse program.render).toOption ≠ some program := by decide +kernel
  rw [parsed, same] at named
  exact named rfl

end NumberedResult

namespace ClashingNumber

/-- An argument with the name under which a result is printed. -/
def source : String := "func @f(%0: i32) \x7b\nentry:\n  local_id 0\n  ret\n\x7d\n"

def program : Program :=
  ⟨⟨⟨[{ NumberedResult.function with arguments := [⟨"0", .i32⟩] }]⟩⟩, .empty⟩

/-- The text of the program defines a name twice and is refused. -/
theorem text_refused : Program.parse source = .ok program ∧
    Program.parse program.render = .error (.onLine 3 (.redefinition "%0")) := by
  constructor
  · apply eq_ok_of_toOption
    decide +kernel
  · decide +kernel

end ClashingNumber

end Workgroup

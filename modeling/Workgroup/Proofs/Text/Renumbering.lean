import Mathlib.Data.List.Nodup
import Workgroup.Program
import Workgroup.Proofs.Function.Placed
import Workgroup.Proofs.Text.Spelling

/-!
Contract: programs that their text describes, and what the text keeps of them.

The text of a function lists its placed instructions in order and nothing of
the rest of the storage, so what can be read back is the function with its
handles renumbered by their places.

Owns:
- renumbered values, instructions, functions, facts and programs;
- printable and legible functions and programs;
- names and places in a printable function.
-/

namespace Workgroup

open Text (isName isLabel)

namespace IndexMap

variable {α : Type} {pairs : List (Nat × α)} {handle : Nat} {value : α}

/-- The map of the listed values; a later value replaces an earlier one. -/
def ofPairs (pairs : List (Nat × α)) : IndexMap α :=
  pairs.foldl (fun table pair => table.insert pair.1 pair.2) .empty

theorem get?_ofPairs (distinct : (pairs.map Prod.fst).Nodup) :
    (ofPairs pairs).get? handle = some value ↔ (handle, value) ∈ pairs := by
  suffices general : ∀ start : IndexMap α,
      (pairs.foldl (fun table pair => table.insert pair.1 pair.2) start).get? handle = some value ↔
        (handle, value) ∈ pairs ∨ handle ∉ pairs.map Prod.fst ∧ start.get? handle = some value by
    refine (general .empty).trans (or_iff_left ?_)
    exact fun absent => absurd absent.2 nofun
  induction pairs with
  | nil =>
      intro start
      simp
  | cons pair pairs inductionHypothesis =>
      intro start
      obtain ⟨fresh, distinctRest⟩ := List.nodup_cons.1 distinct
      rw [List.foldl_cons, inductionHypothesis distinctRest, get?_insert, List.map_cons,
        List.mem_cons, List.mem_cons, not_or]
      by_cases same : handle = pair.1
      · subst same
        have absent : (pair.1, value) ∉ pairs := fun member =>
          fresh (List.mem_map.2 ⟨(pair.1, value), member, rfl⟩)
        rw [if_pos rfl]
        constructor
        · rintro (member | ⟨-, isValue⟩)
          · exact absurd member absent
          · exact .inl (.inl (by rw [← Option.some.inj isValue]))
        · rintro ((isPair | member) | ⟨⟨different, -⟩, -⟩)
          · exact .inr ⟨fresh, by rw [← isPair]⟩
          · exact absurd member absent
          · exact absurd rfl different
      · have notPair : (handle, value) ≠ pair := fun isPair => same (by rw [← isPair])
        rw [if_neg same]
        simp only [notPair, same, false_or, not_false_eq_true, true_and]

theorem nodup_fst (table : IndexMap α) : (table.entries.map Prod.fst).Nodup :=
  (List.pairwise_map.2 table.ascending).imp Nat.ne_of_lt

end IndexMap

/-! ## Renumbering -/

def Value.renumber (rename : InstId → InstId) : Value → Value
  | .result instruction => .result (rename instruction)
  | .argument index => .argument index
  | .constant literal => .constant literal

def Instruction.renumber (rename : InstId → InstId) : Instruction → Instruction
  | .phi type incoming =>
      .phi type (incoming.map fun entry => (entry.1.renumber rename, entry.2))
  | .binary op left right => .binary op (left.renumber rename) (right.renumber rename)
  | .compare op left right => .compare op (left.renumber rename) (right.renumber rename)
  | .select condition accept reject =>
      .select (condition.renumber rename) (accept.renumber rename) (reject.renumber rename)
  | .workItem query dimension => .workItem query dimension
  | .load pointer => .load (pointer.renumber rename)
  | .store pointer value => .store (pointer.renumber rename) (value.renumber rename)
  | .call callee arguments => .call callee (arguments.map (Value.renumber rename))
  | .barrier => .barrier
  | .branch target => .branch target
  | .condBranch condition accept reject => .condBranch (condition.renumber rename) accept reject
  | .switch selector fallback cases => .switch (selector.renumber rename) fallback cases
  | .ret value => .ret (value.map (Value.renumber rename))
  | .unreachable => .unreachable

def Block.renumber (rename : InstId → InstId) (body : Block) : Block :=
  ⟨body.label, body.instructions.map rename⟩

def Facts.renumber (rename : InstId → InstId) (facts : Facts) : Facts where
  blocks := facts.blocks
  values := .ofList (facts.values.toList.map (Value.renumber rename))

namespace Function

/-- The place of a handle among all placed ones, block by block. -/
def placeOf (function : Function) (handle : InstId) : InstId := function.allPlaced.idxOf handle

/-- The function with every handle replaced by its place, without the
instructions that have none. -/
def renumbered (function : Function) : Function where
  name := function.name
  kind := function.kind
  arguments := function.arguments
  blocks := function.blocks.map (Block.renumber function.placeOf)
  instructions := ⟨function.allPlaced.filterMap fun handle =>
    (function.instructions.get? handle).map (Instruction.renumber function.placeOf)⟩
  valueNames := .ofPairs
    (function.valueNames.entries.map fun entry => (function.placeOf entry.1, entry.2))

end Function

namespace Program

/-- The facts of existing functions, renumbered with them. -/
def renumberedFacts (program : Program) : FactTable :=
  .ofPairs (program.facts.entries.filterMap fun entry =>
    (program.module.functions.get? entry.1).map fun function =>
      (entry.1, entry.2.renumber function.placeOf))

/-- The program with the handles of every function replaced by their places. -/
def renumbered (program : Program) : Program where
  module := ⟨program.module.functions.map Function.renumbered⟩
  facts := program.renumberedFacts

end Program

/-! ## Printable programs -/

namespace Function

/-- Whether an instruction with a result is stored behind a handle. -/
def hasResult (function : Function) (handle : InstId) : Bool :=
  (function.instructions.get? handle).any Instruction.hasResult

/-- Whether a value can be named in the text of the function: a constant, an
argument it declares, or the result of a placed instruction. -/
def Defines (function : Function) : Value → Prop
  | .result handle => handle ∈ function.allPlaced ∧ function.hasResult handle = true
  | .argument index => index < function.arguments.length
  | .constant _ => True

/-- The name under which a result is printed: its own or its handle. -/
def resultName (function : Function) (handle : InstId) : String :=
  (function.valueNames.get? handle).getD (toString handle)

/-- The names of the arguments and of the results. -/
def localNames (function : Function) : List String :=
  function.arguments.map Argument.name ++ function.valueNames.entries.map Prod.snd

instance (function : Function) : (value : Value) → Decidable (function.Defines value)
  | .result handle => inferInstanceAs
      (Decidable (handle ∈ function.allPlaced ∧ function.hasResult handle = true))
  | .argument index => inferInstanceAs (Decidable (index < function.arguments.length))
  | .constant _ => isTrue trivial

end Function

/-- The function that a call names. -/
def Instruction.callee? : Instruction → Option String
  | .call callee _ => some callee
  | _ => none

namespace Function

/-- Whether an instruction names values, blocks and a function that its text can
name. -/
structure CanPrint (function : Function) (instruction : Instruction) : Prop where
  operands : ∀ value ∈ instruction.operands, function.Defines value
  successors : ∀ block ∈ instruction.successors, block < function.blocks.size
  incomingBlocks : ∀ block ∈ instruction.incomingBlocks, block < function.blocks.size
  callee : ∀ callee ∈ instruction.callee?, isName callee = true

instance (function : Function) (instruction : Instruction) :
    Decidable (function.CanPrint instruction) :=
  decidable_of_iff
    ((∀ value ∈ instruction.operands, function.Defines value) ∧
      (∀ block ∈ instruction.successors, block < function.blocks.size) ∧
      (∀ block ∈ instruction.incomingBlocks, block < function.blocks.size) ∧
      ∀ callee ∈ instruction.callee?, isName callee = true)
    ⟨fun ⟨operands, successors, incomingBlocks, callee⟩ =>
      ⟨operands, successors, incomingBlocks, callee⟩,
      fun ⟨operands, successors, incomingBlocks, callee⟩ =>
      ⟨operands, successors, incomingBlocks, callee⟩⟩

/-- Names are legal and distinct, every handle is placed at most once, exactly
the placed instructions with a result are named, and placed instructions name
what exists. -/
structure Printable (function : Function) : Prop where
  name : isName function.name = true
  names : ∀ name ∈ function.localNames, isName name = true
  distinct : function.localNames.Nodup
  labels : ∀ body ∈ function.blocks.entries, body.label.any isLabel = true
  distinctLabels : (function.blocks.entries.map Block.label).Nodup
  wellPlaced : function.WellPlaced
  named : ∀ handle ∈ function.allPlaced, function.hasResult handle = true →
    (function.valueNames.get? handle).isSome = true
  defined : ∀ entry ∈ function.valueNames.entries, function.Defines (.result entry.1)
  instructions : ∀ handle ∈ function.allPlaced, ∀ instruction ∈ function.instructions.get? handle,
    function.CanPrint instruction

/-- Whether the text of the function consists of legal tokens.  It may mention a
name more than once, and results may have none. -/
structure Legible (function : Function) : Prop where
  name : isName function.name = true
  names : ∀ name ∈ function.localNames, isName name = true
  labels : ∀ body ∈ function.blocks.entries, body.label.any isLabel = true
  stored : ∀ {handle}, handle ∈ function.allPlaced → handle < function.instructions.size
  instructions : ∀ handle ∈ function.allPlaced, ∀ instruction ∈ function.instructions.get? handle,
    function.CanPrint instruction

theorem Printable.legible {function : Function} (printable : function.Printable) :
    function.Legible :=
  ⟨printable.name, printable.names, printable.labels, printable.wellPlaced.stored,
    printable.instructions⟩

end Function

/-- Whether facts can be listed in the text of a function. -/
structure Facts.Printable (facts : Facts) (function : Function) : Prop where
  nonempty : facts.isEmpty = false
  blocks : ∀ block ∈ facts.blocks, block < function.blocks.size
  values : ∀ value ∈ facts.values, value.isConstant = false ∧ function.Defines value

/-- Function names are distinct, and functions and facts can be printed. -/
structure Program.Printable (program : Program) : Prop where
  distinct : (program.module.functions.entries.map Function.name).Nodup
  functions : ∀ function ∈ program.module.functions.entries, function.Printable
  facts : ∀ entry ∈ program.facts.entries, ∃ function,
    program.module.functions.get? entry.1 = some function ∧ entry.2.Printable function

/-- Functions consist of legal tokens, and facts can be printed. -/
structure Program.Legible (program : Program) : Prop where
  functions : ∀ function ∈ program.module.functions.entries, function.Legible
  facts : ∀ {handle facts}, program.facts.get? handle = some facts → ∃ function,
    program.module.functions.get? handle = some function ∧ facts.Printable function

theorem Program.Printable.legible {program : Program} (printable : program.Printable) :
    program.Legible :=
  ⟨fun function member => (printable.functions function member).legible,
    fun isFacts => printable.facts _ (IndexMap.get?_eq_some_iff.1 isFacts)⟩

/-! ## Places and names -/

namespace Function

variable {function : Function} {handle other : InstId} {place : Nat} {name : String}

theorem getElem?_placeOf (member : handle ∈ function.allPlaced) :
    function.allPlaced[function.placeOf handle]? = some handle :=
  List.getElem?_idxOf member

theorem WellPlaced.placeOf_eq (wellPlaced : function.WellPlaced)
    (isHandle : function.allPlaced[place]? = some handle) : function.placeOf handle = place := by
  obtain ⟨below, same⟩ := List.getElem?_eq_some_iff.1 isHandle
  rw [← same]
  exact wellPlaced.nodup.idxOf_getElem place below

theorem placeOf_injective (member : handle ∈ function.allPlaced)
    (otherMember : other ∈ function.allPlaced)
    (same : function.placeOf handle = function.placeOf other) : handle = other := by
  have isHandle := getElem?_placeOf member
  rw [same, getElem?_placeOf otherMember] at isHandle
  exact (Option.some.inj isHandle).symm

namespace Legible

variable {argument : Argument}

theorem isName_result (legible : function.Legible)
    (isName : function.valueNames.get? handle = some name) : Text.isName name = true := by
  apply legible.names
  exact List.mem_append_right _
    (List.mem_map.2 ⟨(handle, name), IndexMap.get?_eq_some_iff.1 isName, rfl⟩)

theorem isName_argument (legible : function.Legible)
    (member : argument ∈ function.arguments) : Text.isName argument.name = true := by
  apply legible.names
  exact List.mem_append_left _ (List.mem_map_of_mem member)

/-- Results are printed under legal names, also if they have none of their own. -/
theorem isName_resultName (legible : function.Legible) (handle : InstId) :
    Text.isName (function.resultName handle) = true := by
  unfold resultName
  cases isName : function.valueNames.get? handle with
  | none => exact Text.isName_toString handle
  | some name => exact legible.isName_result isName

theorem exists_stored (legible : function.Legible) (member : handle ∈ function.allPlaced) :
    ∃ instruction, function.instructions.get? handle = some instruction :=
  Option.isSome_iff_exists.1 (Table.get?_isSome_iff.2 (legible.stored member))

theorem exists_label_of_mem (legible : function.Legible) {body : Block}
    (member : body ∈ function.blocks.entries) :
    ∃ label, body.label = some label ∧ isLabel label = true :=
  (Option.any_eq_true _ _).1 (legible.labels body member)

theorem exists_label (legible : function.Legible) {block : BlockId}
    (present : block < function.blocks.size) : ∃ body label,
      function.blocks.get? block = some body ∧ body.label = some label ∧ isLabel label = true := by
  obtain ⟨body, isBody⟩ := Option.isSome_iff_exists.1 (Table.get?_isSome_iff.2 present)
  obtain ⟨label, labelled, legal⟩ := legible.exists_label_of_mem (List.mem_of_getElem? isBody)
  exact ⟨body, label, isBody, labelled, legal⟩

end Legible

namespace Printable

theorem distinct_arguments (printable : function.Printable) :
    (function.arguments.map Argument.name).Nodup :=
  (List.nodup_append.1 printable.distinct).1

theorem distinct_results (printable : function.Printable) :
    (function.valueNames.entries.map Prod.snd).Nodup :=
  (List.nodup_append.1 printable.distinct).2.1

/-- Results of the same name are the same. -/
theorem result_unique (printable : function.Printable)
    (isName : function.valueNames.get? handle = some name)
    (isOtherName : function.valueNames.get? other = some name) : handle = other := by
  have same := List.inj_on_of_nodup_map printable.distinct_results
    (IndexMap.get?_eq_some_iff.1 isName) (IndexMap.get?_eq_some_iff.1 isOtherName) rfl
  exact congrArg Prod.fst same

/-- No result has the name of an argument. -/
theorem name_ne_argument (printable : function.Printable)
    (isName : function.valueNames.get? handle = some name) {argument : Argument}
    (member : argument ∈ function.arguments) : argument.name ≠ name := by
  apply (List.nodup_append.1 printable.distinct).2.2
  · exact List.mem_map_of_mem member
  · exact List.mem_map.2 ⟨(handle, name), IndexMap.get?_eq_some_iff.1 isName, rfl⟩

theorem findIdx?_argument_eq_none (printable : function.Printable)
    (isName : function.valueNames.get? handle = some name) :
    function.arguments.findIdx? (fun argument => argument.name == name) = none := by
  rw [List.findIdx?_eq_none_iff]
  intro argument isArgument
  exact beq_eq_false_iff_ne.2 (printable.name_ne_argument isName isArgument)

/-- Placed handles with a result have a name, and no others. -/
theorem named_iff (printable : function.Printable) :
    (function.valueNames.get? handle).isSome = true ↔
      handle ∈ function.allPlaced ∧ function.hasResult handle = true := by
  constructor
  · intro named
    obtain ⟨name, isName⟩ := Option.isSome_iff_exists.1 named
    exact printable.defined _ (IndexMap.get?_eq_some_iff.1 isName)
  · rintro ⟨member, hasResult⟩
    exact printable.named handle member hasResult

/-- The names of the renumbered function, by place. -/
theorem get?_renumbered_valueNames (printable : function.Printable) (place : Nat) :
    function.renumbered.valueNames.get? place =
      function.allPlaced[place]?.bind function.valueNames.get? := by
  have placed {entry : Nat × String} (member : entry ∈ function.valueNames.entries) :
      entry.1 ∈ function.allPlaced := (printable.defined entry member).1
  have distinct : ((function.valueNames.entries.map fun entry =>
      (function.placeOf entry.1, entry.2)).map Prod.fst).Nodup := by
    rw [List.map_map]
    refine List.Nodup.map_on ?_ (List.Nodup.of_map Prod.fst function.valueNames.nodup_fst)
    intro entry member other otherMember same
    have sameHandle := placeOf_injective (placed member) (placed otherMember) same
    exact List.inj_on_of_nodup_map function.valueNames.nodup_fst member otherMember sameHandle
  apply Option.ext
  intro name
  refine (IndexMap.get?_ofPairs distinct).trans ?_
  rw [List.mem_map, Option.bind_eq_some_iff]
  constructor
  · rintro ⟨entry, member, same⟩
    cases same
    exact ⟨entry.1, getElem?_placeOf (placed member), IndexMap.get?_eq_some_iff.2 member⟩
  · rintro ⟨handle, isHandle, isName⟩
    refine ⟨(handle, name), IndexMap.get?_eq_some_iff.1 isName, ?_⟩
    rw [printable.wellPlaced.placeOf_eq isHandle]

end Printable

end Function

namespace Program

theorem get?_renumberedFacts (program : Program) (handle : FuncId) :
    program.renumberedFacts.get? handle = (program.facts.get? handle).bind fun facts =>
      (program.module.functions.get? handle).map fun function =>
        facts.renumber function.placeOf := by
  have distinct : ((program.facts.entries.filterMap fun entry =>
      (program.module.functions.get? entry.1).map fun function =>
        (entry.1, entry.2.renumber function.placeOf)).map Prod.fst).Nodup := by
    refine List.Nodup.sublist ?_ program.facts.nodup_fst
    rw [List.map_filterMap]
    induction program.facts.entries with
    | nil => exact List.nil_sublist _
    | cons entry entries inductionHypothesis =>
        rw [List.map_cons, List.filterMap_cons]
        cases program.module.functions.get? entry.1 with
        | none => exact inductionHypothesis.cons _
        | some function => exact inductionHypothesis.cons_cons _
  apply Option.ext
  intro renumbered
  refine (IndexMap.get?_ofPairs distinct).trans ?_
  rw [List.mem_filterMap, Option.bind_eq_some_iff]
  constructor
  · rintro ⟨entry, member, found⟩
    obtain ⟨function, isFunction, same⟩ := Option.map_eq_some_iff.1 found
    cases same
    refine ⟨entry.2, IndexMap.get?_eq_some_iff.2 member, ?_⟩
    rw [isFunction]
    rfl
  · rintro ⟨facts, isFacts, found⟩
    obtain ⟨function, isFunction, rfl⟩ := Option.map_eq_some_iff.1 found
    refine ⟨(handle, facts), IndexMap.get?_eq_some_iff.1 isFacts, ?_⟩
    rw [isFunction]
    rfl

end Program

end Workgroup

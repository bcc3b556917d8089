import Mathlib.Data.List.Forall2
import Mathlib.Data.List.Range
import Workgroup.Proofs.Function.Growth
import Workgroup.Text.Parser

/-!
Contract: a program that has been read places every instruction once, in order.

While a body is outlined, each instruction goes to the end of the block that
was opened last, so the placed handles, block by block, are the handles of the
storage in ascending order, and names are given to handles that have just been
stored.  Completing the outline replaces place holders and moves nothing.

Owns:
- results of computations that can fail, step by step;
- the invariant of an outline and of an assembly;
- functions that are read are well placed and bounded.
-/

namespace Workgroup

section Results

variable {α β ε : Type}

theorem bind_eq_ok_iff {first : Except ε α} {next : α → Except ε β} {result : β} :
    first >>= next = .ok result ↔ ∃ value, first = .ok value ∧ next value = .ok result := by
  cases first with
  | error failure => exact ⟨fun same => absurd same nofun, fun ⟨_, same, _⟩ => absurd same nofun⟩
  | ok value =>
      refine ⟨fun same => ⟨value, rfl, same⟩, fun ⟨other, same, rest⟩ => ?_⟩
      cases same
      exact rest

theorem eq_ok_of_toOption {result : Except ε α} {value : α}
    (found : result.toOption = some value) : result = .ok value := by
  cases result with
  | error failure => exact absurd found nofun
  | ok other =>
      cases found
      rfl

/-- What every step keeps holds at the end of a run. -/
theorem foldlM_invariant {step : β → α → Except ε β} (keeps : β → Prop) {items : List α}
    {start stop : β}
    (stepKeeps : ∀ {state item next}, item ∈ items → keeps state → step state item = .ok next →
      keeps next)
    (holds : keeps start) (finished : items.foldlM step start = .ok stop) : keeps stop := by
  induction items generalizing start with
  | nil =>
      cases finished
      exact holds
  | cons item items inductionHypothesis =>
      rw [List.foldlM_cons] at finished
      obtain ⟨next, stepped, rest⟩ := bind_eq_ok_iff.1 finished
      exact inductionHypothesis (fun member => stepKeeps (List.mem_cons_of_mem item member))
        (stepKeeps List.mem_cons_self holds stepped) rest

/-- The results of a list are those of its items, one by one. -/
theorem forall₂_of_mapM_eq_ok {change : α → Except ε β} {items : List α} {results : List β}
    (finished : items.mapM change = .ok results) :
    List.Forall₂ (fun item result => change item = .ok result) items results := by
  induction items generalizing results with
  | nil =>
      rw [List.mapM_nil] at finished
      cases finished
      exact .nil
  | cons item items inductionHypothesis =>
      rw [List.mapM_cons] at finished
      obtain ⟨first, isFirst, rest⟩ := bind_eq_ok_iff.1 finished
      obtain ⟨others, read, same⟩ := bind_eq_ok_iff.1 rest
      cases same
      exact .cons isFirst (inductionHypothesis read)

end Results

namespace Text.Reader

variable {α β : Type} {reader : Reader α} {next : α → Reader β} {tokens rest : List Token}
  {value : β}

theorem exists_of_bind_eq_ok (read : (reader >>= next) tokens = .ok (value, rest)) :
    ∃ middle between, reader tokens = .ok (middle, between) ∧
      next middle between = .ok (value, rest) := by
  obtain ⟨⟨middle, between⟩, first, second⟩ := bind_eq_ok_iff.1 read
  exact ⟨middle, between, first, second⟩

theorem readLine_eq_ok_iff {line : Line} {result : α} :
    readLine reader line = .ok result ↔ ∃ rest, reader line.tokens = .ok (result, rest) := by
  unfold readLine
  cases reader line.tokens with
  | error defect => simp
  | ok answer => simp [Prod.ext_iff]

/-- A signature declares a function without blocks, instructions and names. -/
theorem signature_eq_ok {function : Function} {closed : Bool}
    (read : signature tokens = .ok ((function, closed), rest)) :
    ∃ name kind arguments,
      function = { Function.declare name kind with arguments := arguments } := by
  unfold signature at read
  obtain ⟨kind, _, -, read⟩ := exists_of_bind_eq_ok read
  obtain ⟨name, _, -, read⟩ := exists_of_bind_eq_ok read
  obtain ⟨_, _, -, read⟩ := exists_of_bind_eq_ok read
  obtain ⟨arguments, _, -, read⟩ := exists_of_bind_eq_ok read
  obtain ⟨_, _, -, read⟩ := exists_of_bind_eq_ok read
  obtain ⟨_, _, -, read⟩ := exists_of_bind_eq_ok read
  obtain ⟨_, _, -, read⟩ := exists_of_bind_eq_ok read
  cases read
  exact ⟨name, kind, arguments, rfl⟩

end Text.Reader

namespace Function

/-- The placed handles, block by block, are the handles of the storage. -/
def Ordered (function : Function) : Prop :=
  function.allPlaced = List.range function.instructions.size

theorem Ordered.wellPlaced {function : Function} (ordered : function.Ordered) :
    function.WellPlaced where
  stored := by
    intro handle member
    rw [ordered] at member
    exact List.mem_range.1 member
  nodup := by
    rw [ordered]
    exact List.nodup_range

end Function

namespace Outline

variable {outline next : Outline} {line : Text.Line}

/-- The invariant of an outline: handles are placed in ascending order, the
current block is the last one, there is one line per place, and only stored
instructions have names. -/
structure Ordered (outline : Outline) : Prop where
  ordered : outline.function.Ordered
  last : ∀ {block}, outline.current = some block → outline.function.blocks.size = block + 1
  length : outline.instructionLines.length = outline.function.instructions.size
  named : ∀ entry ∈ outline.function.valueNames.entries,
    entry.1 < outline.function.instructions.size

theorem ordered_start {function : Function} (noBlocks : function.blocks = .empty)
    (noInstructions : function.instructions = .empty) (noNames : function.valueNames = .empty) :
    (start function).Ordered where
  ordered := by
    unfold Function.Ordered Function.allPlaced start
    rw [noBlocks, noInstructions]
    rfl
  last := fun isCurrent => absurd isCurrent nofun
  length := by
    unfold start
    rw [noInstructions]
    rfl
  named := by
    unfold start
    rw [noNames]
    exact fun entry member => absurd member List.not_mem_nil

theorem Ordered.addLabel {number : Nat} {label : String} (ordered : outline.Ordered)
    (added : outline.addLabel number label = .ok next) : next.Ordered := by
  unfold Outline.addLabel at added
  split at added
  · exact absurd added nofun
  · cases added
    refine ⟨?_, fun isCurrent => ?_, ordered.length, ordered.named⟩
    · have same : (outline.function.addBlock (some label)).allPlaced =
          outline.function.allPlaced := by
        unfold Function.allPlaced Function.addBlock Table.append
        rw [List.flatMap_append]
        exact List.append_nil _
      exact same.trans ordered.ordered
    · cases isCurrent
      exact Table.size_append _ _

theorem modify_append_cons {α : Type} (change : α → α) (front : List α) (body : α) :
    (front ++ [body]).modify front.length change = front ++ [change body] := by
  induction front with
  | nil => rfl
  | cons head front inductionHypothesis =>
      rw [List.cons_append, List.length_cons, List.modify_succ_cons, inductionHypothesis]
      rfl

/-- An instruction at the end of the last block comes after all others. -/
theorem allPlaced_append {function : Function} {block : BlockId} {instruction : Instruction}
    (last : function.blocks.size = block + 1) :
    (function.append block instruction).allPlaced =
      function.allPlaced ++ [function.instructions.size] := by
  unfold Function.allPlaced Function.append Function.place Table.modify
  unfold Table.size at last
  dsimp only
  obtain ⟨front, body, listed⟩ := (List.eq_nil_or_concat function.blocks.entries).resolve_left
    (List.ne_nil_of_length_eq_add_one last)
  rw [listed, List.concat_eq_append, List.length_append, List.length_singleton] at last
  have sameBlock : block = front.length := (Nat.succ.inj last).symm
  rw [listed, List.concat_eq_append, sameBlock, modify_append_cons, List.flatMap_append,
    List.flatMap_append]
  simp

theorem Ordered.addInstruction (ordered : outline.Ordered)
    (added : outline.addInstruction line = .ok next) : next.Ordered := by
  unfold Outline.addInstruction at added
  split at added
  · exact absurd added nofun
  · next block isCurrent =>
    have last := ordered.last isCurrent
    have placed : (outline.function.append block .unreachable).Ordered := by
      unfold Function.Ordered
      rw [allPlaced_append last, ordered.ordered]
      show _ = List.range (outline.function.instructions.append .unreachable).size
      rw [Table.size_append, List.range_succ]
    have lengthEq : (outline.instructionLines ++ [line]).length =
        (outline.function.instructions.append .unreachable).size := by
      rw [Table.size_append, List.length_append, ordered.length]
      rfl
    have lastStill : (outline.function.append block .unreachable).blocks.size = block + 1 :=
      (Table.size_modify _ _ _).trans last
    have namedStill : ∀ entry ∈ outline.function.valueNames.entries,
        entry.1 < (outline.function.instructions.append .unreachable).size := by
      intro entry member
      rw [Table.size_append]
      exact Nat.lt_succ_of_lt (ordered.named entry member)
    dsimp only at added
    split at added
    · cases added
      refine ⟨placed, fun {other} same => ?_, lengthEq, namedStill⟩
      cases isCurrent.symm.trans same
      exact lastStill
    · split at added
      · exact absurd added nofun
      · cases added
        refine ⟨placed, fun {other} same => ?_, lengthEq, fun entry member => ?_⟩
        · cases isCurrent.symm.trans same
          exact lastStill
        · rcases IndexMap.fst_mem_of_mem_insertAscending member with new | old
          · rw [new]
            exact (Table.size_append _ _).symm ▸ Nat.lt_succ_self _
          · exact namedStill entry old

theorem Ordered.add (ordered : outline.Ordered) (added : outline.add line = .ok next) :
    next.Ordered := by
  unfold Outline.add at added
  split at added
  · exact ordered.addLabel added
  · split at added
    · cases added
      exact ⟨ordered.ordered, ordered.last, ordered.length, ordered.named⟩
    · exact ordered.addInstruction added
  · exact ordered.addInstruction added

/-- A completed outline is its function with the instructions that stand in the lines. -/
theorem complete_eq_ok {function : Function} {facts : Facts}
    (completed : outline.complete = .ok (function, facts)) :
    ∃ instructions lists,
      outline.instructionLines.mapM
        (Text.Reader.readLine (Text.Reader.instruction outline.function)) = .ok instructions ∧
      outline.factLines.mapM (Text.Reader.readLine (Text.Reader.factLine outline.function)) =
        .ok lists ∧
      function = { outline.function with instructions := ⟨instructions⟩ } ∧
      facts = lists.flatten.foldl Facts.mark .empty := by
  obtain ⟨instructions, readInstructions, completed⟩ := bind_eq_ok_iff.1 completed
  obtain ⟨lists, readFacts, completed⟩ := bind_eq_ok_iff.1 completed
  cases completed
  exact ⟨instructions, lists, readInstructions, readFacts, rfl, rfl⟩

theorem Ordered.complete {function : Function} {facts : Facts} (ordered : outline.Ordered)
    (completed : outline.complete = .ok (function, facts)) :
    function.Ordered ∧ function.Bounded := by
  obtain ⟨instructions, -, read, -, rfl, -⟩ := complete_eq_ok completed
  have sameSize : instructions.length = outline.function.instructions.size :=
    (forall₂_of_mapM_eq_ok read).length_eq.symm.trans ordered.length
  have functionOrdered : Function.Ordered
      { outline.function with instructions := ⟨instructions⟩ } := by
    unfold Function.Ordered
    show outline.function.allPlaced = List.range instructions.length
    rw [sameSize]
    exact ordered.ordered
  refine ⟨functionOrdered, fun handle => functionOrdered.wellPlaced.stored, fun entry member => ?_⟩
  show entry.1 < instructions.length
  rw [sameSize]
  exact ordered.named entry member

end Outline

namespace Assembly

/-- The functions read so far are well placed and bounded, and the open one has
no body yet. -/
structure WellPlaced (assembly : Assembly) : Prop where
  functions : ∀ function ∈ assembly.program.module.functions.entries,
    function.WellPlaced ∧ function.Bounded
  signature : ∀ {function body}, assembly.unfinished = some (function, body) →
    function.blocks = .empty ∧ function.instructions = .empty ∧ function.valueNames = .empty

variable {assembly next : Assembly} {line : Text.Line}

theorem WellPlaced.addFunction (wellPlaced : assembly.WellPlaced) {function : Function}
    (functionPlaced : function.WellPlaced) (bounded : function.Bounded) (facts : Facts) :
    (assembly.addFunction function facts).WellPlaced where
  functions := by
    intro other member
    rcases List.mem_append.1 member with old | new
    · exact wellPlaced.functions other old
    · rw [List.mem_singleton.1 new]
      exact ⟨functionPlaced, bounded⟩
  signature := fun isUnfinished => absurd isUnfinished nofun

/-- What a line leads to that can be read as a signature. -/
theorem addSignature_of_read {function : Function} {closes : Bool}
    (read : Text.Reader.readLine Text.Reader.signature line = .ok (function, closes)) :
    assembly.addSignature line =
      if (assembly.program.module.functionNamed? function.name).isSome then
        .error (.onLine line.number (.duplicateFunction function.name))
      else .ok (if closes then assembly.addFunction function .empty
        else { assembly with unfinished := some (function, []) }) := by
  unfold Assembly.addSignature
  rw [read]
  show (if (assembly.program.module.functionNamed? function.name).isSome = true then _ else _) = _
  split
  · rfl
  · cases closes <;> rfl

/-- A signature that is taken up can be read and has a new name. -/
theorem addSignature_cases (added : assembly.addSignature line = .ok next) :
    ∃ function closes,
      Text.Reader.readLine Text.Reader.signature line = .ok (function, closes) ∧
      assembly.program.module.functionNamed? function.name = none ∧
      next = if closes then assembly.addFunction function .empty
        else { assembly with unfinished := some (function, []) } := by
  cases read : Text.Reader.readLine Text.Reader.signature line with
  | error failure =>
      unfold Assembly.addSignature at added
      rw [read] at added
      cases added
  | ok answer =>
      rw [addSignature_of_read read] at added
      split at added
      · cases added
      · next unknown =>
        cases added
        exact ⟨answer.1, answer.2, rfl, Option.not_isSome_iff_eq_none.1 unknown, rfl⟩

theorem finish_eq_ok_iff {program : Program} :
    assembly.finish = .ok program ↔ assembly.unfinished = none ∧ assembly.program = program := by
  unfold finish
  cases assembly.unfinished with
  | none => simp
  | some pending => simp

theorem WellPlaced.addSignature (wellPlaced : assembly.WellPlaced)
    (added : assembly.addSignature line = .ok next) : next.WellPlaced := by
  obtain ⟨function, closes, read, -, rfl⟩ := addSignature_cases added
  obtain ⟨rest, signature⟩ := Text.Reader.readLine_eq_ok_iff.1 read
  obtain ⟨name, kind, arguments, rfl⟩ := Text.Reader.signature_eq_ok signature
  cases closes with
  | true =>
      refine wellPlaced.addFunction (Function.Ordered.wellPlaced ?_) ⟨?_, ?_⟩ _
      · rfl
      · exact fun handle member => absurd member List.not_mem_nil
      · exact fun entry member => absurd member List.not_mem_nil
  | false =>
      refine ⟨wellPlaced.functions, fun isUnfinished => ?_⟩
      cases isUnfinished
      exact ⟨rfl, rfl, rfl⟩

theorem WellPlaced.add (wellPlaced : assembly.WellPlaced) (added : assembly.add line = .ok next) :
    next.WellPlaced := by
  unfold Assembly.add at added
  split at added
  · exact wellPlaced.addSignature added
  · next signature body isUnfinished =>
    obtain ⟨noBlocks, noInstructions, noNames⟩ := wellPlaced.signature isUnfinished
    split at added
    · obtain ⟨⟨function, facts⟩, read, added⟩ := bind_eq_ok_iff.1 added
      cases added
      obtain ⟨outline, outlined, completed⟩ := bind_eq_ok_iff.1 read
      have ordered := foldlM_invariant Outline.Ordered (fun _ => Outline.Ordered.add)
        (Outline.ordered_start noBlocks noInstructions noNames) outlined
      obtain ⟨functionOrdered, bounded⟩ := ordered.complete completed
      exact wellPlaced.addFunction functionOrdered.wellPlaced bounded facts
    · cases added
      refine ⟨wellPlaced.functions, fun same => ?_⟩
      cases same
      exact ⟨noBlocks, noInstructions, noNames⟩

end Assembly

namespace Program

variable {source : String} {program : Program}

/-- What the assembly keeps holds of the program at its end. -/
theorem functions_of_parse (parsed : Program.parse source = .ok program) :
    ∀ function ∈ program.module.functions.entries, function.WellPlaced ∧ function.Bounded := by
  obtain ⟨lines, -, read⟩ := bind_eq_ok_iff.1 parsed
  obtain ⟨assembly, assembled, finished⟩ := bind_eq_ok_iff.1 read
  have start : Assembly.start.WellPlaced :=
    ⟨fun function member => absurd member List.not_mem_nil, fun same => absurd same nofun⟩
  have wellPlaced := foldlM_invariant Assembly.WellPlaced (fun _ => Assembly.WellPlaced.add) start
    assembled
  obtain ⟨-, rfl⟩ := Assembly.finish_eq_ok_iff.1 finished
  exact wellPlaced.functions

/-- The functions of a program that has been read are well placed. -/
theorem wellPlaced_of_parse (parsed : Program.parse source = .ok program) :
    ∀ function ∈ program.module.functions.entries, function.WellPlaced :=
  fun function member => (functions_of_parse parsed function member).1

end Program

end Workgroup

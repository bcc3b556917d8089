import Workgroup.Proofs.Function.Growth

/-!
Contract: cutting the storage back undoes any history of additions.

An addition is a call that stores one more instruction: an insertion at a place,
which may be refused, or an append to a block, with or without a name for the
result.  Functions are edited in place, so what a refused call leaves behind
depends on the order of its edits.  Seen through a cut at the old size of the
storage no addition changes anything, and a function whose handles all lie in
the storage is its own cut.

Owns:
- insertion as a sequence of edits in place;
- additions, what one of them does, and histories of them;
- what a cut sees, and what is left of a history behind it.
-/

namespace Workgroup

/-- An entry outside a restriction is not missed by it. -/
theorem IndexMap.filterKeys_insert {α : Type} (table : IndexMap α) {keep : Nat → Bool}
    {handle : Nat} (dropped : keep handle = false) (value : α) :
    (table.insert handle value).filterKeys keep = table.filterKeys keep := by
  apply IndexMap.ext
  intro other
  rw [get?_filterKeys, get?_filterKeys, get?_insert]
  by_cases same : other = handle
  · subst same
    rw [dropped]
    rfl
  · rw [if_neg same]

/-- A change of one entry depends on what it makes of this entry. -/
theorem Table.modify_congr {α : Type} {table : Table α} {handle : Nat} {change other : α → α}
    (same : ∀ entry, table.get? handle = some entry → change entry = other entry) :
    table.modify handle change = table.modify handle other := by
  apply Table.ext
  apply List.ext_getElem?
  intro position
  unfold modify
  rw [List.getElem?_modify, List.getElem?_modify]
  split
  · next isHandle =>
    subst isHandle
    cases isEntry : table.entries[handle]? with
    | none => rfl
    | some entry => exact congrArg some (same entry isEntry)
  · rfl

/-- A place that an instruction can be inserted at. -/
def InsertPoint.LiesIn (function : Function) : InsertPoint → Prop
  | .before block handle => handle ∈ function.placed block
  | .atEnd block => block < function.blocks.size

namespace Function

variable {function before middle after : Function} {block : BlockId} {handle : InstId}
  {index length : Nat} {point : InsertPoint} {instruction : Instruction}

/-! ## Edits in place -/

/-- Inserts an instruction edit by edit: the place is looked up, the instruction
is stored, and its handle is put into the block.  A failure leaves the function
as the edits up to then have made it. -/
def insertInPlace (point : InsertPoint) (instruction : Instruction) :
    ExceptT Fault (StateM Function) InstId := do
  let function ← get
  let index ← ExceptT.mk (pure (function.position point))
  let handle := function.instructions.size
  modify fun function =>
    { function with instructions := function.instructions.append instruction }
  modify fun function =>
    { function with
      blocks := function.blocks.modify point.block fun body =>
        { body with instructions := body.instructions.insertIdx index handle } }
  return handle

/-- The place is looked up before the first edit, so a refused insertion leaves
the function as it was. -/
theorem insertInPlace_eq (point : InsertPoint) (instruction : Instruction) (function : Function) :
    (insertInPlace point instruction).run.run function =
      match function.insert point instruction with
      | .error fault => (.error fault, function)
      | .ok (after, handle) => (.ok handle, after) := by
  unfold insert
  show ExceptT.bindCont (m := StateM Function) _ (function.position point) function = _
  cases function.position point with
  | error fault => rfl
  | ok index => rfl

/-- An insertion is granted exactly if its place lies in the function. -/
theorem exists_position_iff :
    (∃ index, function.position point = .ok index) ↔ point.LiesIn function := by
  cases point with
  | atEnd block =>
      constructor
      · rintro ⟨index, found⟩
        exact (inside_of_position found).1
      · exact fun present => ⟨_, position_atEnd present⟩
  | before block handle =>
      constructor
      · rintro ⟨index, found⟩
        show handle ∈ function.placed block
        unfold position at found
        unfold placed
        simp only [InsertPoint.block] at found
        cases isBody : function.blocks.get? block with
        | none =>
            rw [isBody] at found
            cases found
        | some body =>
            simp only [isBody] at found
            split at found
            · next place isPlace =>
              obtain ⟨inside, same, -⟩ := List.findIdx?_eq_some_iff_getElem.1 isPlace
              exact eq_of_beq same ▸ List.getElem_mem inside
            · cases found
      · intro member
        obtain ⟨front, back, listed, fresh⟩ := List.eq_append_cons_of_mem member
        exact ⟨front.length, position_before listed fresh⟩

/-- Records the name of a result, if it is given one. -/
def recordName (function : Function) (handle : InstId) (name : Option String) : Function :=
  match name with
  | none => function
  | some name => function.nameResult handle name

@[simp] theorem instructions_recordName (function : Function) (handle : InstId)
    (name : Option String) :
    (function.recordName handle name).instructions = function.instructions := by
  cases name <;> rfl

@[simp] theorem blocks_recordName (function : Function) (handle : InstId) (name : Option String) :
    (function.recordName handle name).blocks = function.blocks := by
  cases name <;> rfl

/-- An append is an insertion behind the last instruction. -/
theorem append_eq_insertAt (function : Function) (block : BlockId) (instruction : Instruction) :
    function.append block instruction =
      function.insertAt block (function.placed block).length instruction := by
  have sameBlocks : (function.append block instruction).blocks =
      (function.insertAt block (function.placed block).length instruction).blocks := by
    apply Table.modify_congr
    intro body isBody
    have atEnd := insertIdx_append body.instructions [] function.instructions.size
    rw [List.append_nil] at atEnd
    show Block.mk _ (body.instructions ++ [function.instructions.size]) = Block.mk _ _
    rw [← atEnd]
    unfold placed
    rw [isBody]
    rfl
  exact congrArg (fun blocks => { function with
    blocks := blocks
    instructions := function.instructions.append instruction }) sameBlocks

/-! ## What a cut sees -/

/-- An insertion behind the cut is cut away. -/
theorem truncate_insertAt (below : length ≤ function.instructions.size) :
    (function.insertAt block index instruction).truncateInstructions length =
      function.truncateInstructions length := by
  calc (function.insertAt block index instruction).truncateInstructions length
      = { (function.insertAt block index instruction).withdraw length with
          valueNames := function.valueNames.filterKeys (· < length) } := rfl
    _ = function.truncateInstructions length := by
      rw [withdraw_insertAt below]
      rfl

/-- A name behind the cut is cut away. -/
theorem truncate_recordName (below : length ≤ handle) (name : Option String) :
    (function.recordName handle name).truncateInstructions length =
      function.truncateInstructions length := by
  cases name with
  | none => rfl
  | some name =>
      have dropped : decide (handle < length) = false := decide_eq_false (Nat.not_lt.2 below)
      unfold recordName nameResult truncateInstructions
      dsimp only
      rw [IndexMap.filterKeys_insert function.valueNames dropped]

theorem get?_truncate (below : handle < length) :
    (function.truncateInstructions length).instructions.get? handle =
      function.instructions.get? handle :=
  List.getElem?_take_of_lt below

theorem placed_truncate (function : Function) (length : Nat) (block : BlockId) :
    (function.truncateInstructions length).placed block =
      (function.placed block).filter (· < length) := by
  unfold truncateInstructions placed
  rw [Table.get?_map]
  cases function.blocks.get? block <;> rfl

end Function

/-! ## Histories -/

/-- A call that asks for one more instruction. -/
inductive Addition where
  /-- At a place, which is refused unless it lies in the function. -/
  | insert (point : InsertPoint) (instruction : Instruction)
  /-- Behind the last instruction of a block, under a name if one is given. -/
  | append (block : BlockId) (name : Option String) (instruction : Instruction)
deriving DecidableEq, Repr

namespace Addition

/-- Makes a call: its answer and the function that it leaves.  Nothing comes of
an append to a missing block. -/
def perform (function : Function) : Addition → Option (Except Fault InstId × Function)
  | .insert point instruction => some ((Function.insertInPlace point instruction).run.run function)
  | .append block name instruction =>
      (function.append? block instruction name).map fun after =>
        (.ok function.instructions.size, after)

/-- Whether a call that appends names a block of the function. -/
def IsAddressed (function : Function) : Addition → Prop
  | .insert _ _ => True
  | .append block _ _ => block < function.blocks.size

/-- Whether the call is refused. -/
def IsRefused (function : Function) : Addition → Prop
  | .insert point _ => ¬ point.LiesIn function
  | .append _ _ _ => False

/-- The block that gains a handle. -/
def block : Addition → BlockId
  | .insert point _ => point.block
  | .append block _ _ => block

def instruction : Addition → Instruction
  | .insert _ instruction => instruction
  | .append _ _ instruction => instruction

/-- The name that is recorded for the result. -/
def name : Addition → Option String
  | .insert _ _ => none
  | .append _ name _ => name

/-- A call that is granted: the instruction is stored under the next handle, which
is put into the block and gets the name, if there is one. -/
structure Adds (call : Addition) (before : Function) (handle : InstId) (after : Function) :
    Prop where
  handle_eq : handle = before.instructions.size
  present : call.block < before.blocks.size
  inserts : ∃ index ≤ (before.placed call.block).length,
    after = (before.insertAt call.block index call.instruction).recordName handle call.name

variable {call : Addition} {function before after : Function} {handle : InstId} {length : Nat}

/-- A call is refused and changes nothing, or it is granted. -/
theorem perform_cases (addressed : call.IsAddressed function) :
    (call.IsRefused function ∧ ∃ fault, call.perform function = some (.error fault, function)) ∨
      ¬ call.IsRefused function ∧ ∃ handle after,
        call.perform function = some (.ok handle, after) ∧ call.Adds function handle after := by
  cases call with
  | insert point instruction =>
      have answered : (Addition.insert point instruction).perform function =
          some (match function.insert point instruction with
            | .error fault => (.error fault, function)
            | .ok (after, handle) => (.ok handle, after)) :=
        congrArg some (Function.insertInPlace_eq point instruction function)
      unfold Function.insert at answered
      cases found : function.position point with
      | error fault =>
          rw [found] at answered
          refine .inl ⟨fun lies => ?_, fault, answered⟩
          obtain ⟨index, isPosition⟩ := Function.exists_position_iff.2 lies
          exact absurd (found.symm.trans isPosition) nofun
      | ok index =>
          rw [found] at answered
          obtain ⟨present, inside⟩ := Function.inside_of_position found
          have lies := Function.exists_position_iff.1 ⟨index, found⟩
          exact .inr ⟨not_not_intro lies, _, _, answered, rfl, present, index, inside, rfl⟩
  | append block name instruction =>
      have contained : function.blocks.contains block = true := Table.contains_iff.2 addressed
      have atEnd := Function.append_eq_insertAt function block instruction
      have answered : (Addition.append block name instruction).perform function =
          some (.ok function.instructions.size,
            (function.append block instruction).recordName function.instructions.size name) := by
        unfold perform Function.append?
        dsimp only
        rw [if_pos contained]
        cases name <;> rfl
      rw [atEnd] at answered
      exact .inr ⟨id, _, _, answered, rfl, addressed, _, Nat.le_refl _, rfl⟩

/-- A cut in front of the new handle undoes a call that is granted. -/
theorem Adds.truncate_eq (adds : call.Adds before handle after)
    (below : length ≤ before.instructions.size) :
    after.truncateInstructions length = before.truncateInstructions length := by
  obtain ⟨index, -, rfl⟩ := adds.inserts
  rw [Function.truncate_recordName (adds.handle_eq ▸ below), Function.truncate_insertAt below]

end Addition

/-! ## Runs of additions -/

namespace Function

variable {function before middle after : Function} {call : Addition} {calls : List Addition}
  {handle : InstId} {length : Nat}

/-- The second function stores no less than the first, has as many blocks, and is
the same in front of a cut. -/
structure Extends (before : Function) (length : Nat) (after : Function) : Prop where
  size_le : before.instructions.size ≤ after.instructions.size
  blocks_eq : after.blocks.size = before.blocks.size
  truncate_eq : after.truncateInstructions length = before.truncateInstructions length

theorem Extends.refl (function : Function) (length : Nat) : function.Extends length function :=
  ⟨Nat.le_refl _, rfl, rfl⟩

theorem Extends.trans (first : before.Extends length middle)
    (second : middle.Extends length after) : before.Extends length after where
  size_le := first.size_le.trans second.size_le
  blocks_eq := second.blocks_eq.trans first.blocks_eq
  truncate_eq := second.truncate_eq.trans first.truncate_eq

theorem Extends.isAddressed (extended : before.Extends length after)
    (addressed : call.IsAddressed before) : call.IsAddressed after := by
  cases call with
  | insert => trivial
  | append block => exact Nat.lt_of_lt_of_eq addressed extended.blocks_eq.symm

theorem extends_of_adds (adds : call.Adds before handle after)
    (below : length ≤ before.instructions.size) : before.Extends length after := by
  refine ⟨?_, ?_, adds.truncate_eq below⟩
  · obtain ⟨index, -, rfl⟩ := adds.inserts
    rw [instructions_recordName]
    show before.instructions.size ≤ (before.instructions.append call.instruction).size
    rw [Table.size_append]
    exact Nat.le_succ _
  · obtain ⟨index, -, rfl⟩ := adds.inserts
    rw [blocks_recordName]
    exact Table.size_modify _ _ _

/-- Makes calls one after the other, whatever they answer. -/
def performAll (function : Function) (calls : List Addition) : Option Function :=
  calls.foldlM (fun function call => (call.perform function).map Prod.snd) function

/-- Calls on blocks of the function extend it. -/
theorem performAll_extends (addressed : ∀ call ∈ calls, call.IsAddressed function)
    (below : length ≤ function.instructions.size) :
    ∃ after, function.performAll calls = some after ∧ function.Extends length after := by
  induction calls generalizing function with
  | nil => exact ⟨function, rfl, .refl function length⟩
  | cons call calls inductionHypothesis =>
      obtain ⟨callAddressed, othersAddressed⟩ := List.forall_mem_cons.1 addressed
      have step : ∃ answer middle, call.perform function = some (answer, middle) ∧
          function.Extends length middle := by
        obtain ⟨-, fault, refused⟩ | ⟨-, handle, middle, granted, adds⟩ :=
          call.perform_cases callAddressed
        · exact ⟨_, function, refused, .refl function length⟩
        · exact ⟨_, middle, granted, extends_of_adds adds below⟩
      obtain ⟨answer, middle, made, extended⟩ := step
      obtain ⟨after, madeAll, extendedFurther⟩ := inductionHypothesis
        (fun other member => extended.isAddressed (othersAddressed other member))
        (below.trans extended.size_le)
      refine ⟨after, ?_, extended.trans extendedFurther⟩
      unfold performAll at madeAll ⊢
      rw [List.foldlM_cons, made]
      exact madeAll

/-- Old handles lead to the instructions they led to, and the old handles of every
block stand in the old order. -/
structure KeepsOld (before after : Function) : Prop where
  get?_eq : ∀ handle < before.instructions.size,
    after.instructions.get? handle = before.instructions.get? handle
  placed_eq : ∀ block,
    (after.placed block).filter (· < before.instructions.size) = before.placed block

theorem keepsOld_of_truncate_eq
    (restored : after.truncateInstructions before.instructions.size = before) :
    before.KeepsOld after where
  get?_eq := by
    intro handle below
    rw [← get?_truncate below, restored]
  placed_eq := by
    intro block
    rw [← placed_truncate, restored]

/-- After any history of additions, cutting the storage back restores the
function.  At every moment of the history the old handles and their order are
kept, and every call is granted or, if its place does not lie in the function,
refused without changing anything. -/
theorem truncate_undoes_history (bounded : function.Bounded)
    (addressed : ∀ call ∈ calls, call.IsAddressed function) :
    (∃ after, function.performAll calls = some after ∧
        after.truncateInstructions function.instructions.size = function) ∧
      (∀ front back, calls = front ++ back →
        ∃ middle, function.performAll front = some middle ∧ function.KeepsOld middle) ∧
      ∀ front call back, calls = front ++ call :: back →
        ∃ middle answer next, function.performAll front = some middle ∧
          call.perform middle = some (answer, next) ∧
          (call.IsRefused middle ∧ (∃ fault, answer = .error fault) ∧ next = middle ∨
            ¬ call.IsRefused middle ∧ ∃ handle, answer = .ok handle ∧
              call.Adds middle handle next) := by
  have self : function.truncateInstructions function.instructions.size = function :=
    Gains.nothing.truncate_eq bounded
  have moment {front back : List Addition} (split : calls = front ++ back) :
      ∃ middle, function.performAll front = some middle ∧
        function.Extends function.instructions.size middle :=
    performAll_extends
      (fun call member => addressed call (split ▸ List.mem_append_left back member))
      (Nat.le_refl _)
  refine ⟨?_, fun front back split => ?_, fun front call back split => ?_⟩
  · obtain ⟨after, made, extended⟩ := moment (List.append_nil calls).symm
    exact ⟨after, made, extended.truncate_eq.trans self⟩
  · obtain ⟨middle, made, extended⟩ := moment split
    exact ⟨middle, made, keepsOld_of_truncate_eq (extended.truncate_eq.trans self)⟩
  · obtain ⟨middle, made, extended⟩ := moment split
    have callAddressed : call.IsAddressed middle := extended.isAddressed
      (addressed call (split ▸ List.mem_append_right front List.mem_cons_self))
    obtain ⟨isRefused, fault, refused⟩ | ⟨notRefused, handle, next, granted, adds⟩ :=
      call.perform_cases callAddressed
    · exact ⟨middle, _, middle, made, refused, .inl ⟨isRefused, ⟨fault, rfl⟩, rfl⟩⟩
    · exact ⟨middle, _, next, made, granted, .inr ⟨notRefused, handle, rfl, adds⟩⟩

end Function

namespace MixedHistory

/-- One block with nothing but a return. -/
def kernel : Function :=
  { Function.declare "k" .kernel with
    blocks := ⟨[⟨some "entry", [0]⟩]⟩
    instructions := ⟨[.ret none]⟩ }

/-- A barrier in front of the return, another one in front of that, a request in
front of a handle that is placed nowhere, and a named query at the end. -/
def calls : List Addition :=
  [.insert (.before 0 0) .barrier, .insert (.before 0 1) .barrier, .insert (.before 0 9) .barrier,
    .append 0 (some "id") (.workItem .localId 0)]

theorem bounded : kernel.Bounded where
  placed := by decide
  named := by decide

theorem addressed : ∀ call ∈ calls, call.IsAddressed kernel := by
  intro call member
  simp only [calls, List.mem_cons, List.not_mem_nil, or_false] at member
  rcases member with rfl | rfl | rfl | rfl
  · trivial
  · trivial
  · trivial
  · exact Nat.zero_lt_one

/-- Three of the four calls are granted, and the cut undoes them. -/
theorem history_undone : kernel.Bounded ∧ (∀ call ∈ calls, call.IsAddressed kernel) ∧
    (kernel.performAll calls).map (fun after => after.placed 0) = some [2, 1, 0, 3] ∧
    ∃ after, kernel.performAll calls = some after ∧
      after.truncateInstructions kernel.instructions.size = kernel :=
  ⟨bounded, addressed, by decide, (Function.truncate_undoes_history bounded addressed).1⟩

end MixedHistory

end Workgroup

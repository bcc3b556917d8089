import Mathlib.Data.List.InsertIdx
import Mathlib.Data.List.Perm.Basic
import Mathlib.Data.List.Range
import Workgroup.Function.Edit
import Workgroup.Proofs.Function.Placed

/-!
Contract: functions that grow by insertions, and what takes them back.

An insertion appends to the storage and adds one handle to one block.  Handles
are never reused, so the handles from the old size of the storage on are the
inserted ones: dropping them from every block and from the storage restores the
function, whatever was inserted where and in which order.

Owns:
- positions of insertion points and what one insertion does to every block;
- series of insertions and what they keep;
- withdrawing what was inserted.
-/

namespace Workgroup

/-- A restriction that keeps every entry changes nothing. -/
theorem IndexMap.filterKeys_eq_self {α : Type} {table : IndexMap α} {keep : Nat → Bool}
    (all : ∀ entry ∈ table.entries, keep entry.1 = true) : table.filterKeys keep = table := by
  have sameEntries : table.entries.filter (fun entry => keep entry.1) = table.entries :=
    List.filter_eq_self.2 all
  cases table
  unfold filterKeys
  simp only [sameEntries]

/-- Takes the handles from some handle on out of a block. -/
def Block.withdraw (length : Nat) (body : Block) : Block :=
  { body with instructions := body.instructions.filter (· < length) }

namespace Function

variable {function before middle after : Function} {block other : BlockId} {handle : InstId}
  {front back : List InstId} {index length : Nat} {point : InsertPoint}
  {instruction : Instruction} {instructions more : List Instruction}

/-! ## One insertion -/

theorem insertIdx_append (front back : List InstId) (handle : InstId) :
    (front ++ back).insertIdx front.length handle = front ++ handle :: back := by
  induction front with
  | nil => exact List.insertIdx_zero
  | cons head tail inductionHypothesis =>
      rw [List.cons_append, List.length_cons, List.insertIdx_succ_cons, inductionHypothesis,
        List.cons_append]

theorem placed_insertAt (present : block < function.blocks.size) (instruction : Instruction) :
    (function.insertAt block index instruction).placed other =
      if block = other then (function.placed block).insertIdx index function.instructions.size
      else function.placed other := by
  unfold placed insertAt
  rw [Table.get?_modify]
  by_cases same : block = other
  · subst same
    obtain ⟨body, isBody⟩ := Option.isSome_iff_exists.1 (Table.get?_isSome_iff.2 present)
    rw [if_pos rfl, if_pos rfl, isBody]
    rfl
  · rw [if_neg same, if_neg same, Option.map_id]
    rfl

/-- A change that adds one handle to a block adds it to all placed handles. -/
theorem flatMap_modify_perm {bodies : List Block} {body : Block} {change : Block → Block}
    (isBody : bodies[index]? = some body)
    (adds : (change body).instructions.Perm (handle :: body.instructions)) :
    ((bodies.modify index change).flatMap Block.instructions).Perm
      (handle :: bodies.flatMap Block.instructions) := by
  induction bodies generalizing index with
  | nil => exact absurd isBody nofun
  | cons first rest inductionHypothesis =>
      cases index with
      | zero =>
          cases isBody
          rw [List.modify_zero_cons, List.flatMap_cons, List.flatMap_cons]
          exact adds.append_right _
      | succ index =>
          rw [List.modify_succ_cons, List.flatMap_cons, List.flatMap_cons]
          exact ((inductionHypothesis isBody).append_left _).trans List.perm_middle

theorem allPlaced_insertAt_perm (present : block < function.blocks.size)
    (inside : index ≤ (function.placed block).length) (instruction : Instruction) :
    (function.insertAt block index instruction).allPlaced.Perm
      (function.instructions.size :: function.allPlaced) := by
  obtain ⟨body, isBody⟩ := Option.isSome_iff_exists.1 (Table.get?_isSome_iff.2 present)
  refine flatMap_modify_perm isBody (List.perm_insertIdx _ _ ?_)
  unfold placed at inside
  rw [isBody] at inside
  exact inside

/-- Changes of a block that leave its label alone keep all labels. -/
theorem labels_modify (bodies : Table Block) (block : BlockId) {change : Block → Block}
    (keeps : ∀ body, (change body).label = body.label) :
    (bodies.modify block change).entries.map Block.label = bodies.entries.map Block.label := by
  refine List.ext_getElem? fun position => ?_
  unfold Table.modify
  rw [List.getElem?_map, List.getElem?_map, List.getElem?_modify]
  cases bodies.entries[position]? with
  | none => rfl
  | some body =>
      split
      · exact congrArg some (keeps body)
      · rfl

theorem labels_insertAt (instruction : Instruction) :
    (function.insertAt block index instruction).blocks.entries.map Block.label =
      function.blocks.entries.map Block.label :=
  labels_modify function.blocks block fun _ => rfl

theorem lt_size_of_placed (member : handle ∈ function.placed block) :
    block < function.blocks.size := by
  by_contra missing
  unfold placed at member
  rw [Table.get?_eq_none_iff.2 (Nat.not_lt.1 missing)] at member
  exact List.not_mem_nil member

/-- The place in front of a handle is behind the handles that come first. -/
theorem position_before (listed : function.placed block = front ++ handle :: back)
    (fresh : handle ∉ front) : function.position (.before block handle) = .ok front.length := by
  have present : block < function.blocks.size :=
    function.lt_size_of_placed (listed ▸ List.mem_append_right front List.mem_cons_self)
  obtain ⟨body, isBody⟩ := Option.isSome_iff_exists.1 (Table.get?_isSome_iff.2 present)
  have sameList : body.instructions = front ++ handle :: back := by
    unfold placed at listed
    rw [isBody] at listed
    exact listed
  have found : body.instructions.findIdx? (· == handle) = some front.length := by
    rw [sameList, List.findIdx?_append]
    have notInFront : front.findIdx? (· == handle) = none := by
      rw [List.findIdx?_eq_none_iff]
      intro other member
      rw [beq_eq_false_iff_ne]
      exact fun same => fresh (same ▸ member)
    rw [notInFront, List.findIdx?_cons, beq_self_eq_true]
    simp
  unfold position
  simp only [InsertPoint.block, isBody, found]

theorem position_atEnd (present : block < function.blocks.size) :
    function.position (.atEnd block) = .ok (function.placed block).length := by
  obtain ⟨body, isBody⟩ := Option.isSome_iff_exists.1 (Table.get?_isSome_iff.2 present)
  unfold position placed
  simp only [InsertPoint.block, isBody]
  rfl

theorem insert_eq_ok_iff :
    before.insert point instruction = .ok (after, handle) ↔
      ∃ index, before.position point = .ok index ∧
        after = before.insertAt point.block index instruction ∧
        handle = before.instructions.size := by
  unfold insert
  cases before.position point with
  | error fault => simp
  | ok index => simp [eq_comm]

/-- A place that is found lies inside its block. -/
theorem inside_of_position (found : function.position point = .ok index) :
    point.block < function.blocks.size ∧ index ≤ (function.placed point.block).length := by
  unfold position at found
  cases isBody : function.blocks.get? point.block with
  | none => simp [isBody] at found
  | some body =>
      have present : point.block < function.blocks.size :=
        Table.get?_isSome_iff.1 (by rw [isBody]; rfl)
      refine ⟨present, ?_⟩
      unfold placed
      rw [isBody]
      cases point with
      | atEnd block =>
          simp only [isBody, Except.ok.injEq] at found
          simp [← found]
      | before block handle =>
          simp only [isBody] at found
          split at found
          · next place isPlace =>
            simp only [Except.ok.injEq] at found
            obtain ⟨below, -⟩ := List.findIdx?_eq_some_iff_getElem.1 isPlace
            simp only [Option.map_some, Option.getD_some]
            omega
          · simp at found

/-! ## Series of insertions -/

/-- The second function is the first one after insertions of the listed
instructions, in this order and wherever they were put. -/
inductive Gains (before : Function) : List Instruction → Function → Prop where
  | nothing : before.Gains [] before
  | insert {instructions : List Instruction} {middle after : Function} {point : InsertPoint}
      {instruction : Instruction} {handle : InstId} :
      before.Gains instructions middle → middle.insert point instruction = .ok (after, handle) →
      before.Gains (instructions ++ [instruction]) after

namespace Gains

/-- One insertion. -/
theorem of_insert (inserted : before.insert point instruction = .ok (after, handle)) :
    before.Gains [instruction] after :=
  .insert .nothing inserted

theorem trans (first : before.Gains instructions middle) (second : middle.Gains more after) :
    before.Gains (instructions ++ more) after := by
  induction second with
  | nothing =>
      rw [List.append_nil]
      exact first
  | insert _ inserted inductionHypothesis =>
      rw [← List.append_assoc]
      exact inductionHypothesis.insert inserted

theorem instructions_eq (gains : before.Gains instructions after) :
    after.instructions.entries = before.instructions.entries ++ instructions := by
  induction gains with
  | nothing => simp
  | insert _ inserted inductionHypothesis =>
      obtain ⟨index, -, rfl, -⟩ := insert_eq_ok_iff.1 inserted
      rw [← List.append_assoc, ← inductionHypothesis]
      rfl

theorem size_eq (gains : before.Gains instructions after) :
    after.instructions.size = before.instructions.size + instructions.length := by
  unfold Table.size
  rw [gains.instructions_eq, List.length_append]

theorem valueNames_eq (gains : before.Gains instructions after) :
    after.valueNames = before.valueNames := by
  induction gains with
  | nothing => rfl
  | insert _ inserted inductionHypothesis =>
      obtain ⟨index, -, rfl, -⟩ := insert_eq_ok_iff.1 inserted
      exact inductionHypothesis

theorem signature_eq (gains : before.Gains instructions after) :
    after.name = before.name ∧ after.kind = before.kind ∧ after.arguments = before.arguments := by
  induction gains with
  | nothing => exact ⟨rfl, rfl, rfl⟩
  | insert _ inserted inductionHypothesis =>
      obtain ⟨index, -, rfl, -⟩ := insert_eq_ok_iff.1 inserted
      exact inductionHypothesis

theorem labels_eq (gains : before.Gains instructions after) :
    after.blocks.entries.map Block.label = before.blocks.entries.map Block.label := by
  induction gains with
  | nothing => rfl
  | @insert _ _ _ _ instruction _ _ inserted inductionHypothesis =>
      obtain ⟨index, -, rfl, -⟩ := insert_eq_ok_iff.1 inserted
      exact (labels_insertAt instruction).trans inductionHypothesis

/-- Every new handle is placed once, the others as often as before. -/
theorem allPlaced_perm (gains : before.Gains instructions after) :
    after.allPlaced.Perm
      (before.allPlaced ++ List.range' before.instructions.size instructions.length) := by
  induction gains with
  | nothing => simp
  | @insert _ _ _ _ instruction _ gains inserted inductionHypothesis =>
      obtain ⟨index, found, rfl, -⟩ := insert_eq_ok_iff.1 inserted
      obtain ⟨present, inside⟩ := inside_of_position found
      have added := allPlaced_insertAt_perm present inside instruction
      refine (added.trans (inductionHypothesis.cons _)).trans ?_
      rw [gains.size_eq, List.length_append, List.length_singleton, List.range'_concat, Nat.one_mul,
        ← List.append_assoc]
      exact (List.perm_append_singleton _ _).symm

end Gains

/-! ## Withdrawing -/

/-- Every placed handle and every named result lies in the storage. -/
structure Bounded (function : Function) : Prop where
  placed : ∀ handle ∈ function.allPlaced, handle < function.instructions.size
  named : ∀ entry ∈ function.valueNames.entries, entry.1 < function.instructions.size

/-- Takes every instruction stored from a handle on out of the blocks and out of
the storage.  Names stay. -/
def withdraw (function : Function) (length : Nat) : Function :=
  { function with
    blocks := function.blocks.map (Block.withdraw length)
    instructions := function.instructions.truncate length }

theorem filter_insertIdx (handles : List InstId) (index : Nat) (above : length ≤ handle) :
    (handles.insertIdx index handle).filter (· < length) = handles.filter (· < length) := by
  have dropped : ¬ handle < length := Nat.not_lt.2 above
  induction handles generalizing index with
  | nil => cases index <;> simp [dropped]
  | cons head tail inductionHypothesis =>
      cases index with
      | zero => simp [dropped]
      | succ index =>
          rw [List.insertIdx_succ_cons, List.filter_cons, List.filter_cons, inductionHypothesis]

/-- An insertion behind the length leaves nothing once it is withdrawn. -/
theorem withdraw_insertAt (below : length ≤ function.instructions.size) :
    (function.insertAt block index instruction).withdraw length = function.withdraw length := by
  have sameStorage : (function.instructions.append instruction).truncate length =
      function.instructions.truncate length := by
    unfold Table.truncate Table.append
    rw [List.take_append_of_le_length below]
  have sameBlocks : (function.insertAt block index instruction).blocks.map
      (Block.withdraw length) = function.blocks.map (Block.withdraw length) := by
    apply Table.ext
    apply List.ext_getElem?
    intro position
    unfold insertAt Table.map Table.modify
    rw [List.getElem?_map, List.getElem?_map, List.getElem?_modify]
    cases function.blocks.entries[position]? with
    | none => split <;> rfl
    | some body =>
        split
        · simp [Block.withdraw, filter_insertIdx body.instructions index below]
        · rfl
  unfold withdraw
  rw [sameBlocks]
  simp only [insertAt, sameStorage]

/-- Nothing is withdrawn from a function whose handles lie in the storage. -/
theorem withdraw_size
    (placed : ∀ handle ∈ function.allPlaced, handle < function.instructions.size) :
    function.withdraw function.instructions.size = function := by
  have sameStorage : function.instructions.truncate function.instructions.size =
      function.instructions := by
    unfold Table.truncate Table.size
    rw [List.take_length]
  have sameBlocks : function.blocks.map (Block.withdraw function.instructions.size) =
      function.blocks := by
    apply Table.ext
    refine (List.map_congr_left ?_).trans (List.map_id _)
    intro body listed
    have kept : body.instructions.filter (· < function.instructions.size) =
        body.instructions := by
      apply List.filter_eq_self.2
      intro handle member
      exact decide_eq_true (placed handle (List.mem_flatMap.2 ⟨body, listed, member⟩))
    simp [Block.withdraw, kept]
  unfold withdraw
  rw [sameBlocks, sameStorage]

/-- Insertions are withdrawn at the old size of the storage. -/
theorem Gains.withdraw_eq (gains : before.Gains instructions after)
    (placed : ∀ handle ∈ before.allPlaced, handle < before.instructions.size) :
    after.withdraw before.instructions.size = before := by
  induction gains with
  | nothing => exact withdraw_size placed
  | insert gains inserted inductionHypothesis =>
      obtain ⟨index, -, rfl, -⟩ := insert_eq_ok_iff.1 inserted
      rw [withdraw_insertAt (by simp [gains.size_eq]), inductionHypothesis]

/-- The handles placed before the insertions are still placed in their order. -/
theorem Gains.filter_allPlaced (gains : before.Gains instructions after)
    (placed : ∀ handle ∈ before.allPlaced, handle < before.instructions.size) :
    after.allPlaced.filter (· < before.instructions.size) = before.allPlaced := by
  have restored := congrArg allPlaced (gains.withdraw_eq placed)
  unfold allPlaced withdraw Table.map at restored
  rw [List.flatMap_map] at restored
  refine Eq.trans ?_ restored
  unfold allPlaced
  rw [List.filter_flatMap]
  rfl

theorem Gains.wellPlaced (gains : before.Gains instructions after)
    (wellPlaced : before.WellPlaced) : after.WellPlaced :=
  wellPlaced.of_perm gains.size_eq gains.allPlaced_perm

theorem Gains.bounded (gains : before.Gains instructions after) (bounded : before.Bounded) :
    after.Bounded where
  placed := by
    intro handle member
    rw [gains.size_eq]
    rcases List.mem_append.1 (gains.allPlaced_perm.mem_iff.1 member) with old | new
    · exact Nat.lt_add_right _ (bounded.placed handle old)
    · exact (List.mem_range'_1.1 new).2
  named := by
    intro entry member
    rw [gains.valueNames_eq] at member
    rw [gains.size_eq]
    exact Nat.lt_add_right _ (bounded.named entry member)

/-- Cutting the storage back restores the function as it was before the insertions. -/
theorem Gains.truncate_eq (gains : before.Gains instructions after) (bounded : before.Bounded) :
    after.truncateInstructions before.instructions.size = before := by
  have sameNames : after.valueNames.filterKeys (· < before.instructions.size) =
      before.valueNames := by
    rw [gains.valueNames_eq]
    apply IndexMap.filterKeys_eq_self
    intro entry member
    exact decide_eq_true (bounded.named entry member)
  have withdrawn := gains.withdraw_eq bounded.placed
  calc after.truncateInstructions before.instructions.size
      = { after.withdraw before.instructions.size with
          valueNames := after.valueNames.filterKeys (· < before.instructions.size) } := rfl
    _ = before := by rw [withdrawn, sameNames]

end Function

end Workgroup

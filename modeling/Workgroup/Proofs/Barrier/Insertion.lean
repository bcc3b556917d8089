import Workgroup.Proofs.Barrier.Eligibility
import Workgroup.Proofs.Barrier.Synchronization
import Workgroup.Proofs.Function.Growth

/-!
Contract: the two insertions of the barrier pass.

Both places are found before anything is inserted.  The exiting block gets its
barrier first; the place in the header names an instruction that is there
already, so it is found again even if the header is the exiting block.

Owns:
- the two places, and the second one after the first insertion;
- the run of the plain factory over both points as a synchronization.
-/

namespace Workgroup

namespace Function

variable {function : Function} {block other header exiting : BlockId} {handle terminator : InstId}
  {front back : List InstId} {index : Nat}

/-! ## The two places -/

/-- The place behind the leading phis names what follows them, if anything does. -/
theorem firstNonPhi_eq (function : Function) (block : BlockId) :
    function.firstNonPhi block =
      match function.behindPhis block with
      | [] => .atEnd block
      | handle :: _ => .before block handle := by
  unfold firstNonPhi behindPhis
  generalize function.placed block = listed
  induction listed with
  | nil => rfl
  | cons head tail inductionHypothesis =>
      rw [List.find?_cons, List.dropWhile_cons]
      show (match (match !function.leadsToPhi head with
        | true => some head
        | false => tail.find? _) with
        | some handle => InsertPoint.before block handle
        | none => InsertPoint.atEnd block) = _
      cases function.leadsToPhi head with
      | true => exact inductionHypothesis
      | false => rfl

/-! ## Two insertions -/

/-- What two insertions of barriers keep, wherever they are. -/
theorem synchronizes_of_placed {i j : Nat}
    (exitingPresent : exiting < function.blocks.size)
    (headerPresent : header < function.blocks.size)
    (exitingInside : i ≤ (function.placed exiting).length)
    (headerInside : j ≤ ((function.insertAt exiting i .barrier).placed header).length)
    (placed : ∀ block, ∃ first second,
      ((function.insertAt exiting i .barrier).insertAt header j .barrier).placed block =
        function.leadingPhis block ++ first ++ (function.behindPhis block).dropLast ++ second ++
          (function.behindPhis block).getLast?.toList ∧
      first.length = (if block = header then 1 else 0) ∧
      second.length = (if block = exiting then 1 else 0) ∧
      ∀ handle ∈ first ++ second, function.instructions.size ≤ handle) :
    function.Synchronizes ((function.insertAt exiting i .barrier).insertAt header j .barrier)
      [⟨header, exiting⟩] where
  name_eq := rfl
  kind_eq := rfl
  arguments_eq := rfl
  valueNames_eq := rfl
  labels_eq := (labels_insertAt _).trans (labels_insertAt _)
  instructions_eq := List.append_assoc _ _ _
  placed_perm := by
    have headerStill : header < (function.insertAt exiting i .barrier).blocks.size := by
      unfold insertAt
      rw [Table.size_modify]
      exact headerPresent
    have outer := allPlaced_insertAt_perm headerStill headerInside .barrier
    have inner := allPlaced_insertAt_perm exitingPresent exitingInside .barrier
    have sizeEq : (function.insertAt exiting i .barrier).instructions.size =
        function.instructions.size + 1 := Table.size_append _ _
    rw [sizeEq] at outer
    refine outer.trans ((inner.cons _).trans ?_)
    refine .trans (.swap _ _ _) ?_
    show (([function.instructions.size, function.instructions.size + 1] ++
      function.allPlaced).Perm _)
    exact List.perm_append_comm
  placed_eq := by
    intro block
    simp only [List.map_cons, List.map_nil, List.mem_singleton]
    exact placed block

/-- The place behind the phis is found again in a function that has other
handles in front of the same instruction. -/
theorem position_firstNonPhi {changed : Function} {tail : List InstId}
    (present : header < changed.blocks.size) (listed : changed.placed header = front ++ tail)
    (sameHead : tail.head? = (function.behindPhis header).head?)
    (fresh : ∀ handle, tail.head? = some handle → handle ∉ front) :
    changed.position (function.firstNonPhi header) = .ok front.length := by
  rw [firstNonPhi_eq]
  cases behind : function.behindPhis header with
  | nil =>
      rw [behind, List.head?_nil, List.head?_eq_none_iff] at sameHead
      rw [sameHead, List.append_nil] at listed
      rw [← listed]
      exact changed.position_atEnd present
  | cons handle rest =>
      rw [behind, List.head?_cons] at sameHead
      obtain ⟨later, rfl⟩ := List.head?_eq_some_iff.1 sameHead
      exact changed.position_before listed (fresh handle sameHead)

/-- A block that ends with an instruction other than a phi has it behind its phis. -/
theorem exists_behindPhis_eq (isLast : (function.placed block).getLast? = some handle)
    (notPhi : function.leadsToPhi handle = false) :
    ∃ rest, function.behindPhis block = rest ++ [handle] := by
  have listed := function.placed_eq_leadingPhis_append block
  rcases List.eq_nil_or_concat (function.behindPhis block) with noRest | ⟨rest, last, behind⟩
  · rw [noRest, List.append_nil] at listed
    rw [listed] at isLast
    have isPhi := List.mem_takeWhile_imp (List.mem_of_getLast? isLast)
    exact absurd (isPhi.symm.trans notPhi) nofun
  · rw [List.concat_eq_append] at behind
    rw [listed, behind, ← List.append_assoc, List.getLast?_append] at isLast
    cases isLast
    exact ⟨rest, behind⟩

/-- The handles of the exiting block once it has its barrier. -/
theorem placed_insertAt_beforeLast {middle : List InstId}
    (exitingPresent : exiting < function.blocks.size)
    (exitingRest : function.behindPhis exiting = middle ++ [terminator]) (block : BlockId) :
    (function.insertAt exiting (function.leadingPhis exiting ++ middle).length .barrier).placed
        block =
      if exiting = block then
        function.leadingPhis exiting ++ middle ++ [function.instructions.size, terminator]
      else function.placed block := by
  have listed : function.placed exiting =
      function.leadingPhis exiting ++ middle ++ [terminator] := by
    rw [function.placed_eq_leadingPhis_append, exitingRest, List.append_assoc]
  rw [placed_insertAt exitingPresent, listed, insertIdx_append]

/-- A split of the header at the place of the second barrier, once the first one
is there. -/
structure SecondPlace (function once : Function) (header exiting : BlockId)
    (front tail : List InstId) : Prop where
  listed : once.placed header = front ++ tail
  head_eq : tail.head? = (function.behindPhis header).head?
  fresh : ∀ handle, tail.head? = some handle → handle ∉ front
  placed_eq : ∃ first second, front ++ (function.instructions.size + 1) :: tail =
      function.leadingPhis header ++ first ++ (function.behindPhis header).dropLast ++ second ++
        (function.behindPhis header).getLast?.toList ∧
    first.length = 1 ∧ second.length = (if header = exiting then 1 else 0) ∧
    ∀ handle ∈ first ++ second, function.instructions.size ≤ handle

/-- A header that is not the exiting block is as it was. -/
theorem secondPlace_of_ne {once : Function} (wellPlaced : function.WellPlaced)
    (different : header ≠ exiting) (kept : once.placed header = function.placed header) :
    function.SecondPlace once header exiting (function.leadingPhis header)
      (function.behindPhis header) where
  listed := kept.trans (function.placed_eq_leadingPhis_append header)
  head_eq := rfl
  fresh := fun handle isHead => wellPlaced.not_mem_leadingPhis (List.mem_of_head? isHead)
  placed_eq := by
    refine ⟨[function.instructions.size + 1], [], ?_, rfl, by rw [if_neg different]; rfl, by simp⟩
    rw [List.append_nil, List.append_assoc, dropLast_append_getLast?_toList, List.append_assoc]
    rfl

/-- A header that consists of phis and its terminator has the first barrier
right behind the phis. -/
theorem secondPlace_of_nil {once : Function} (wellPlaced : function.WellPlaced)
    (exitingRest : function.behindPhis exiting = [terminator])
    (listed : once.placed exiting =
      function.leadingPhis exiting ++ [function.instructions.size, terminator]) :
    function.SecondPlace once exiting exiting
      (function.leadingPhis exiting ++ [function.instructions.size]) [terminator] where
  listed := by
    rw [listed, List.append_assoc]
    rfl
  head_eq := by rw [exitingRest]
  fresh := by
    intro handle isHead member
    cases isHead
    have isBehind : terminator ∈ function.behindPhis exiting := by
      rw [exitingRest]
      exact List.mem_cons_self
    rcases List.mem_append.1 member with isPhi | isNew
    · exact wellPlaced.not_mem_leadingPhis isBehind isPhi
    · have stored : terminator < function.instructions.size := by
        apply wellPlaced.stored_of_placed
        rw [function.placed_eq_leadingPhis_append exiting]
        exact List.mem_append_right _ isBehind
      rw [List.mem_singleton.1 isNew] at stored
      exact Nat.lt_irrefl _ stored
  placed_eq := by
    refine ⟨[function.instructions.size], [function.instructions.size + 1], ?_, rfl,
      by rw [if_pos rfl]; rfl, by simp⟩
    rw [exitingRest]
    simp

/-- Any other header has the first barrier further down. -/
theorem secondPlace_of_cons {once : Function} {head : InstId} {middle : List InstId}
    (wellPlaced : function.WellPlaced)
    (exitingRest : function.behindPhis exiting = head :: middle ++ [terminator])
    (listed : once.placed exiting =
      function.leadingPhis exiting ++ head :: middle ++ [function.instructions.size, terminator]) :
    function.SecondPlace once exiting exiting (function.leadingPhis exiting)
      (head :: (middle ++ [function.instructions.size, terminator])) where
  listed := by
    rw [listed, List.append_assoc]
    rfl
  head_eq := by
    rw [exitingRest]
    rfl
  fresh := by
    intro handle isHead
    cases isHead
    apply wellPlaced.not_mem_leadingPhis
    rw [exitingRest]
    exact List.mem_cons_self
  placed_eq := by
    refine ⟨[function.instructions.size + 1], [function.instructions.size], ?_, rfl,
      by rw [if_pos rfl]; rfl, by simp⟩
    rw [exitingRest, List.dropLast_concat, List.getLast?_concat]
    simp

/-- The second insertion at its place leaves a synchronized function. -/
theorem SecondPlace.synchronizes {middle tail : List InstId}
    (place : function.SecondPlace
      (function.insertAt exiting (function.leadingPhis exiting ++ middle).length .barrier)
      header exiting front tail)
    (exitingPresent : exiting < function.blocks.size)
    (headerPresent : header < function.blocks.size)
    (exitingRest : function.behindPhis exiting = middle ++ [terminator]) :
    function.Synchronizes ((function.insertAt exiting
        (function.leadingPhis exiting ++ middle).length .barrier).insertAt header front.length
          .barrier) [⟨header, exiting⟩] := by
  have headerStill : header < (function.insertAt exiting
      (function.leadingPhis exiting ++ middle).length .barrier).blocks.size := by
    unfold insertAt
    rw [Table.size_modify]
    exact headerPresent
  have newHandle : (function.insertAt exiting (function.leadingPhis exiting ++ middle).length
      .barrier).instructions.size = function.instructions.size + 1 := Table.size_append _ _
  apply synchronizes_of_placed exitingPresent headerPresent
  · rw [function.placed_eq_leadingPhis_append exiting, exitingRest, ← List.append_assoc]
    exact (List.sublist_append_left _ _).length_le
  · rw [place.listed, List.length_append]
    exact Nat.le_add_right _ _
  · intro block
    rw [placed_insertAt headerStill, newHandle, place.listed, insertIdx_append]
    by_cases isHeader : header = block
    · subst isHeader
      obtain ⟨first, second, headerResult, firstLength, secondLength, new⟩ := place.placed_eq
      rw [if_pos rfl]
      exact ⟨first, second, headerResult, by rw [if_pos rfl, firstLength], secondLength, new⟩
    · rw [if_neg isHeader, placed_insertAt_beforeLast exitingPresent exitingRest]
      by_cases isExiting : exiting = block
      · subst isExiting
        refine ⟨[], [function.instructions.size], ?_, by rw [if_neg (Ne.symm isHeader)]; rfl,
          by rw [if_pos rfl]; rfl, by simp⟩
        rw [if_pos rfl, exitingRest]
        simp
      · refine ⟨[], [], ?_, by rw [if_neg (Ne.symm isHeader)]; rfl,
          by rw [if_neg (Ne.symm isExiting)]; rfl, by simp⟩
        rw [if_neg isExiting, List.append_nil, List.append_nil]
        exact function.placed_eq_append block

/-- The two insertions of the pass synchronize one loop. -/
theorem exists_insertions (wellPlaced : function.WellPlaced)
    (isLast : (function.placed exiting).getLast? = some terminator)
    (notPhi : function.leadsToPhi terminator = false)
    (headerPresent : header < function.blocks.size) :
    ∃ i j, function.position (.before exiting terminator) = .ok i ∧
      (function.insertAt exiting i .barrier).position (function.firstNonPhi header) = .ok j ∧
      function.Synchronizes ((function.insertAt exiting i .barrier).insertAt header j .barrier)
        [⟨header, exiting⟩] := by
  have exitingPresent : exiting < function.blocks.size :=
    function.lt_size_of_placed (List.mem_of_getLast? isLast)
  obtain ⟨middle, exitingRest⟩ := exists_behindPhis_eq isLast notPhi
  have exitingListed : function.placed exiting =
      (function.leadingPhis exiting ++ middle) ++ terminator :: [] := by
    rw [function.placed_eq_leadingPhis_append, exitingRest, List.append_assoc]
  have terminatorFresh : terminator ∉ function.leadingPhis exiting ++ middle := by
    have distinct := wellPlaced.nodup_placed exiting
    rw [exitingListed, List.nodup_append] at distinct
    exact fun member => distinct.2.2 terminator member terminator List.mem_cons_self rfl
  have placedOnce := placed_insertAt_beforeLast exitingPresent exitingRest
  have headerStill : header < (function.insertAt exiting
      (function.leadingPhis exiting ++ middle).length .barrier).blocks.size := by
    unfold insertAt
    rw [Table.size_modify]
    exact headerPresent
  have second : ∃ front tail, function.SecondPlace
      (function.insertAt exiting (function.leadingPhis exiting ++ middle).length .barrier)
      header exiting front tail := by
    by_cases same : header = exiting
    · subst same
      have listed := placedOnce header
      rw [if_pos rfl] at listed
      cases middle with
      | nil =>
          have shorter := listed.trans
            (congrArg (· ++ [function.instructions.size, terminator]) (List.append_nil _))
          exact ⟨_, _, secondPlace_of_nil wellPlaced exitingRest shorter⟩
      | cons head middle => exact ⟨_, _, secondPlace_of_cons wellPlaced exitingRest listed⟩
    · have listed := placedOnce header
      rw [if_neg (Ne.symm same)] at listed
      exact ⟨_, _, secondPlace_of_ne wellPlaced same listed⟩
  obtain ⟨front, tail, place⟩ := second
  refine ⟨(function.leadingPhis exiting ++ middle).length, front.length, ?_, ?_, ?_⟩
  · exact function.position_before exitingListed terminatorFresh
  · exact position_firstNonPhi headerStill place.listed place.head_eq place.fresh
  · exact place.synchronizes exitingPresent headerPresent exitingRest

end Function

end Workgroup

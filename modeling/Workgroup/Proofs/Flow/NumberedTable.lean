import Mathlib.Tactic.IntervalCases
import Workgroup.Proofs.Bounds.Guarded
import Workgroup.Proofs.Flow.Meeting

/-!
Contract: nearest common ancestors in any numbered table of parents.

The climbs look blocks up in two tables, one of parents and one of numbers.  The
tables belong together if there is one root, which is its own parent and has the
number zero, and every other parent has a lower number than its child.  Two
climbs then read no entry that is missing, never stop for want of a parent, and
meet in the common ancestor with the highest number, whichever block is named
first.

Owns:
- tables of parents and numbers that belong together;
- the loop of the two climbs as it reads the tables by index;
- the common ancestor with the highest number, and the climbs that find it.
-/

namespace Workgroup

/-- An entry that holds something is read without failure. -/
theorem Guarded.read_eq_join {α : Type} {items : List (Option α)} {index : Nat}
    (present : items[index]?.join.isSome) : Guarded.read items index = .ok items[index]?.join := by
  cases listed : items[index]? with
  | none =>
      rw [listed] at present
      exact absurd present nofun
  | some item => exact Guarded.read_eq_ok listed

/-- An index that leads to something is in range. -/
theorem lt_length_of_join {α : Type} {items : List (Option α)} {index : Nat} {item : α}
    (isEntry : items[index]?.join = some item) : index < items.length := by
  by_contra outside
  rw [List.getElem?_eq_none (Nat.not_lt.1 outside)] at isEntry
  exact absurd isEntry nofun

namespace DominatorTree

variable {parents : List (Option BlockId)} {numbers : List (Option Nat)} {last : Nat}
  {root left right block other : BlockId}

/-! ## Numbers -/

/-- The number that a table holds for a block. -/
def numberIn (numbers : List (Option Nat)) (block : BlockId) : Option Nat :=
  numbers[block]?.join

/-- The number by which a block is compared; blocks without one share the last
number. -/
def numberOr (last : Nat) (numbers : List (Option Nat)) (block : BlockId) : Nat :=
  (numberIn numbers block).getD last

/-- Both blocks have a number, and the first block has the lower one. -/
def NumberedBelow (numbers : List (Option Nat)) (low high : BlockId) : Prop :=
  ∃ lower higher, numberIn numbers low = some lower ∧ numberIn numbers high = some higher ∧
    lower < higher

/-- The tables belong together.  A block that is its own parent is the root, since
every other block has a higher number than its parent. -/
structure Numbered (parents : List (Option BlockId)) (numbers : List (Option Nat))
    (root : BlockId) : Prop where
  parent_root : parentIn parents root = some root
  number_root : numberIn numbers root = some 0
  present : ∀ {block above}, parentIn parents block = some above → block ≠ root →
    (parentIn parents above).isSome
  below : ∀ {block above}, parentIn parents block = some above → block ≠ root →
    NumberedBelow numbers above block
  distinct : ∀ {left right number}, numberIn numbers left = some number →
    numberIn numbers right = some number → left = right

theorem NumberedBelow.numberOr_lt {low high : BlockId} (below : NumberedBelow numbers low high)
    (last : Nat) : numberOr last numbers low < numberOr last numbers high := by
  obtain ⟨lower, higher, isLower, isHigher, less⟩ := below
  unfold numberOr
  rw [isLower, isHigher]
  exact less

theorem numberedBelow_of_lt {low high : BlockId} (lowNumbered : (numberIn numbers low).isSome)
    (highNumbered : (numberIn numbers high).isSome)
    (less : numberOr last numbers low < numberOr last numbers high) :
    NumberedBelow numbers low high := by
  obtain ⟨lower, isLower⟩ := Option.isSome_iff_exists.1 lowNumbered
  obtain ⟨higher, isHigher⟩ := Option.isSome_iff_exists.1 highNumbered
  unfold numberOr at less
  rw [isLower, isHigher] at less
  exact ⟨lower, higher, isLower, isHigher, less⟩

namespace Numbered

/-- Every block with a parent has a number. -/
theorem isSome_numberIn (numbered : Numbered parents numbers root)
    (present : (parentIn parents block).isSome) : (numberIn numbers block).isSome := by
  by_cases isRoot : block = root
  · rw [isRoot, numbered.number_root]
    rfl
  · obtain ⟨above, isParent⟩ := Option.isSome_iff_exists.1 present
    obtain ⟨_, higher, -, isHigher, -⟩ := numbered.below isParent isRoot
    rw [isHigher]
    rfl

/-- Climbs lead down in number to the root, whatever number unnumbered blocks are
given. -/
theorem rooted (numbered : Numbered parents numbers root) (last : Nat) :
    Rooted (parentIn parents) (numberOr last numbers) root where
  parent_root := numbered.parent_root
  rank_root := by
    unfold numberOr
    rw [numbered.number_root]
    rfl
  rank_lt := fun isParent notRoot => (numbered.below isParent notRoot).numberOr_lt last
  closed := by
    intro block above isParent
    by_cases isRoot : block = root
    · rw [isRoot, numbered.parent_root] at isParent
      rw [← Option.some.inj isParent, numbered.parent_root]
      rfl
    · exact numbered.present isParent isRoot
  injective := by
    intro left right leftPresent rightPresent same
    obtain ⟨leftNumber, isLeft⟩ := Option.isSome_iff_exists.1 (numbered.isSome_numberIn leftPresent)
    obtain ⟨rightNumber, isRight⟩ :=
      Option.isSome_iff_exists.1 (numbered.isSome_numberIn rightPresent)
    unfold numberOr at same
    rw [isLeft, isRight, Option.getD_some, Option.getD_some] at same
    exact numbered.distinct isLeft (same ▸ isRight)

end Numbered

/-! ## The loop -/

namespace Meeting

/-- The number by which a block is compared, read off the table. -/
def guardedNumber (last : Nat) (numbers : List (Option Nat)) (block : BlockId) : Guarded Nat := do
  let number ← Guarded.read numbers block
  .ok (number.getD last)

/-- One step of the loop, with both tables read by index. -/
def guardedStep (parents : List (Option BlockId)) (numbers : List (Option Nat)) (last : Nat) :
    Meeting → Guarded (Option Meeting)
  | .compare left right => .ok (some (if left = right then .met left else .raiseLeft left right))
  | .raiseLeft left right => do
      let leftNumber ← guardedNumber last numbers left
      let rightNumber ← guardedNumber last numbers right
      if rightNumber < leftNumber then do
        let parent ← Guarded.read parents left
        match parent with
        | some above => .ok (some (.raiseLeft above right))
        | none => .ok (some (.met right))
      else .ok (some (.raiseRight left right))
  | .raiseRight left right => do
      let leftNumber ← guardedNumber last numbers left
      let rightNumber ← guardedNumber last numbers right
      if leftNumber < rightNumber then do
        let parent ← Guarded.read parents right
        match parent with
        | some above => .ok (some (.raiseRight left above))
        | none => .ok (some (.met left))
      else .ok (some (.compare left right))
  | .met _ => .ok none

theorem guardedNumber_eq (numbered : Numbered parents numbers root) (last : Nat)
    (present : (parentIn parents block).isSome) :
    guardedNumber last numbers block = .ok (numberOr last numbers block) := by
  unfold guardedNumber
  rw [Guarded.read_eq_join (numbered.isSome_numberIn present)]
  rfl

/-- One step of the loop, with both tables read through their look-ups. -/
abbrev stepIn (parents : List (Option BlockId)) (numbers : List (Option Nat)) (last : Nat) :
    Meeting → Option Meeting :=
  step (parentIn parents) (numberOr last numbers)

/-- At blocks with a parent the step reads entries that exist. -/
theorem guardedStep_eq (numbered : Numbered parents numbers root) {state : Meeting}
    (leftPresent : (parentIn parents state.left).isSome)
    (rightPresent : (parentIn parents state.right).isSome) :
    guardedStep parents numbers last state = .ok (stepIn parents numbers last state) := by
  have leftNumber := guardedNumber_eq numbered last leftPresent
  have rightNumber := guardedNumber_eq numbered last rightPresent
  have leftParent : Guarded.read parents state.left = .ok (parentIn parents state.left) :=
    Guarded.read_eq_join leftPresent
  have rightParent : Guarded.read parents state.right = .ok (parentIn parents state.right) :=
    Guarded.read_eq_join rightPresent
  cases state with
  | compare left right => rfl
  | raiseLeft left right =>
      simp only [Meeting.left, Meeting.right] at leftNumber rightNumber leftParent
      simp only [guardedStep, step, leftNumber, rightNumber, leftParent, Guarded.ok_bind]
      split
      · cases parentIn parents left <;> rfl
      · rfl
  | raiseRight left right =>
      simp only [Meeting.left, Meeting.right] at leftNumber rightNumber rightParent
      simp only [guardedStep, step, leftNumber, rightNumber, rightParent, Guarded.ok_bind]
      split
      · cases parentIn parents right <;> rfl
      · rfl
  | met block => rfl

end Meeting

/-! ## The highest common ancestor -/

/-- The block is above both blocks, and every other block above both has a lower
number. -/
structure HighestCommon (parents : List (Option BlockId)) (numbers : List (Option Nat))
    (left right block : BlockId) : Prop where
  aboveLeft : Climbs (parentIn parents) left block
  aboveRight : Climbs (parentIn parents) right block
  highest : ∀ {other}, Climbs (parentIn parents) left other →
    Climbs (parentIn parents) right other → other ≠ block → NumberedBelow numbers other block

/-- The loop that begins at two blocks ends in a block, as the function does that
computes it; on the way it reads entries that exist only, and stops for nothing
but the meeting. -/
structure MeetsIn (parents : List (Option BlockId)) (numbers : List (Option Nat)) (last : Nat)
    (left right block : BlockId) : Prop where
  ends : EndsIn (Meeting.stepIn parents numbers last) (.compare left right) (.met block)
  computed : nearestCommon (parentIn parents) (numberOr last numbers) left right = block
  inRange : ∀ {state}, Steps (Meeting.stepIn parents numbers last) (.compare left right) state →
    Meeting.guardedStep parents numbers last state = .ok (Meeting.stepIn parents numbers last state)
  moves : ∀ {before after},
    Steps (Meeting.stepIn parents numbers last) (.compare left right) before →
    Meeting.stepIn parents numbers last before = some after →
    Meeting.Moves (parentIn parents) (numberOr last numbers) before after

namespace HighestCommon

theorem swap (common : HighestCommon parents numbers left right block) :
    HighestCommon parents numbers right left block :=
  ⟨common.aboveRight, common.aboveLeft, fun fromRight fromLeft => common.highest fromLeft fromRight⟩

theorem unique (common : HighestCommon parents numbers left right block)
    (otherCommon : HighestCommon parents numbers left right other) : block = other := by
  by_contra different
  have lower : NumberedBelow numbers block other :=
    otherCommon.highest common.aboveLeft common.aboveRight different
  have higher : NumberedBelow numbers other block :=
    common.highest otherCommon.aboveLeft otherCommon.aboveRight (Ne.symm different)
  exact Nat.lt_asymm (lower.numberOr_lt 0) (higher.numberOr_lt 0)

end HighestCommon

namespace Numbered

/-- Any other common ancestor is above the nearest one, and so has a lower number. -/
theorem highestCommon (numbered : Numbered parents numbers root) (last : Nat)
    (leftPresent : (parentIn parents left).isSome) (rightPresent : (parentIn parents right).isSome) :
    HighestCommon parents numbers left right
      (nearestCommon (parentIn parents) (numberOr last numbers) left right) := by
  have rooted := numbered.rooted last
  have ancestors := rooted.climbs_nearestCommon leftPresent rightPresent
  obtain ⟨aboveLeft, aboveRight⟩ := (ancestors _).1 (.refl _)
  refine ⟨aboveLeft, aboveRight, fun {other} fromLeft fromRight different => ?_⟩
  have climbs := (ancestors other).2 ⟨fromLeft, fromRight⟩
  have nearestPresent := rooted.isSome_nearestCommon leftPresent rightPresent
  have otherPresent := rooted.isSome_of_climbs fromLeft leftPresent
  exact numberedBelow_of_lt (numbered.isSome_numberIn otherPresent)
    (numbered.isSome_numberIn nearestPresent) (rooted.rank_lt_of_ne climbs (Ne.symm different))

theorem meetsIn (numbered : Numbered parents numbers root)
    (leftPresent : (parentIn parents left).isSome) (rightPresent : (parentIn parents right).isSome) :
    MeetsIn parents numbers last left right
      (nearestCommon (parentIn parents) (numberOr last numbers) left right) where
  ends := Meeting.ends (numbered.rooted last) leftPresent rightPresent
  computed := rfl
  inRange := fun steps =>
    have seeks := Meeting.seeks_of_steps (numbered.rooted last) leftPresent rightPresent steps
    Meeting.guardedStep_eq numbered seeks.leftPresent seeks.rightPresent
  moves := fun steps stepped =>
    have seeks := Meeting.seeks_of_steps (numbered.rooted last) leftPresent rightPresent steps
    seeks.moves (numbered.rooted last) stepped

end Numbered

/-- In any tables that belong together, the climbs from two blocks with a parent
meet in the block with the highest number among the blocks above both, in
whichever order the two blocks are named. -/
theorem meeting_exact (numbered : Numbered parents numbers root) (last : Nat)
    (leftPresent : (parentIn parents left).isSome)
    (rightPresent : (parentIn parents right).isSome) :
    ∃ block, HighestCommon parents numbers left right block ∧
      MeetsIn parents numbers last left right block ∧
      MeetsIn parents numbers last right left block := by
  have forward := numbered.highestCommon last leftPresent rightPresent
  have backward := (numbered.highestCommon last rightPresent leftPresent).swap
  refine ⟨_, forward, numbered.meetsIn leftPresent rightPresent, ?_⟩
  rw [forward.unique backward]
  exact numbered.meetsIn rightPresent leftPresent

end DominatorTree

/-! ## A table whose root is not its first block -/

namespace LateRoot

open DominatorTree

/-- The root is block 2; below it, block 0 is the parent of both branches, and
block 3 has neither a parent nor a number. -/
def parents : List (Option BlockId) := [some 2, some 0, some 2, none, some 0, some 1]

def numbers : List (Option Nat) := [some 1, some 3, some 0, none, some 2, some 5]

theorem numbered : Numbered parents numbers 2 where
  parent_root := rfl
  number_root := rfl
  present := by
    intro block above isParent _
    have inside : block < parents.length := lt_length_of_join isParent
    simp only [parents, List.length_cons, List.length_nil] at inside
    interval_cases block <;> cases isParent <;> rfl
  below := by
    intro block above isParent notRoot
    have inside : block < parents.length := lt_length_of_join isParent
    simp only [parents, List.length_cons, List.length_nil] at inside
    interval_cases block <;> cases isParent
    · exact ⟨0, 1, rfl, rfl, by decide⟩
    · exact ⟨1, 3, rfl, rfl, by decide⟩
    · exact absurd rfl notRoot
    · exact ⟨1, 2, rfl, rfl, by decide⟩
    · exact ⟨3, 5, rfl, rfl, by decide⟩
  distinct := by
    intro left right number isLeft isRight
    have leftInside : left < numbers.length := lt_length_of_join isLeft
    have rightInside : right < numbers.length := lt_length_of_join isRight
    have noneTwice : ∀ left < numbers.length, ∀ right < numbers.length,
        numberIn numbers left = numberIn numbers right → (numberIn numbers left).isSome →
        left = right := by decide
    exact noneTwice left leftInside right rightInside (isLeft.trans isRight.symm)
      (by rw [isLeft]; rfl)

/-- The longer branch takes two steps, whichever branch is named first. -/
theorem branches_meet : Numbered parents numbers 2 ∧ (parentIn parents 5).isSome ∧
    (parentIn parents 4).isSome ∧ HighestCommon parents numbers 5 4 0 ∧
    MeetsIn parents numbers 100 5 4 0 ∧ MeetsIn parents numbers 100 4 5 0 := by
  obtain ⟨block, common, forward, backward⟩ :=
    meeting_exact numbered 100 (by decide : (parentIn parents 5).isSome)
      (by decide : (parentIn parents 4).isSome)
  have isZero : nearestCommon (parentIn parents) (numberOr 100 numbers) 5 4 = 0 := by decide
  obtain rfl : 0 = block := isZero.symm.trans forward.computed
  exact ⟨numbered, by decide, by decide, common, forward, backward⟩

end LateRoot

end Workgroup

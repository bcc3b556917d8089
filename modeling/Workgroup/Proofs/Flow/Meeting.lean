import Workgroup.Proofs.Flow.CommonAncestor
import Workgroup.Proofs.Flow.Stepping

/-!
Contract: two climbs that take turns until they meet.

The climbs to the nearest common ancestor are two loops inside a third one: the
left climb goes on while its block has the higher rank, then the right climb
does, and both blocks are compared before either goes on again.  In a rooted
table every climb follows parents of ever lower rank, the common ancestors stay
the same, and the climbs meet.

Owns:
- the loop of the two climbs, with the place where it stands;
- its step lemma: what both blocks keep, and the measure that falls;
- the block in which the climbs meet.
-/

namespace Workgroup

namespace DominatorTree

/-- Where two climbs stand: before their blocks are compared, in the turn of the
left climb, in that of the right one, or where they have met. -/
inductive Meeting where
  | compare (left right : BlockId)
  | raiseLeft (left right : BlockId)
  | raiseRight (left right : BlockId)
  | met (block : BlockId)
deriving DecidableEq, Repr

namespace Meeting

/-- The block that the left climb has reached. -/
def left : Meeting → BlockId
  | .compare left _ | .raiseLeft left _ | .raiseRight left _ => left
  | .met block => block

/-- The block that the right climb has reached. -/
def right : Meeting → BlockId
  | .compare _ right | .raiseLeft _ right | .raiseRight _ right => right
  | .met block => block

/-- Compares the blocks, lets one climb go on or ends its turn.  A climb whose
block has no parent ends both at the block of the other. -/
def step (parent : BlockId → Option BlockId) (rank : BlockId → Nat) : Meeting → Option Meeting
  | .compare left right => some (if left = right then .met left else .raiseLeft left right)
  | .raiseLeft left right =>
      if rank right < rank left then
        match parent left with
        | some above => some (.raiseLeft above right)
        | none => some (.met right)
      else some (.raiseRight left right)
  | .raiseRight left right =>
      if rank left < rank right then
        match parent right with
        | some above => some (.raiseRight left above)
        | none => some (.met left)
      else some (.compare left right)
  | .met _ => none

/-- What bounds the steps that are left: the ranks of both blocks, and the
comparisons until the block of the higher rank climbs. -/
def measure (rank : BlockId → Nat) : Meeting → Nat
  | .compare left right =>
      4 * (rank left + rank right) + if rank right ≤ rank left then 1 else 4
  | .raiseLeft left right =>
      4 * (rank left + rank right) + if rank right < rank left then 0 else 3
  | .raiseRight left right => 4 * (rank left + rank right) + 2
  | .met _ => 0

/-- A climb stands still or follows one parent, which has a lower rank. -/
def Rises (parent : BlockId → Option BlockId) (rank : BlockId → Nat) (before after : BlockId) :
    Prop :=
  after = before ∨ parent before = some after ∧ rank after < rank before

/-- The steps that are made in a rooted table. -/
inductive Moves (parent : BlockId → Option BlockId) (rank : BlockId → Nat) :
    Meeting → Meeting → Prop where
  | meet (block : BlockId) : Moves parent rank (.compare block block) (.met block)
  | begin {left right : BlockId} (different : left ≠ right) :
      Moves parent rank (.compare left right) (.raiseLeft left right)
  | raiseLeft {left right above : BlockId} (higher : rank right < rank left)
      (isParent : parent left = some above) (lower : rank above < rank left) :
      Moves parent rank (.raiseLeft left right) (.raiseLeft above right)
  | turn {left right : BlockId} (notHigher : ¬ rank right < rank left) :
      Moves parent rank (.raiseLeft left right) (.raiseRight left right)
  | raiseRight {left right above : BlockId} (higher : rank left < rank right)
      (isParent : parent right = some above) (lower : rank above < rank right) :
      Moves parent rank (.raiseRight left right) (.raiseRight left above)
  | again {left right : BlockId} (notHigher : ¬ rank left < rank right) :
      Moves parent rank (.raiseRight left right) (.compare left right)

/-- The climbs have reached blocks with a parent whose common ancestors are those
of the two blocks at which the climbs began. -/
structure Seeks (parent : BlockId → Option BlockId) (first second : BlockId)
    (state : Meeting) : Prop where
  leftPresent : (parent state.left).isSome
  rightPresent : (parent state.right).isSome
  common : ∀ block, Climbs parent state.left block ∧ Climbs parent state.right block ↔
    Climbs parent first block ∧ Climbs parent second block

variable {parent : BlockId → Option BlockId} {rank : BlockId → Nat}
  {root first second left right : BlockId} {before after : Meeting}

/-- A block of a higher rank than another one has a parent, of a lower rank. -/
theorem exists_lower (rooted : Rooted parent rank root) (present : (parent left).isSome)
    (higher : rank right < rank left) :
    ∃ above, parent left = some above ∧ rank above < rank left := by
  obtain ⟨above, isParent⟩ := Option.isSome_iff_exists.1 present
  refine ⟨above, isParent, rooted.rank_lt isParent ?_⟩
  rintro rfl
  rw [rooted.rank_root] at higher
  exact absurd higher (Nat.not_lt_zero _)

/-- No climb ends for want of a parent. -/
theorem moves_of_step (rooted : Rooted parent rank root) (leftPresent : (parent before.left).isSome)
    (rightPresent : (parent before.right).isSome)
    (stepped : step parent rank before = some after) : Moves parent rank before after := by
  cases before with
  | compare left right =>
      by_cases same : left = right
      · subst same
        simp only [step, if_true, Option.some.injEq] at stepped
        exact stepped ▸ .meet left
      · simp only [step, if_neg same, Option.some.injEq] at stepped
        exact stepped ▸ .begin same
  | raiseLeft left right =>
      by_cases higher : rank right < rank left
      · obtain ⟨above, isParent, lower⟩ := exists_lower rooted leftPresent higher
        have isParent : parent left = some above := isParent
        simp only [step, if_pos higher, isParent, Option.some.injEq] at stepped
        exact stepped ▸ .raiseLeft higher isParent lower
      · simp only [step, if_neg higher, Option.some.injEq] at stepped
        exact stepped ▸ .turn higher
  | raiseRight left right =>
      by_cases higher : rank left < rank right
      · obtain ⟨above, isParent, lower⟩ := exists_lower rooted rightPresent higher
        have isParent : parent right = some above := isParent
        simp only [step, if_pos higher, isParent, Option.some.injEq] at stepped
        exact stepped ▸ .raiseRight higher isParent lower
      · simp only [step, if_neg higher, Option.some.injEq] at stepped
        exact stepped ▸ .again higher
  | met block => exact absurd stepped nofun

theorem Moves.rises (moves : Moves parent rank before after) :
    Rises parent rank before.left after.left ∧ Rises parent rank before.right after.right := by
  cases moves with
  | raiseLeft _ isParent lower => exact ⟨.inr ⟨isParent, lower⟩, .inl rfl⟩
  | raiseRight _ isParent lower => exact ⟨.inl rfl, .inr ⟨isParent, lower⟩⟩
  | meet | begin | turn | again => exact ⟨.inl rfl, .inl rfl⟩

/-- The measure falls, since different blocks with a parent differ in rank. -/
theorem Moves.measure_lt (moves : Moves parent rank before after)
    (rooted : Rooted parent rank root) (leftPresent : (parent before.left).isSome)
    (rightPresent : (parent before.right).isSome) : measure rank after < measure rank before := by
  cases moves with
  | meet block => simp [measure]
  | @begin left right different =>
      have ranksDiffer : rank left ≠ rank right := fun equal =>
        different (rooted.injective leftPresent rightPresent equal)
      simp only [measure]
      split <;> split <;> omega
  | raiseLeft higher _ lower =>
      simp only [measure, if_pos higher]
      split <;> omega
  | turn notHigher =>
      simp only [measure, if_neg notHigher]
      omega
  | raiseRight _ _ lower =>
      simp only [measure]
      omega
  | again notHigher =>
      simp only [measure, if_pos (Nat.le_of_not_lt notHigher)]
      omega

/-- The common ancestors stay the same. -/
theorem Moves.seeks (moves : Moves parent rank before after) (rooted : Rooted parent rank root)
    (seeks : Seeks parent first second before) : Seeks parent first second after := by
  obtain ⟨leftPresent, rightPresent, common⟩ := seeks
  cases moves with
  | meet | begin | turn | again => exact ⟨leftPresent, rightPresent, common⟩
  | @raiseLeft left right above higher isParent _ =>
      have different : left ≠ right := by
        rintro rfl
        exact Nat.lt_irrefl _ higher
      refine ⟨rooted.closed isParent, rightPresent, fun block => ?_⟩
      rw [← common]
      exact (rooted.climbs_step isParent (Nat.le_of_lt higher) different block).symm
  | @raiseRight left right above higher isParent _ =>
      have different : right ≠ left := by
        rintro rfl
        exact Nat.lt_irrefl _ higher
      refine ⟨leftPresent, rooted.closed isParent, fun block => ?_⟩
      rw [← common, and_comm]
      exact (rooted.climbs_step isParent (Nat.le_of_lt higher) different block).symm.trans and_comm

theorem Seeks.moves (seeks : Seeks parent first second before) (rooted : Rooted parent rank root)
    (stepped : step parent rank before = some after) : Moves parent rank before after :=
  moves_of_step rooted seeks.leftPresent seeks.rightPresent stepped

theorem seeks_compare (leftPresent : (parent left).isSome) (rightPresent : (parent right).isSome) :
    Seeks parent left right (.compare left right) :=
  ⟨leftPresent, rightPresent, fun _ => Iff.rfl⟩

/-- Only where the climbs have met does no step lead on. -/
theorem exists_eq_met (final : step parent rank before = none) : ∃ block, before = .met block := by
  cases before with
  | compare left right => exact absurd final nofun
  | raiseLeft left right =>
      unfold step at final
      grind
  | raiseRight left right =>
      unfold step at final
      grind
  | met block => exact ⟨block, rfl⟩

/-- The climbs meet in the nearest common ancestor. -/
theorem ends (rooted : Rooted parent rank root) (leftPresent : (parent left).isSome)
    (rightPresent : (parent right).isSome) :
    EndsIn (step parent rank) (.compare left right)
      (.met (nearestCommon parent rank left right)) := by
  obtain ⟨last, ends, seeks⟩ := EndsIn.exists_of_falls (measure rank)
    (fun seeks stepped =>
      have moves := Seeks.moves seeks rooted stepped
      ⟨moves.seeks rooted seeks, moves.measure_lt rooted seeks.leftPresent seeks.rightPresent⟩)
    (seeks_compare leftPresent rightPresent)
  obtain ⟨block, rfl⟩ := exists_eq_met ends.final
  have ancestors := rooted.climbs_nearestCommon leftPresent rightPresent
  have down := (ancestors block).2 ((seeks.common block).1 ⟨.refl block, .refl block⟩)
  have up : Climbs parent block (nearestCommon parent rank left right) :=
    ((seeks.common _).2 ((ancestors _).1 (.refl _))).1
  rw [rooted.antisymm down up]
  exact ends

/-- The climbs seek the common ancestors wherever they stand. -/
theorem seeks_of_steps (rooted : Rooted parent rank root) (leftPresent : (parent left).isSome)
    (rightPresent : (parent right).isSome)
    (steps : Steps (step parent rank) (.compare left right) before) :
    Seeks parent left right before :=
  steps.keeps (fun seeks stepped => (Seeks.moves seeks rooted stepped).seeks rooted seeks)
    (seeks_compare leftPresent rightPresent)

/-- In every step on the way each climb stands still or rises. -/
theorem rises (rooted : Rooted parent rank root) (leftPresent : (parent left).isSome)
    (rightPresent : (parent right).isSome)
    (steps : Steps (step parent rank) (.compare left right) before)
    (stepped : step parent rank before = some after) :
    Rises parent rank before.left after.left ∧ Rises parent rank before.right after.right := by
  have seeks := seeks_of_steps rooted leftPresent rightPresent steps
  exact (seeks.moves rooted stepped).rises

end Meeting

end DominatorTree

end Workgroup

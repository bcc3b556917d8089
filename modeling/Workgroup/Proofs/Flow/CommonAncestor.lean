import Mathlib.Logic.Relation
import Mathlib.Tactic.ByContra
import Workgroup.Flow.Dominators

/-!
Contract: climbing in a table of parents, and the nearest common ancestor.

In a rooted table every parent but the root's has a lower rank than its child.
Climbing is then an order, the blocks above one block form a chain, and the
two climbs of `meet` end at the block above which exactly the common ancestors
lie.

Owns:
- climbs and the tables in which they end;
- the common ancestors of two blocks as the ancestors of one;
- what redirecting the parent of one block does to all climbs.
-/

namespace Workgroup

namespace DominatorTree

variable {parent : BlockId → Option BlockId} {rank : BlockId → Nat} {root : BlockId}
  {block low middle high other : BlockId}

/-- Following parents leads from the lower block to the higher one. -/
def Climbs (parent : BlockId → Option BlockId) (low high : BlockId) : Prop :=
  Relation.ReflTransGen (fun below above => parent below = some above) low high

/-- A table of parents in which every climb leads down in rank to the root. -/
structure Rooted (parent : BlockId → Option BlockId) (rank : BlockId → Nat) (root : BlockId) :
    Prop where
  parent_root : parent root = some root
  rank_root : rank root = 0
  rank_lt : ∀ {block above}, parent block = some above → block ≠ root → rank above < rank block
  closed : ∀ {block above}, parent block = some above → (parent above).isSome
  injective : ∀ {left right}, (parent left).isSome → (parent right).isSome →
    rank left = rank right → left = right

namespace Climbs

theorem refl (block : BlockId) : Climbs parent block block :=
  Relation.ReflTransGen.refl

theorem trans (first : Climbs parent low middle) (second : Climbs parent middle high) :
    Climbs parent low high :=
  Relation.ReflTransGen.trans first second

theorem head (isParent : parent low = some middle) (rest : Climbs parent middle high) :
    Climbs parent low high :=
  Relation.ReflTransGen.head isParent rest

/-- A climb stays where it is or begins with the step to the parent. -/
theorem iff_eq_or : Climbs parent low high ↔
    low = high ∨ ∃ above, parent low = some above ∧ Climbs parent above high := by
  unfold Climbs
  rw [Relation.ReflTransGen.cases_head_iff]

/-- Of two blocks above the same block one is above the other. -/
theorem total (first : Climbs parent block low) (second : Climbs parent block high) :
    Climbs parent low high ∨ Climbs parent high low := by
  refine Relation.ReflTransGen.total_of_right_unique ?_ first second
  intro below left right isLeft isRight
  exact Option.some.inj (isLeft.symm.trans isRight)

end Climbs

namespace Rooted

theorem rank_le (rooted : Rooted parent rank root) (climbs : Climbs parent low high) :
    rank high ≤ rank low := by
  induction climbs with
  | refl => exact Nat.le_refl _
  | @tail middle high _ isParent inductionHypothesis =>
      by_cases isRoot : middle = root
      · rw [isRoot, rooted.parent_root] at isParent
        rw [← Option.some.inj isParent, rooted.rank_root]
        exact Nat.zero_le _
      · have := rooted.rank_lt isParent isRoot
        omega

theorem eq_root_of_climbs (rooted : Rooted parent rank root) (climbs : Climbs parent root high) :
    high = root := by
  induction climbs with
  | refl => rfl
  | tail _ isParent inductionHypothesis =>
      rw [inductionHypothesis, rooted.parent_root] at isParent
      exact (Option.some.inj isParent).symm

theorem rank_lt_of_ne (rooted : Rooted parent rank root) (climbs : Climbs parent low high)
    (different : low ≠ high) : rank high < rank low := by
  rcases Climbs.iff_eq_or.1 climbs with same | ⟨above, isParent, rest⟩
  · exact absurd same different
  · by_cases isRoot : low = root
    · subst isRoot
      exact absurd (rooted.eq_root_of_climbs climbs).symm different
    · have := rooted.rank_lt isParent isRoot
      have := rooted.rank_le rest
      omega

theorem antisymm (rooted : Rooted parent rank root) (up : Climbs parent low high)
    (down : Climbs parent high low) : low = high := by
  by_contra different
  have := rooted.rank_lt_of_ne up different
  have := rooted.rank_le down
  omega

theorem isSome_of_climbs (rooted : Rooted parent rank root) (climbs : Climbs parent low high)
    (present : (parent low).isSome) : (parent high).isSome := by
  induction climbs with
  | refl => exact present
  | tail _ isParent _ => exact rooted.closed isParent

/-- One step up keeps the blocks above a block that is not higher in rank. -/
theorem climbs_step (rooted : Rooted parent rank root) {left right above : BlockId}
    (isParent : parent left = some above) (higher : rank right ≤ rank left)
    (different : left ≠ right) (block : BlockId) :
    Climbs parent left block ∧ Climbs parent right block ↔
      Climbs parent above block ∧ Climbs parent right block := by
  constructor
  · rintro ⟨fromLeft, fromRight⟩
    refine ⟨?_, fromRight⟩
    rcases Climbs.iff_eq_or.1 fromLeft with same | ⟨next, isNext, rest⟩
    · subst same
      have := rooted.rank_lt_of_ne fromRight different.symm
      omega
    · rw [isParent] at isNext
      rw [Option.some.inj isNext]
      exact rest
  · rintro ⟨fromAbove, fromRight⟩
    exact ⟨.head isParent fromAbove, fromRight⟩

/-- The climbs meet at the block whose ancestors are the common ancestors. -/
theorem climbs_meet (rooted : Rooted parent rank root) :
    ∀ fuel left right, rank left + rank right < fuel → (parent left).isSome →
      (parent right).isSome → ∀ block,
        Climbs parent (meet parent rank fuel left right) block ↔
          Climbs parent left block ∧ Climbs parent right block := by
  intro fuel
  induction fuel with
  | zero => exact fun left right enough => absurd enough (Nat.not_lt_zero _)
  | succ fuel inductionHypothesis =>
      intro left right enough leftPresent rightPresent block
      unfold meet
      by_cases same : left = right
      · rw [if_pos same, same, and_self]
      · rw [if_neg same]
        by_cases lower : rank right < rank left
        · rw [if_pos lower]
          obtain ⟨above, isParent⟩ := Option.isSome_iff_exists.1 leftPresent
          have notRoot : left ≠ root := by
            rintro rfl
            rw [rooted.rank_root] at lower
            omega
          have := rooted.rank_lt isParent notRoot
          rw [isParent]
          rw [inductionHypothesis above right (by omega) (rooted.closed isParent) rightPresent,
            rooted.climbs_step isParent (by omega) same]
        · rw [if_neg lower]
          obtain ⟨above, isParent⟩ := Option.isSome_iff_exists.1 rightPresent
          have ranksDiffer : rank left ≠ rank right := fun equal =>
            same (rooted.injective leftPresent rightPresent equal)
          have notRoot : right ≠ root := by
            rintro rfl
            have := rooted.rank_root
            omega
          have := rooted.rank_lt isParent notRoot
          rw [isParent]
          rw [inductionHypothesis left above (by omega) leftPresent (rooted.closed isParent),
            and_comm (b := Climbs parent right block),
            rooted.climbs_step isParent (by omega) (Ne.symm same), and_comm]

/-- The ancestors of the nearest common ancestor are the common ancestors. -/
theorem climbs_nearestCommon (rooted : Rooted parent rank root) {left right : BlockId}
    (leftPresent : (parent left).isSome) (rightPresent : (parent right).isSome)
    (block : BlockId) :
    Climbs parent (nearestCommon parent rank left right) block ↔
      Climbs parent left block ∧ Climbs parent right block :=
  rooted.climbs_meet _ left right (by omega) leftPresent rightPresent block

theorem isSome_nearestCommon (rooted : Rooted parent rank root) {left right : BlockId}
    (leftPresent : (parent left).isSome) (rightPresent : (parent right).isSome) :
    (parent (nearestCommon parent rank left right)).isSome := by
  have common := (rooted.climbs_nearestCommon leftPresent rightPresent _).1 (.refl _)
  exact rooted.isSome_of_climbs common.1 leftPresent

end Rooted

/-! ## Redirecting one parent -/

/-- The table in which one block has another parent. -/
def redirect (parent : BlockId → Option BlockId) (block target : BlockId) :
    BlockId → Option BlockId :=
  fun other => if other = block then some target else parent other

variable {target : BlockId}

@[simp] theorem redirect_same : redirect parent block target block = some target :=
  if_pos rfl

theorem redirect_other (different : other ≠ block) :
    redirect parent block target other = parent other :=
  if_neg different

theorem isSome_redirect (present : (parent other).isSome) :
    (redirect parent block target other).isSome := by
  unfold redirect
  split
  · rfl
  · exact present

theorem isSome_of_isSome_redirect (different : other ≠ block)
    (present : (redirect parent block target other).isSome) : (parent other).isSome := by
  rwa [redirect_other different] at present

/-- Climbs that miss the redirected block stay what they are. -/
theorem climbs_redirect_of_not_climbs (missed : ¬ Climbs parent low block) :
    Climbs (redirect parent block target) low high ↔ Climbs parent low high := by
  constructor
  · intro climbs
    induction climbs using Relation.ReflTransGen.head_induction_on with
    | refl => exact .refl _
    | @head low middle isParent _ inductionHypothesis =>
        have different : low ≠ block := by
          rintro rfl
          exact missed (.refl _)
        rw [redirect_other different] at isParent
        exact .head isParent (inductionHypothesis fun rest => missed (.head isParent rest))
  · intro climbs
    induction climbs using Relation.ReflTransGen.head_induction_on with
    | refl => exact .refl _
    | @head low middle isParent _ inductionHypothesis =>
        have different : low ≠ block := by
          rintro rfl
          exact missed (.refl _)
        refine .head ?_ (inductionHypothesis fun rest => missed (.head isParent rest))
        rw [redirect_other different]
        exact isParent

/-- The redirected block climbs to its target and on from there. -/
theorem climbs_redirect_self (missed : ¬ Climbs parent target block) :
    Climbs (redirect parent block target) block high ↔
      block = high ∨ Climbs parent target high := by
  rw [Climbs.iff_eq_or]
  simp only [redirect_same, Option.some.injEq, exists_eq_left',
    climbs_redirect_of_not_climbs missed]

/-- A climb through the redirected block keeps its part up to that block and
goes on at the target. -/
theorem Rooted.climbs_redirect_of_climbs (rooted : Rooted parent rank root)
    (missed : ¬ Climbs parent target block) (through : Climbs parent low block) :
    Climbs (redirect parent block target) low high ↔
      Climbs parent low high ∧ Climbs parent high block ∨ Climbs parent target high := by
  induction through using Relation.ReflTransGen.head_induction_on with
  | refl =>
      rw [climbs_redirect_self missed]
      refine or_congr_left ⟨?_, fun between => rooted.antisymm between.1 between.2⟩
      rintro rfl
      exact ⟨.refl _, .refl _⟩
  | @head low middle isParent rest inductionHypothesis =>
      by_cases same : low = block
      · subst same
        rw [climbs_redirect_self missed]
        refine or_congr_left ⟨?_, fun between => rooted.antisymm between.1 between.2⟩
        rintro rfl
        exact ⟨.refl _, .refl _⟩
      · have upward : Climbs parent low high ↔ low = high ∨ Climbs parent middle high := by
          rw [Climbs.iff_eq_or, isParent]
          simp only [Option.some.injEq, exists_eq_left']
        rw [Climbs.iff_eq_or, redirect_other same, upward]
        simp only [isParent, Option.some.injEq, exists_eq_left', inductionHypothesis]
        constructor
        · rintro (rfl | ⟨between, upper⟩ | beyond)
          · exact .inl ⟨.inl rfl, .head isParent rest⟩
          · exact .inl ⟨.inr between, upper⟩
          · exact .inr beyond
        · rintro (⟨rfl | between, upper⟩ | beyond)
          · exact .inl rfl
          · exact .inr (.inl ⟨between, upper⟩)
          · exact .inr (.inr beyond)

end DominatorTree

end Workgroup

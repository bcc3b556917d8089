import Mathlib.Algebra.Group.Action.Defs
import Mathlib.Algebra.Order.BigOperators.Group.List
import Mathlib.Algebra.Order.Ring.Nat
import Workgroup.Proofs.Flow.Renewal

/-!
Contract: the sweeps over the table of parents come to an end.

The ranks of the parents only fall, so the fuel of the sweeps suffices, and
what they end with is a table that a further sweep does not change.

Owns:
- the weight of a table and its fall in each sweep that changes something;
- the run lemma of a sweep and of all sweeps;
- the table in the beginning.
-/

namespace Workgroup

namespace DominatorTree

variable {graph : FlowGraph} {entry block above below : BlockId} {order : List BlockId}
  {parents : List (Option BlockId)} {position : Nat}

/-! ## Sweeps and their fixed point -/

/-- What the parent of a block counts for: its rank, or more than any rank if
there is none yet. -/
def weightOf (order : List BlockId) (parents : List (Option BlockId)) (block : BlockId) : Nat :=
  match parentIn parents block with
  | none => order.length
  | some parent => rankIn order parent

/-- The ranks of all parents together. -/
def weight (order : List BlockId) (parents : List (Option BlockId)) : Nat :=
  (order.map (weightOf order parents)).sum

theorem weight_le (parents : List (Option BlockId)) :
    weight order parents ≤ order.length * order.length := by
  unfold weight
  have bounded : ∀ value ∈ order.map (weightOf order parents), value ≤ order.length := by
    intro value member
    obtain ⟨block, -, rfl⟩ := List.mem_map.1 member
    unfold weightOf
    split
    · exact Nat.le_refl _
    · exact List.idxOf_le_length
  calc (order.map (weightOf order parents)).sum
      ≤ (order.map (weightOf order parents)).length • order.length :=
        List.sum_le_card_nsmul _ _ bounded
    _ = order.length * order.length := by rw [List.length_map, smul_eq_mul]

/-- A renewal changes nothing or takes weight away. -/
theorem Renewal.improve_eq_or_weight_lt {parent : BlockId}
    (renewal : Renewal graph entry order position parents block parent) :
    improve graph order parents block = parents ∨
      weight order (improve graph order parents block) < weight order parents := by
  rw [renewal.improve_eq]
  by_cases same : parentIn parents block = some parent
  · exact .inl (set_parentIn same)
  · right
    have renewedWeight (other : BlockId) :
        weightOf order (parents.set block (some parent)) other =
          if other = block then rankIn order parent else weightOf order parents other := by
      unfold weightOf
      rw [parentIn_set renewal.inside]
      by_cases isBlock : other = block
      · rw [if_pos isBlock, isBlock, redirect_same]
      · rw [if_neg isBlock, redirect_other isBlock]
    have parentMember := renewal.approximates.listed renewal.present
    have falls : rankIn order parent < weightOf order parents block := by
      unfold weightOf
      split
      · exact rank_lt_length.2 parentMember
      · next before isParent =>
        refine renewal.rank_lt_of_ne isParent fun equal => same ?_
        rw [isParent, equal]
    refine List.sum_lt_sum _ _ (fun other _ => ?_) ⟨block, renewal.member, ?_⟩
    · rw [renewedWeight]
      split
      · next isBlock =>
        rw [isBlock]
        exact Nat.le_of_lt falls
      · exact Nat.le_refl _
    · rw [renewedWeight, if_pos rfl]
      exact falls

/-- The run lemma: the rest of a sweep keeps the invariant, changes nothing or
takes weight away, and changes nothing only if no renewal does. -/
theorem Approximates.foldl_improve (coherent : graph.Coherent)
    (enumerates : graph.Enumerates entry order) :
    ∀ (rest front : List BlockId) (parents : List (Option BlockId)), order = front ++ rest →
      entry ∈ front → Approximates graph entry order front.length parents →
      Approximates graph entry order order.length (rest.foldl (improve graph order) parents) ∧
        (rest.foldl (improve graph order) parents = parents ∧
            (∀ block ∈ rest, improve graph order parents block = parents) ∨
          weight order (rest.foldl (improve graph order) parents) < weight order parents) := by
  intro rest
  induction rest with
  | nil =>
      intro front parents listed _ approximates
      have sameLength : order.length = front.length := by
        rw [listed, List.append_nil]
      rw [sameLength]
      exact ⟨approximates, .inl ⟨rfl, by simp⟩⟩
  | cons block rest inductionHypothesis =>
      intro front parents listed entryIn approximates
      obtain ⟨parent, renewal⟩ :=
        approximates.exists_renewal_of_split coherent enumerates listed entryIn
      have next := renewal.approximates_improve coherent enumerates
      obtain ⟨finished, outcome⟩ := inductionHypothesis (front ++ [block])
        (improve graph order parents block) (by rw [listed]; simp)
        (List.mem_append_left _ entryIn) (by simpa using next)
      rw [List.foldl_cons]
      refine ⟨finished, ?_⟩
      rcases renewal.improve_eq_or_weight_lt with kept | falls
      · rw [kept] at outcome ⊢
        rcases outcome with ⟨same, fixed⟩ | less
        · exact .inl ⟨same, List.forall_mem_cons.2 ⟨kept, fixed⟩⟩
        · exact .inr less
      · refine .inr (Nat.lt_of_le_of_lt ?_ falls)
        rcases outcome with ⟨same, -⟩ | less
        · rw [same]
        · exact Nat.le_of_lt less

/-- A finished sweep leaves the invariant of a sweep that has renewed nothing
but the entry. -/
theorem Approximates.restart
    (approximates : Approximates graph entry order order.length parents) :
    Approximates graph entry order 1 parents where
  length := approximates.length
  rooted := approximates.rooted
  listed := approximates.listed
  renewed := fun {block} member _ => approximates.renewed member (rank_lt_length.2 member)
  covers := approximates.covers
  shared := approximates.shared
  followed := fun {block parent other} notEntry isParent isPredecessor otherMember otherLower _ =>
    approximates.followed notEntry isParent isPredecessor otherMember otherLower
      (.inl (rank_lt_length.2 (approximates.listed (by rw [isParent]; rfl))))

/-- The run lemma of a whole sweep. -/
theorem Approximates.sweep (coherent : graph.Coherent)
    (enumerates : graph.Enumerates entry order)
    (approximates : Approximates graph entry order 1 parents) :
    Approximates graph entry order order.length (sweep graph order parents) ∧
      (sweep graph order parents = parents ∧
          (∀ block ∈ order.tail, improve graph order parents block = parents) ∨
        weight order (sweep graph order parents) < weight order parents) := by
  obtain ⟨rest, listed⟩ := enumerates.eq_cons
  have tailEq : order.tail = rest := by
    rw [listed]
    rfl
  unfold DominatorTree.sweep
  rw [tailEq]
  exact foldl_improve coherent enumerates rest [entry] parents listed List.mem_cons_self
    approximates

/-- A table that no renewal changes any more. -/
structure Settled (graph : FlowGraph) (entry : BlockId) (order : List BlockId)
    (parents : List (Option BlockId)) : Prop where
  approximates : Approximates graph entry order order.length parents
  fixed : ∀ block ∈ order.tail, improve graph order parents block = parents

/-- With more fuel than there is weight, the sweeps settle. -/
theorem Approximates.settled_settle (coherent : graph.Coherent)
    (enumerates : graph.Enumerates entry order) :
    ∀ fuel parents, Approximates graph entry order 1 parents → weight order parents < fuel →
      Settled graph entry order (settle graph order fuel parents) := by
  intro fuel
  induction fuel with
  | zero => exact fun parents _ less => absurd less (Nat.not_lt_zero _)
  | succ fuel inductionHypothesis =>
      intro parents approximates less
      obtain ⟨swept, outcome⟩ := approximates.sweep coherent enumerates
      unfold settle
      by_cases same : DominatorTree.sweep graph order parents = parents
      · simp only [same, if_true]
        rw [same] at swept
        rcases outcome with ⟨-, fixed⟩ | falls
        · exact ⟨swept, fixed⟩
        · rw [same] at falls
          exact absurd falls (Nat.lt_irrefl _)
      · simp only [same, if_false]
        have falls := outcome.resolve_left fun kept => same kept.1
        exact inductionHypothesis _ (swept.restart) (by omega)

/-- Without blocks a sweep changes nothing. -/
theorem settle_nil (graph : FlowGraph) (fuel : Nat) (parents : List (Option BlockId)) :
    settle graph [] fuel parents = parents := by
  cases fuel with
  | zero => rfl
  | succ fuel => exact if_pos rfl

theorem parentIn_replicate (count : Nat) (block : BlockId) :
    parentIn (List.replicate count none) block = none := by
  unfold parentIn
  rw [List.getElem?_replicate]
  split <;> rfl

/-- In the table in which only the entry has a parent, every climb stands
still. -/
theorem approximates_initialParents (coherent : graph.Coherent)
    (isEntry : graph.entryBlock? = some entry) (enumerates : graph.Enumerates entry order) :
    Approximates graph entry order 1 (initialParents graph order) := by
  obtain ⟨rest, listed⟩ := enumerates.eq_cons
  have initialEq : initialParents graph order =
      (List.replicate graph.size none).set entry (some entry) := by
    rw [listed]
    rfl
  have inside : entry < (List.replicate graph.size (none : Option BlockId)).length := by
    rw [List.length_replicate]
    exact coherent.entry_lt isEntry
  have parentEq : parentIn (initialParents graph order) =
      fun block => if block = entry then some entry else none := by
    rw [initialEq, parentIn_set inside]
    funext block
    unfold redirect
    rw [parentIn_replicate]
  have isEntry_of_isSome {block : BlockId}
      (present : (parentIn (initialParents graph order) block).isSome) : block = entry := by
    rw [parentEq] at present
    by_contra different
    simp [different] at present
  refine ⟨?_, ⟨?_, enumerates.rank_entry, ?_, ?_, ?_⟩, ?_, ?_, ?_, ?_, ?_⟩
  · rw [initialEq, List.length_set, List.length_replicate]
  · rw [parentEq]
    exact if_pos rfl
  · intro block above isParent different
    exact absurd (isEntry_of_isSome (by rw [isParent]; rfl)) different
  · intro block above isParent
    have isEntry : block = entry := isEntry_of_isSome (by rw [isParent]; rfl)
    rw [parentEq, isEntry] at isParent
    rw [parentEq, ← Option.some.inj (isParent.symm.trans (if_pos rfl)).symm]
    simp
  · intro left right leftPresent rightPresent _
    rw [isEntry_of_isSome leftPresent, isEntry_of_isSome rightPresent]
  · intro block present
    rw [isEntry_of_isSome present]
    exact enumerates.entry_mem
  · intro block member lower
    have isEntry : block = entry := by
      apply rank_injective member
      rw [enumerates.rank_entry]
      omega
    rw [parentEq, isEntry]
    simp
  · intro above below present dominates
    have isBelow := isEntry_of_isSome present
    subst isBelow
    have member := dominates.2 [below] ⟨below, isEntry, .here below⟩
    rw [List.mem_singleton.1 member]
    exact .refl below
  · intro block above different present _
    exact absurd (isEntry_of_isSome present) different
  · intro block parent other different isParent
    exact absurd (isEntry_of_isSome (by rw [isParent]; rfl)) different

end DominatorTree

end Workgroup

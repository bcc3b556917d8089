import Workgroup.Proofs.Flow.CommonAncestor
import Workgroup.Proofs.Flow.Exploration

/-!
Contract: one renewal of the table of parents.

While the sweeps run, climbing in the table reaches every dominator and
possibly more.  A renewed parent lies above the old one, so that climbs reach
less than before but still every dominator.

Owns:
- ranks in an enumeration of the reachable blocks;
- the invariant of a sweep at each position of the order;
- the step lemma of one renewal.
-/

namespace Workgroup

namespace DominatorTree

variable {graph : FlowGraph} {entry block above below : BlockId} {order : List BlockId}
  {parents : List (Option BlockId)} {position : Nat}

/-! ## Ranks in an enumeration -/

theorem rank_lt_length : rankIn order block < order.length ↔ block ∈ order :=
  List.idxOf_lt_length_iff

theorem rank_injective (left : block ∈ order) (same : rankIn order block = rankIn order below) :
    block = below :=
  (List.idxOf_inj left).1 same

theorem rank_of_split {front back : List BlockId} (fresh : block ∉ front) :
    rankIn (front ++ block :: back) block = front.length := by
  unfold rankIn
  rw [List.idxOf_append_of_notMem fresh]
  simp

end DominatorTree

namespace FlowGraph.Enumerates

open DominatorTree

variable {graph : FlowGraph} {entry block : BlockId} {order : List BlockId}

theorem eq_cons (enumerates : graph.Enumerates entry order) : ∃ rest, order = entry :: rest := by
  have head := enumerates.head
  cases order with
  | nil => exact absurd head nofun
  | cons first rest => exact ⟨rest, congrArg (· :: rest) (Option.some.inj head)⟩

theorem entry_mem (enumerates : graph.Enumerates entry order) : entry ∈ order := by
  obtain ⟨rest, rfl⟩ := enumerates.eq_cons
  exact List.mem_cons_self

theorem rank_entry (enumerates : graph.Enumerates entry order) : rankIn order entry = 0 := by
  obtain ⟨rest, rfl⟩ := enumerates.eq_cons
  exact List.idxOf_cons_self

theorem rank_split (enumerates : graph.Enumerates entry order) {front back : List BlockId}
    (listed : order = front ++ block :: back) : rankIn order block = front.length := by
  subst listed
  refine rank_of_split fun member => ?_
  have disjoint := (List.nodup_append.1 enumerates.nodup).2.2
  exact disjoint block member block List.mem_cons_self rfl

/-- Every block but the entry has a predecessor of a lower rank. -/
theorem exists_lower (enumerates : graph.Enumerates entry order) (coherent : graph.Coherent)
    (member : block ∈ order) (different : block ≠ entry) :
    ∃ other ∈ graph.predecessors block, other ∈ order ∧
      rankIn order other < rankIn order block := by
  obtain ⟨front, back, listed⟩ := List.append_of_mem member
  obtain ⟨other, otherMember, edge⟩ := enumerates.preceded front block back listed different
  refine ⟨other, coherent.mem_predecessors.2 edge, ?_, ?_⟩
  · rw [listed]
    exact List.mem_append_left _ otherMember
  · rw [enumerates.rank_split listed, listed]
    unfold rankIn
    rw [List.idxOf_append_of_mem otherMember]
    exact List.idxOf_lt_length_of_mem otherMember

end FlowGraph.Enumerates

namespace DominatorTree

variable {graph : FlowGraph} {entry block above below : BlockId} {order : List BlockId}
  {parents : List (Option BlockId)} {position : Nat}

/-! ## One renewal -/

/-- The invariant of a sweep that has renewed the blocks in front of a
position: climbs reach every dominator, what all predecessors reach is reached,
and parents lie above the predecessors of lower rank unless a renewal in this
sweep has moved them. -/
structure Approximates (graph : FlowGraph) (entry : BlockId) (order : List BlockId)
    (position : Nat) (parents : List (Option BlockId)) : Prop where
  length : parents.length = graph.size
  rooted : Rooted (parentIn parents) (rankIn order) entry
  listed : ∀ {block}, (parentIn parents block).isSome → block ∈ order
  renewed : ∀ {block}, block ∈ order → rankIn order block < position →
    (parentIn parents block).isSome
  covers : ∀ {above below}, (parentIn parents below).isSome → graph.Dominates above below →
    Climbs (parentIn parents) below above
  shared : ∀ {block above}, block ≠ entry → (parentIn parents block).isSome →
    (∀ other ∈ graph.predecessors block, (parentIn parents other).isSome →
      Climbs (parentIn parents) other above) →
    Climbs (parentIn parents) block above
  followed : ∀ {block parent other}, block ≠ entry → parentIn parents block = some parent →
    other ∈ graph.predecessors block → other ∈ order → rankIn order other < rankIn order block →
    rankIn order block < position ∨ position ≤ rankIn order parent →
    Climbs (parentIn parents) other parent

theorem parentIn_set (inside : block < parents.length) (parent : BlockId) :
    parentIn (parents.set block (some parent)) = redirect (parentIn parents) block parent := by
  funext other
  unfold parentIn redirect
  by_cases same : other = block
  · rw [if_pos same, same, List.getElem?_set_self inside]
    rfl
  · rw [if_neg same, List.getElem?_set_ne (Ne.symm same)]

/-- Setting the parent that is there already changes nothing. -/
theorem set_parentIn {parent : BlockId} (isParent : parentIn parents block = some parent) :
    parents.set block (some parent) = parents := by
  refine List.ext_getElem? fun index => ?_
  rw [List.getElem?_set]
  split
  · next same =>
    subst same
    unfold parentIn at isParent
    cases listed : parents[block]? with
    | none => rw [listed] at isParent; exact absurd isParent nofun
    | some found =>
        rw [listed] at isParent
        rw [if_pos (List.getElem?_eq_some_iff.1 listed).1]
        exact congrArg some isParent.symm
  · rfl

/-- Joining predecessors yields the block above which exactly their common
ancestors lie. -/
private theorem foldl_joinPredecessor (rooted : Rooted (parentIn parents) (rankIn order) entry) :
    ∀ (others : List BlockId) (current : BlockId), (parentIn parents current).isSome →
      ∃ parent, others.foldl (joinPredecessor order parents) (some current) = some parent ∧
        (parentIn parents parent).isSome ∧
        ∀ above, Climbs (parentIn parents) parent above ↔
          Climbs (parentIn parents) current above ∧
            ∀ other ∈ others, (parentIn parents other).isSome →
              Climbs (parentIn parents) other above := by
  intro others
  induction others with
  | nil => exact fun current present => ⟨current, rfl, present, by simp⟩
  | cons head tail inductionHypothesis =>
      intro current present
      rw [List.foldl_cons]
      by_cases headPresent : (parentIn parents head).isSome
      · have joined : joinPredecessor order parents (some current) head =
            some (nearestCommon (parentIn parents) (rankIn order) head current) := by
          unfold joinPredecessor
          rw [if_neg (by simpa [Option.isSome_iff_ne_none] using headPresent)]
        obtain ⟨parent, folded, parentPresent, ancestors⟩ :=
          inductionHypothesis _ (rooted.isSome_nearestCommon headPresent present)
        refine ⟨parent, by rw [joined, folded], parentPresent, fun above => ?_⟩
        rw [ancestors, rooted.climbs_nearestCommon headPresent present]
        simp only [List.forall_mem_cons, headPresent, forall_const]
        tauto
      · have kept : joinPredecessor order parents (some current) head = some current := by
          unfold joinPredecessor
          rw [if_pos (by simpa using headPresent)]
        obtain ⟨parent, folded, parentPresent, ancestors⟩ := inductionHypothesis current present
        refine ⟨parent, by rw [kept, folded], parentPresent, fun above => ?_⟩
        rw [ancestors]
        simp only [List.forall_mem_cons, headPresent, Bool.false_eq_true, false_implies, true_and]

/-- If some predecessor has a parent, the proposal for a block is the nearest
common ancestor of all predecessors that have one. -/
theorem proposal_eq_some (rooted : Rooted (parentIn parents) (rankIn order) entry)
    (present : ∃ other ∈ graph.predecessors block, (parentIn parents other).isSome) :
    ∃ parent, proposal graph order parents block = some parent ∧
      (parentIn parents parent).isSome ∧
      ∀ above, Climbs (parentIn parents) parent above ↔
        ∀ other ∈ graph.predecessors block, (parentIn parents other).isSome →
          Climbs (parentIn parents) other above := by
  unfold proposal
  generalize graph.predecessors block = others at *
  induction others with
  | nil =>
      obtain ⟨other, member, -⟩ := present
      exact absurd member List.not_mem_nil
  | cons head tail inductionHypothesis =>
      rw [List.foldl_cons]
      by_cases headPresent : (parentIn parents head).isSome
      · have first : joinPredecessor order parents none head = some head := by
          unfold joinPredecessor
          rw [if_neg (by simpa [Option.isSome_iff_ne_none] using headPresent)]
        obtain ⟨parent, folded, parentPresent, ancestors⟩ :=
          foldl_joinPredecessor rooted tail head headPresent
        refine ⟨parent, by rw [first, folded], parentPresent, fun above => ?_⟩
        rw [ancestors]
        simp only [List.forall_mem_cons, headPresent, forall_const]
      · have skipped : joinPredecessor order parents none head = none := by
          unfold joinPredecessor
          rw [if_pos (by simpa using headPresent)]
        obtain ⟨other, member, otherPresent⟩ := present
        have inTail : other ∈ tail := by
          rcases List.mem_cons.1 member with rfl | member
          · exact absurd otherPresent headPresent
          · exact member
        obtain ⟨parent, folded, parentPresent, ancestors⟩ :=
          inductionHypothesis ⟨other, inTail, otherPresent⟩
        refine ⟨parent, by rw [skipped, folded], parentPresent, fun above => ?_⟩
        rw [ancestors]
        simp only [List.forall_mem_cons, headPresent, Bool.false_eq_true, false_implies, true_and]

/-- The renewal of the block at the position, with the parent it is given. -/
structure Renewal (graph : FlowGraph) (entry : BlockId) (order : List BlockId) (position : Nat)
    (parents : List (Option BlockId)) (block parent : BlockId) : Prop where
  approximates : Approximates graph entry order position parents
  member : block ∈ order
  turn : rankIn order block = position
  notEntry : block ≠ entry
  inside : block < parents.length
  proposed : proposal graph order parents block = some parent
  present : (parentIn parents parent).isSome
  ancestors : ∀ above, Climbs (parentIn parents) parent above ↔
    ∀ other ∈ graph.predecessors block, (parentIn parents other).isSome →
      Climbs (parentIn parents) other above
  lower : rankIn order parent < position

namespace Approximates

variable (coherent : graph.Coherent) (enumerates : graph.Enumerates entry order)
include coherent enumerates

/-- A dominator of a lower rank than a block passed on the climb dominates that
block: the climb down the enumeration to it misses the dominator. -/
theorem dominates_of_climbs (approximates : Approximates graph entry order position parents)
    (low : rankIn order block = position) (climbs : Climbs (parentIn parents) below block)
    (dominates : graph.Dominates above below) (lower : rankIn order above < position) :
    graph.Dominates above block := by
  -- Induction on the rank of the block below, along predecessors of lower rank.
  induction rankEq : rankIn order below using Nat.strongRecOn generalizing below with
  | _ rank inductionHypothesis =>
      subst rankEq
      rcases Climbs.iff_eq_or.1 climbs with rfl | ⟨parent, isParent, rest⟩
      · exact dominates
      · have rankLe := approximates.rooted.rank_le rest
        have notEntry : below ≠ entry := by
          rintro rfl
          have := approximates.rooted.eq_root_of_climbs climbs
          have := enumerates.rank_entry
          subst block
          omega
        have member : below ∈ order := approximates.listed (by rw [isParent]; rfl)
        obtain ⟨other, isPredecessor, otherMember, otherLower⟩ :=
          enumerates.exists_lower coherent member notEntry
        have through := approximates.followed notEntry isParent isPredecessor otherMember
          otherLower (.inr (by omega))
        have climbsLe := approximates.rooted.rank_le climbs
        have different : above ≠ below := by
          rintro rfl
          omega
        exact inductionHypothesis (rankIn order other) otherLower (through.trans rest)
          (dominates.predecessor different ((enumerates.mem_iff other).1 otherMember)
            (coherent.mem_predecessors.1 isPredecessor)) rfl

/-- At its turn, a block that is not the entry is proposed a parent. -/
theorem exists_renewal (approximates : Approximates graph entry order position parents)
    (member : block ∈ order) (turn : rankIn order block = position) (notEntry : block ≠ entry) :
    ∃ parent, Renewal graph entry order position parents block parent := by
  obtain ⟨other, isPredecessor, otherMember, otherLower⟩ :=
    enumerates.exists_lower coherent member notEntry
  have otherPresent := approximates.renewed otherMember (by omega)
  obtain ⟨parent, proposed, parentPresent, ancestors⟩ :=
    proposal_eq_some approximates.rooted ⟨other, isPredecessor, otherPresent⟩
  have parentLe := approximates.rooted.rank_le
    ((ancestors parent).1 (.refl parent) other isPredecessor otherPresent)
  have inside : block < parents.length := by
    rw [approximates.length]
    exact coherent.successor_lt (coherent.mem_predecessors.1 isPredecessor)
  exact ⟨parent, approximates, member, turn, notEntry, inside, proposed, parentPresent,
    ancestors, by omega⟩

/-- The block behind those that have been renewed is proposed a parent. -/
theorem exists_renewal_of_split {front back : List BlockId}
    (listed : order = front ++ block :: back) (entryIn : entry ∈ front)
    (approximates : Approximates graph entry order front.length parents) :
    ∃ parent, Renewal graph entry order front.length parents block parent := by
  have notEntry : block ≠ entry := by
    rintro rfl
    have disjoint := (List.nodup_append.1 (listed ▸ enumerates.nodup)).2.2
    exact disjoint block entryIn block List.mem_cons_self rfl
  exact approximates.exists_renewal coherent enumerates (by rw [listed]; simp)
    (enumerates.rank_split listed) notEntry

end Approximates

namespace Renewal

variable {parent low high : BlockId}

theorem improve_eq (renewal : Renewal graph entry order position parents block parent) :
    improve graph order parents block = parents.set block (some parent) := by
  unfold improve
  rw [renewal.proposed]

theorem parentIn_improve (renewal : Renewal graph entry order position parents block parent) :
    parentIn (improve graph order parents block) = redirect (parentIn parents) block parent := by
  rw [renewal.improve_eq, parentIn_set renewal.inside]

theorem missed (renewal : Renewal graph entry order position parents block parent) :
    ¬ Climbs (parentIn parents) parent block := by
  intro climbs
  have := renewal.approximates.rooted.rank_le climbs
  have := renewal.lower
  have := renewal.turn
  omega

/-- If the block had a parent before, the new one lies at or above it. -/
theorem climbs (renewal : Renewal graph entry order position parents block parent)
    (present : (parentIn parents block).isSome) : Climbs (parentIn parents) block parent :=
  renewal.approximates.shared renewal.notEntry present
    ((renewal.ancestors parent).1 (.refl parent))

/-- A block with a parent of its own climbs no further than before. -/
theorem shrinks (renewal : Renewal graph entry order position parents block parent)
    (present : (parentIn parents low).isSome)
    (climbs : Climbs (redirect (parentIn parents) block parent) low high) :
    Climbs (parentIn parents) low high := by
  have rooted := renewal.approximates.rooted
  by_cases through : Climbs (parentIn parents) low block
  · rcases (rooted.climbs_redirect_of_climbs renewal.missed through).1 climbs with between | beyond
    · exact between.1
    · have above := renewal.climbs (rooted.isSome_of_climbs through present)
      exact (through.trans above).trans beyond
  · exact (climbs_redirect_of_not_climbs through).1 climbs

/-- What a climb through the block reaches lies below the block, or above it
and then lower in rank. -/
theorem below_or_above (renewal : Renewal graph entry order position parents block parent)
    (through : Climbs (parentIn parents) low block) (climbs : Climbs (parentIn parents) low high) :
    Climbs (parentIn parents) high block ∨ rankIn order high < position := by
  rcases climbs.total through with upper | beyond
  · exact .inl upper
  · by_cases same : block = high
    · exact .inl (same ▸ .refl _)
    · have := renewal.approximates.rooted.rank_lt_of_ne beyond same
      have := renewal.turn
      exact .inr (by omega)

/-- An old climb survives if what it reaches above the block is reached from
the new parent. -/
theorem climbs_of_climbs (renewal : Renewal graph entry order position parents block parent)
    (climbs : Climbs (parentIn parents) low high)
    (reached : Climbs (parentIn parents) low block → rankIn order high < position →
      Climbs (parentIn parents) parent high) :
    Climbs (redirect (parentIn parents) block parent) low high := by
  by_cases through : Climbs (parentIn parents) low block
  · apply (renewal.approximates.rooted.climbs_redirect_of_climbs renewal.missed through).2
    rcases renewal.below_or_above through climbs with upper | lower
    · exact .inl ⟨climbs, upper⟩
    · exact .inr (reached through lower)
  · exact (climbs_redirect_of_not_climbs through).2 climbs

theorem rooted (renewal : Renewal graph entry order position parents block parent) :
    Rooted (redirect (parentIn parents) block parent) (rankIn order) entry := by
  have rooted := renewal.approximates.rooted
  have parentLower : rankIn order parent < rankIn order block := by
    rw [renewal.turn]
    exact renewal.lower
  refine ⟨?_, rooted.rank_root, ?_, ?_, ?_⟩
  · rw [redirect_other (Ne.symm renewal.notEntry)]
    exact rooted.parent_root
  · intro low high isParent lowNotEntry
    by_cases same : low = block
    · subst same
      cases redirect_same.symm.trans isParent
      exact parentLower
    · rw [redirect_other same] at isParent
      exact rooted.rank_lt isParent lowNotEntry
  · intro low high isParent
    by_cases same : low = block
    · subst same
      cases redirect_same.symm.trans isParent
      exact isSome_redirect renewal.present
    · rw [redirect_other same] at isParent
      exact isSome_redirect (rooted.closed isParent)
  · intro left right leftPresent rightPresent sameRank
    refine rank_injective ?_ sameRank
    by_cases same : left = block
    · rw [same]
      exact renewal.member
    · exact renewal.approximates.listed (isSome_of_isSome_redirect same leftPresent)

/-- A renewal that changes anything lowers the rank of a parent. -/
theorem rank_lt_of_ne (renewal : Renewal graph entry order position parents block parent)
    {before : BlockId} (isParent : parentIn parents block = some before)
    (changed : before ≠ parent) : rankIn order parent < rankIn order before := by
  have climbs := renewal.climbs (by rw [isParent]; rfl)
  rcases Climbs.iff_eq_or.1 climbs with same | ⟨above, isAbove, rest⟩
  · have turn := renewal.turn
    have lower := renewal.lower
    subst same
    omega
  · rw [isParent] at isAbove
    cases isAbove
    exact renewal.approximates.rooted.rank_lt_of_ne rest changed

variable (coherent : graph.Coherent) (enumerates : graph.Enumerates entry order)
include coherent enumerates

/-- Dominators of the block are reached through the new parent. -/
theorem eq_or_climbs (renewal : Renewal graph entry order position parents block parent)
    (dominates : graph.Dominates high block) :
    block = high ∨ Climbs (parentIn parents) parent high := by
  by_cases same : high = block
  · exact .inl same.symm
  · refine .inr ((renewal.ancestors high).2 fun other isPredecessor present => ?_)
    exact renewal.approximates.covers present (dominates.predecessor same
      ((enumerates.mem_iff other).1 (renewal.approximates.listed present))
      (coherent.mem_predecessors.1 isPredecessor))

theorem covers (renewal : Renewal graph entry order position parents block parent)
    (present : (redirect (parentIn parents) block parent low).isSome)
    (dominates : graph.Dominates high low) :
    Climbs (redirect (parentIn parents) block parent) low high := by
  by_cases same : low = block
  · subst same
    exact (climbs_redirect_self renewal.missed).2
      (renewal.eq_or_climbs coherent enumerates dominates)
  · refine renewal.climbs_of_climbs
      (renewal.approximates.covers (isSome_of_isSome_redirect same present) dominates)
      fun through lower => ?_
    have blockDominated := renewal.approximates.dominates_of_climbs coherent enumerates
      renewal.turn through dominates lower
    apply (renewal.eq_or_climbs coherent enumerates blockDominated).resolve_left
    rintro rfl
    exact absurd renewal.turn (Nat.ne_of_lt lower)

theorem shared (renewal : Renewal graph entry order position parents block parent)
    (lowNotEntry : low ≠ entry)
    (present : (redirect (parentIn parents) block parent low).isSome)
    (common : ∀ other ∈ graph.predecessors low,
      (redirect (parentIn parents) block parent other).isSome →
        Climbs (redirect (parentIn parents) block parent) other high) :
    Climbs (redirect (parentIn parents) block parent) low high := by
  have approximates := renewal.approximates
  have rooted := approximates.rooted
  have commonBefore (other : BlockId) (isPredecessor : other ∈ graph.predecessors low)
      (otherPresent : (parentIn parents other).isSome) :
      Climbs (parentIn parents) other high :=
    renewal.shrinks otherPresent
      (common other isPredecessor (isSome_redirect otherPresent))
  by_cases same : low = block
  · subst same
    exact (climbs_redirect_self renewal.missed).2 (.inr ((renewal.ancestors high).2 commonBefore))
  · have lowPresent := isSome_of_isSome_redirect same present
    refine renewal.climbs_of_climbs (approximates.shared lowNotEntry lowPresent commonBefore)
      fun through lower => ?_
    -- The predecessor of lower rank climbs through the renewed block as well.
    obtain ⟨next, isNext, rest⟩ := (Climbs.iff_eq_or.1 through).resolve_left same
    obtain ⟨other, isPredecessor, otherMember, otherLower⟩ :=
      enumerates.exists_lower coherent (approximates.listed lowPresent) lowNotEntry
    have nextLe := rooted.rank_le rest
    have turn := renewal.turn
    have otherFollows := approximates.followed lowNotEntry isNext isPredecessor otherMember
      otherLower (.inr (by omega))
    have otherThrough := otherFollows.trans rest
    have otherPresent : (parentIn parents other).isSome := by
      rcases Climbs.iff_eq_or.1 otherFollows with rfl | ⟨_, isSome, -⟩
      · exact rooted.closed isNext
      · rw [isSome]
        rfl
    have reached := common other isPredecessor (isSome_redirect otherPresent)
    rcases (rooted.climbs_redirect_of_climbs renewal.missed otherThrough).1 reached with
      ⟨-, upper⟩ | beyond
    · have := rooted.rank_le upper
      omega
    · exact beyond

omit coherent enumerates in
theorem followed {other : BlockId}
    (renewal : Renewal graph entry order position parents block parent)
    (lowNotEntry : low ≠ entry)
    (isParent : redirect (parentIn parents) block parent low = some high)
    (isPredecessor : other ∈ graph.predecessors low) (otherMember : other ∈ order)
    (otherLower : rankIn order other < rankIn order low)
    (turns : rankIn order low < position + 1 ∨ position + 1 ≤ rankIn order high) :
    Climbs (redirect (parentIn parents) block parent) other high := by
  have approximates := renewal.approximates
  have turn := renewal.turn
  by_cases same : low = block
  · subst same
    cases redirect_same.symm.trans isParent
    have otherPresent := approximates.renewed otherMember (by omega)
    have climbs := (renewal.ancestors parent).1 (.refl parent) other isPredecessor otherPresent
    refine (climbs_redirect_of_not_climbs fun through => ?_).2 climbs
    have := approximates.rooted.rank_le through
    omega
  · rw [redirect_other same] at isParent
    have lowMember : low ∈ order := approximates.listed (by rw [isParent]; rfl)
    have ranksDiffer : rankIn order low ≠ rankIn order block := fun equal =>
      same (rank_injective lowMember equal)
    have climbs := approximates.followed lowNotEntry isParent isPredecessor otherMember
      otherLower (by omega)
    refine renewal.climbs_of_climbs climbs fun through lower => ?_
    have := approximates.rooted.rank_le through
    omega

/-- The step lemma: renewing the block at the position keeps the invariant for
the next position. -/
theorem approximates_improve
    (renewal : Renewal graph entry order position parents block parent) :
    Approximates graph entry order (position + 1) (improve graph order parents block) := by
  have approximates := renewal.approximates
  rw [renewal.improve_eq]
  refine ⟨?_, ?_, ?_, ?_, ?_, ?_, ?_⟩
  · rw [List.length_set]
    exact approximates.length
  all_goals rw [parentIn_set renewal.inside]
  · exact renewal.rooted
  · intro other present
    by_cases same : other = block
    · rw [same]
      exact renewal.member
    · exact approximates.listed (isSome_of_isSome_redirect same present)
  · intro other otherMember lower
    by_cases same : other = block
    · rw [same, redirect_same]
      rfl
    · have ranksDiffer : rankIn order other ≠ rankIn order block := fun equal =>
        same (rank_injective otherMember equal)
      have turn := renewal.turn
      exact isSome_redirect (approximates.renewed otherMember (by omega))
  · intro high low present dominates
    exact renewal.covers coherent enumerates present dominates
  · intro low high lowNotEntry present common
    exact renewal.shared coherent enumerates lowNotEntry present common
  · intro low high other lowNotEntry isParent isPredecessor otherMember otherLower turns
    exact renewal.followed lowNotEntry isParent isPredecessor otherMember otherLower turns

end Renewal

end DominatorTree

end Workgroup

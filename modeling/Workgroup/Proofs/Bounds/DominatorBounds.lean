import Workgroup.Proofs.Bounds.GraphBounds
import Workgroup.Proofs.Flow.Sweep

/-!
Contract: the dominators of any function stay in range.

The table of parents has one entry per block and names blocks of the graph only;
every step of the sweeps keeps that.  The climbs therefore stay inside the table
of parents and the table of positions, with whatever fuel they are given.

Owns:
- tables of parents that are closed;
- the table of positions in the order;
- the climbs, the sweeps and the dominators in guarded form, and their agreement
  with the definitions.
-/

namespace Workgroup

/-- Predecessors have a successor, so they are blocks. -/
theorem FlowGraph.Coherent.predecessor_lt {graph : FlowGraph} (coherent : graph.Coherent)
    {block predecessor : BlockId} (edge : predecessor ∈ graph.predecessors block) :
    predecessor < graph.size := by
  have isSuccessor := coherent.mem_predecessors.1 edge
  by_contra missing
  unfold FlowGraph.successors at isSuccessor
  rw [List.getElem?_eq_none (Nat.not_lt.1 missing)] at isSuccessor
  exact List.not_mem_nil isSuccessor

namespace DominatorTree

variable {graph : FlowGraph} {order : List BlockId} {parents : List (Option BlockId)}
  {count : Nat} {block left right : BlockId}

/-! ## Closed tables -/

/-- There is one entry per block, and every parent is a block. -/
structure Closed (count : Nat) (parents : List (Option BlockId)) : Prop where
  length_eq : parents.length = count
  parent_lt : ∀ {block above}, parentIn parents block = some above → above < count

namespace Closed

theorem read_eq (closed : Closed count parents) (below : block < count) :
    Guarded.read parents block = .ok (parentIn parents block) := by
  have inside : block < parents.length := closed.length_eq ▸ below
  apply Guarded.read_eq_ok
  unfold parentIn
  rw [List.getElem?_eq_getElem inside]
  rfl

theorem write_eq (closed : Closed count parents) (below : block < count) (above : BlockId) :
    Guarded.write parents block (some above) = .ok (parents.set block (some above)) :=
  Guarded.write_eq_ok (closed.length_eq ▸ below) _

/-- No block has a parent yet. -/
theorem replicate (count : Nat) : Closed count (List.replicate count none) where
  length_eq := List.length_replicate
  parent_lt := by
    intro block above isParent
    rw [parentIn_replicate] at isParent
    exact absurd isParent nofun

theorem set (closed : Closed count parents) (below : block < count) {above : BlockId}
    (aboveBelow : above < count) : Closed count (parents.set block (some above)) where
  length_eq := by rw [List.length_set, closed.length_eq]
  parent_lt := by
    intro other otherAbove isParent
    rw [parentIn_set (closed.length_eq ▸ below)] at isParent
    unfold redirect at isParent
    split at isParent
    · cases isParent
      exact aboveBelow
    · exact closed.parent_lt isParent

end Closed

/-! ## Positions -/

/-- Writes down the positions of the blocks of a list, from some position on. -/
def numberFrom : Nat → List BlockId → List Nat → Guarded (List Nat)
  | _, [], numbers => .ok numbers
  | position, block :: rest, numbers => do
      let numbers ← Guarded.write numbers block position
      numberFrom (position + 1) rest numbers

/-- The table of positions while the part behind some blocks is missing. -/
theorem numberFrom_eq (nodup : order.Nodup) (below : ∀ block ∈ order, block < count)
    {front back : List BlockId} (listed : order = front ++ back) :
    numberFrom front.length back
        (tabulate count fun block => if block ∈ front then rankIn order block else order.length) =
      .ok (tabulate count (rankIn order)) := by
  induction back generalizing front with
  | nil =>
      rw [List.append_nil] at listed
      refine congrArg Except.ok (tabulate_congr fun block _ => ?_)
      rw [← listed]
      split
      · rfl
      · next missing => exact (List.idxOf_eq_length missing).symm
  | cons block rest inductionHypothesis =>
      have fresh : block ∉ front := by
        rw [listed] at nodup
        intro member
        exact (List.nodup_append.1 nodup).2.2 block member block List.mem_cons_self rfl
      have isHere : rankIn order block = front.length := by
        rw [listed]
        exact rank_of_split fresh
      have inside : block < count := below block (by simp [listed])
      have next := inductionHypothesis (listed.trans (List.append_cons _ _ _))
      have written : (Function.update
          (fun other => if other ∈ front then rankIn order other else order.length) block
          front.length) =
            fun other => if other ∈ front ++ [block] then rankIn order other else order.length := by
        funext other
        by_cases same : other = block
        · subst same
          simp [isHere]
        · simp [same]
      unfold numberFrom
      rw [write_tabulate inside, Guarded.ok_bind, written]
      simpa using next

/-! ## Climbs -/

/-- Climbs from two blocks until the climbs meet. -/
def guardedMeet (numbers : List Nat) (parents : List (Option BlockId)) :
    Nat → BlockId → BlockId → Guarded BlockId
  | 0, left, _ => .ok left
  | fuel + 1, left, right =>
      if left = right then .ok left
      else do
        let leftNumber ← Guarded.read numbers left
        let rightNumber ← Guarded.read numbers right
        if rightNumber < leftNumber then do
          let parent ← Guarded.read parents left
          match parent with
          | some above => guardedMeet numbers parents fuel above right
          | none => .ok right
        else do
          let parent ← Guarded.read parents right
          match parent with
          | some above => guardedMeet numbers parents fuel left above
          | none => .ok left

variable {rank : BlockId → Nat}

theorem meet_lt (closed : Closed count parents) {fuel : Nat} (leftBelow : left < count)
    (rightBelow : right < count) : meet (parentIn parents) rank fuel left right < count := by
  induction fuel generalizing left right with
  | zero => exact leftBelow
  | succ fuel inductionHypothesis =>
      unfold meet
      split
      · exact leftBelow
      · split
        · split
          · next above isParent => exact inductionHypothesis (closed.parent_lt isParent) rightBelow
          · exact rightBelow
        · split
          · next above isParent => exact inductionHypothesis leftBelow (closed.parent_lt isParent)
          · exact leftBelow

theorem guardedMeet_eq (closed : Closed count parents) (fuel : Nat) (leftBelow : left < count)
    (rightBelow : right < count) :
    guardedMeet (tabulate count rank) parents fuel left right =
      .ok (meet (parentIn parents) rank fuel left right) := by
  induction fuel generalizing left right with
  | zero => rfl
  | succ fuel inductionHypothesis =>
      unfold guardedMeet meet
      simp only [read_tabulate leftBelow, read_tabulate rightBelow, closed.read_eq leftBelow,
        closed.read_eq rightBelow, Guarded.ok_bind]
      split
      · rfl
      · split
        · cases isParent : parentIn parents left with
          | none => rfl
          | some above => exact inductionHypothesis (closed.parent_lt isParent) rightBelow
        · cases isParent : parentIn parents right with
          | none => rfl
          | some above => exact inductionHypothesis leftBelow (closed.parent_lt isParent)

/-! ## Sweeps -/

/-- Joins a predecessor to the ancestor chosen so far, if it has a parent. -/
def guardedJoin (numbers : List Nat) (parents : List (Option BlockId)) (chosen : Option BlockId)
    (predecessor : BlockId) : Guarded (Option BlockId) := do
  let parent ← Guarded.read parents predecessor
  if parent.isNone then .ok chosen
  else
    match chosen with
    | none => .ok (some predecessor)
    | some current => do
        let predecessorNumber ← Guarded.read numbers predecessor
        let currentNumber ← Guarded.read numbers current
        let common ← guardedMeet numbers parents (predecessorNumber + currentNumber + 1)
          predecessor current
        .ok (some common)

/-- Renews the parent of one block. -/
def guardedImprove (graph : FlowGraph) (numbers : List Nat) (parents : List (Option BlockId))
    (block : BlockId) : Guarded (List (Option BlockId)) := do
  let proposed ← (graph.predecessors block).foldlM (guardedJoin numbers parents) none
  match proposed with
  | none => .ok parents
  | some parent => do
      let current ← Guarded.read parents block
      if current = some parent then .ok parents
      else Guarded.write parents block (some parent)

/-- Renews the parents of all blocks but the first. -/
def guardedSweep (graph : FlowGraph) (order : List BlockId) (numbers : List Nat)
    (parents : List (Option BlockId)) : Guarded (List (Option BlockId)) := do
  let rest ← Guarded.drop order 1
  rest.foldlM (guardedImprove graph numbers) parents

/-- Sweeps until nothing changes. -/
def guardedSettle (graph : FlowGraph) (order : List BlockId) (numbers : List Nat) :
    Nat → List (Option BlockId) → Guarded (List (Option BlockId))
  | 0, parents => .ok parents
  | fuel + 1, parents => do
      let swept ← guardedSweep graph order numbers parents
      if swept = parents then .ok parents
      else guardedSettle graph order numbers fuel swept

theorem guardedJoin_eq (closed : Closed count parents) {chosen : Option BlockId}
    (chosenBelow : ∀ current, chosen = some current → current < count) (below : block < count) :
    guardedJoin (tabulate count (rankIn order)) parents chosen block =
        .ok (joinPredecessor order parents chosen block) ∧
      ∀ current, joinPredecessor order parents chosen block = some current → current < count := by
  unfold guardedJoin joinPredecessor
  rw [closed.read_eq below, Guarded.ok_bind]
  split
  · exact ⟨rfl, chosenBelow⟩
  · cases chosen with
    | none =>
        refine ⟨rfl, fun current isBlock => ?_⟩
        cases isBlock
        exact below
    | some current =>
        have currentBelow := chosenBelow current rfl
        simp only [read_tabulate below, read_tabulate currentBelow, Guarded.ok_bind,
          guardedMeet_eq closed _ below currentBelow]
        refine ⟨rfl, fun common isCommon => ?_⟩
        cases isCommon
        exact meet_lt closed below currentBelow

variable (coherent : graph.Coherent)
include coherent

theorem guardedImprove_eq (closed : Closed graph.size parents) (below : block < graph.size) :
    guardedImprove graph (tabulate graph.size (rankIn order)) parents block =
        .ok (improve graph order parents block) ∧
      Closed graph.size (improve graph order parents block) := by
  obtain ⟨proposed_eq, proposedBelow⟩ : (graph.predecessors block).foldlM
      (guardedJoin (tabulate graph.size (rankIn order)) parents) none =
        .ok (proposal graph order parents block) ∧
      ∀ current, proposal graph order parents block = some current → current < graph.size := by
    apply Guarded.foldlM_good (fun chosen : Option BlockId =>
      ∀ current, chosen = some current → current < graph.size)
    · intro chosen chosenBelow predecessor edge
      exact guardedJoin_eq closed chosenBelow (coherent.predecessor_lt edge)
    · exact fun _ isNone => absurd isNone nofun
  unfold guardedImprove improve
  rw [proposed_eq, Guarded.ok_bind]
  cases isProposed : proposal graph order parents block with
  | none => exact ⟨rfl, closed⟩
  | some parent =>
      refine ⟨?_, closed.set below (proposedBelow parent isProposed)⟩
      simp only [closed.read_eq below, Guarded.ok_bind, closed.write_eq below]
      split
      · next same =>
        rw [set_parentIn same]
      · rfl

theorem guardedSweep_eq (closed : Closed graph.size parents)
    (below : ∀ block ∈ order, block < graph.size) (notEmpty : order ≠ []) :
    guardedSweep graph order (tabulate graph.size (rankIn order)) parents =
        .ok (sweep graph order parents) ∧ Closed graph.size (sweep graph order parents) := by
  have long : 1 ≤ order.length := List.length_pos_iff.2 notEmpty
  unfold guardedSweep sweep Guarded.drop
  rw [if_pos long, Guarded.ok_bind, List.drop_one]
  apply Guarded.foldlM_good (Closed graph.size) _ closed
  intro parents closed block listed
  exact guardedImprove_eq coherent closed (below block (List.mem_of_mem_tail listed))

theorem guardedSettle_eq (closed : Closed graph.size parents)
    (below : ∀ block ∈ order, block < graph.size) (notEmpty : order ≠ []) (fuel : Nat) :
    guardedSettle graph order (tabulate graph.size (rankIn order)) fuel parents =
      .ok (settle graph order fuel parents) := by
  induction fuel generalizing parents with
  | zero => rfl
  | succ fuel inductionHypothesis =>
      obtain ⟨swept, stillClosed⟩ := guardedSweep_eq coherent closed below notEmpty
      unfold guardedSettle settle
      rw [swept, Guarded.ok_bind]
      dsimp only
      split
      · rfl
      · exact inductionHypothesis stillClosed

end DominatorTree

namespace FlowGraph

open DominatorTree

/-- The dominator tree.  Without reachable blocks there is nothing to sweep. -/
def guardedDominators (graph : FlowGraph) : Guarded DominatorTree := do
  let order ← graph.guardedReversePostorder
  let numbers ← numberFrom 0 order (List.replicate graph.size order.length)
  match order with
  | [] => .ok ⟨[], List.replicate graph.size none⟩
  | entry :: _ => do
      let parents ← Guarded.write (List.replicate graph.size none) entry (some entry)
      let settled ← guardedSettle graph order numbers (order.length * order.length + 2) parents
      .ok ⟨order, settled⟩

/-- The order of a coherent graph lists blocks, each once. -/
theorem Coherent.nodup_reversePostorder {graph : FlowGraph} (coherent : graph.Coherent) :
    graph.reversePostorder.Nodup ∧ ∀ block ∈ graph.reversePostorder, block < graph.size := by
  cases isEntry : graph.entryBlock? with
  | none =>
      rw [reversePostorder_of_no_entry isEntry]
      exact ⟨.nil, fun _ member => absurd member List.not_mem_nil⟩
  | some entry =>
      have enumerates := coherent.enumerates_reversePostorder isEntry
      exact ⟨enumerates.nodup, fun block member =>
        coherent.lt_size ((enumerates.mem_iff block).1 member)⟩

theorem guardedDominators_eq {graph : FlowGraph} (coherent : graph.Coherent) :
    graph.guardedDominators = .ok graph.dominators := by
  obtain ⟨nodup, below⟩ := coherent.nodup_reversePostorder
  have numbered : numberFrom 0 graph.reversePostorder
      (List.replicate graph.size graph.reversePostorder.length) =
        .ok (tabulate graph.size (rankIn graph.reversePostorder)) := by
    rw [← tabulate_const]
    simpa using numberFrom_eq nodup below (List.nil_append graph.reversePostorder).symm
  unfold guardedDominators dominators initialParents
  rw [guardedReversePostorder_eq coherent, Guarded.ok_bind, numbered, Guarded.ok_bind]
  cases listed : graph.reversePostorder with
  | nil => simp [settle_nil]
  | cons entry rest =>
      rw [listed] at below
      have entryBelow := below entry List.mem_cons_self
      have rooted := (Closed.replicate graph.size).set entryBelow entryBelow
      simp only [(Closed.replicate graph.size).write_eq entryBelow, Guarded.ok_bind,
        guardedSettle_eq coherent rooted below (List.cons_ne_nil entry rest)]

end FlowGraph

end Workgroup

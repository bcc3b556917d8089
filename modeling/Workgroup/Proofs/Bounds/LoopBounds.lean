import Workgroup.Proofs.Bounds.DominatorBounds
import Workgroup.Proofs.Flow.Adoption

/-!
Contract: the loop forest of any function and its postorder stay in range.

A parent is chosen from the loops that are there already, and the links of a
forest lead to loops of the forest, whatever the bodies are.

Owns:
- the adoption of a loop, the forest and the postorder in guarded form;
- the agreement of the guarded forms with the definitions.
-/

namespace Workgroup

namespace LoopForest

variable {forest : LoopForest} {entry : BlockId × OrderedSet BlockId} {handle : LoopId}

/-! ## Adoption -/

/-- The depth below a parent. -/
def guardedDepth (forest : LoopForest) : Option LoopId → Guarded Nat
  | none => .ok 1
  | some above => do
      let loop ← Guarded.read forest.loops.entries above
      .ok (loop.depth + 1)

/-- Enters a new loop among the nested ones of its parent. -/
def guardedLink (forest : LoopForest) (added : Table Loop) (handle : LoopId) :
    Option LoopId → Guarded LoopForest
  | none => .ok { loops := added, topLevel := forest.topLevel ++ [handle] }
  | some above => do
      let loop ← Guarded.read added.entries above
      let entries ← Guarded.write added.entries above
        { loop with subLoops := loop.subLoops ++ [handle] }
      .ok { forest with loops := ⟨entries⟩ }

/-- What entering a new loop comes to if its parent is there. -/
def link (forest : LoopForest) (added : Table Loop) (handle : LoopId) :
    Option LoopId → LoopForest
  | none => { loops := added, topLevel := forest.topLevel ++ [handle] }
  | some above =>
      { forest with
        loops := added.modify above fun loop =>
          { loop with subLoops := loop.subLoops ++ [handle] } }

/-- Adds a loop below the smallest loop around its header.  The new loop is read
again for the blocks that it is the innermost loop of. -/
def guardedAdopt (forest : LoopForest) (entry : BlockId × OrderedSet BlockId) :
    Guarded LoopForest := do
  let handle := forest.loops.size
  let parent := forest.smallest? (forest.around entry.1)
  let depth ← forest.guardedDepth parent
  let added := forest.loops.append ⟨entry.1, entry.2, parent, [], depth⟩
  let linked ← forest.guardedLink added handle parent
  let _ ← Guarded.read linked.loops.entries handle
  .ok linked

/-- A chosen parent is one of the loops. -/
theorem exists_loop_of_smallest? {header : BlockId} {above : LoopId}
    (chosen : forest.smallest? (forest.around header) = some above) :
    ∃ loop, forest.loops.get? above = some loop := by
  obtain ⟨-, isAround⟩ := List.mem_filter.1 (smallest?_mem chosen)
  obtain ⟨loop, isLoop, -⟩ := (Option.any_eq_true _ _).1 isAround
  exact ⟨loop, isLoop⟩

variable {parent : Option LoopId}

theorem guardedDepth_eq
    (known : ∀ above, parent = some above → ∃ loop, forest.loops.get? above = some loop) :
    forest.guardedDepth parent =
      .ok (((parent.bind forest.loops.get?).map Loop.depth).getD 0 + 1) := by
  cases parent with
  | none => rfl
  | some above =>
      obtain ⟨loop, isLoop⟩ := known above rfl
      unfold guardedDepth
      dsimp only
      rw [Guarded.read_eq_ok isLoop, Option.bind_some, isLoop]
      rfl

theorem guardedLink_eq {added : Table Loop}
    (known : ∀ above, parent = some above → ∃ loop, added.get? above = some loop) :
    forest.guardedLink added handle parent =
      .ok (forest.link added handle parent) := by
  cases parent with
  | none => rfl
  | some above =>
      obtain ⟨loop, isLoop⟩ := known above rfl
      have linked := Guarded.write_eq_modify isLoop fun loop =>
        { loop with subLoops := loop.subLoops ++ [handle] }
      unfold guardedLink link Table.modify
      dsimp only
      rw [Guarded.read_eq_ok isLoop, Guarded.ok_bind, linked]
      rfl

theorem guardedAdopt_eq (forest : LoopForest) (entry : BlockId × OrderedSet BlockId) :
    forest.guardedAdopt entry = .ok (forest.adopt entry) := by
  obtain ⟨loop, isNew⟩ : ∃ loop, (forest.adopt entry).loops.get? forest.loops.size = some loop := by
    have present : forest.loops.size < (forest.adopt entry).loops.size := by simp [size_adopt]
    exact Option.isSome_iff_exists.1 (Table.get?_isSome_iff.2 present)
  have linked : forest.adopt entry = forest.link
      (forest.loops.append ⟨entry.1, entry.2, forest.smallest? (forest.around entry.1), [],
        (((forest.smallest? (forest.around entry.1)).bind forest.loops.get?).map
          Loop.depth).getD 0 + 1⟩)
      forest.loops.size (forest.smallest? (forest.around entry.1)) := by
    unfold adopt
    cases forest.smallest? (forest.around entry.1) <;> rfl
  unfold guardedAdopt
  dsimp only
  rw [guardedDepth_eq fun _ => exists_loop_of_smallest?, Guarded.ok_bind, guardedLink_eq,
    Guarded.ok_bind]
  · rw [← linked, Guarded.read_eq_ok isNew, Guarded.ok_bind]
  · intro above chosen
    obtain ⟨around, isAround⟩ := exists_loop_of_smallest? chosen
    have below : above < forest.loops.size := Table.get?_isSome_iff.1 (isAround ▸ rfl)
    exact ⟨around, (Table.get?_append_of_lt _ below).trans isAround⟩

end LoopForest

/-- The natural loops of a graph.  The back edges are found along the reverse
postorder. -/
def FlowGraph.guardedLoopForest (graph : FlowGraph) (tree : DominatorTree) :
    Guarded LoopForest := do
  let _ ← graph.guardedReversePostorder
  (LoopForest.bodies graph tree).foldlM LoopForest.guardedAdopt .empty

theorem FlowGraph.guardedLoopForest_eq {graph : FlowGraph} (coherent : graph.Coherent)
    (tree : DominatorTree) : graph.guardedLoopForest tree = .ok (graph.loopForest tree) := by
  unfold guardedLoopForest loopForest
  rw [guardedReversePostorder_eq coherent, Guarded.ok_bind]
  exact Guarded.foldlM_eq_ok (fun forest body _ => forest.guardedAdopt_eq body) _

/-! ## Postorder -/

namespace LoopForest

variable {forest : LoopForest} {handle : LoopId}

/-- Puts a loop behind its nested loops, at the end of an order. -/
def guardedNested (forest : LoopForest) : Nat → List LoopId → LoopId → Guarded (List LoopId)
  | 0, order, _ => .ok order
  | fuel + 1, order, handle => do
      let loop ← Guarded.read forest.loops.entries handle
      let order ← loop.subLoops.foldlM (forest.guardedNested fuel) order
      .ok (order ++ [handle])

/-- Every loop, each behind all loops nested in it. -/
def guardedPostorder (forest : LoopForest) : Guarded (List LoopId) :=
  forest.topLevel.foldlM (forest.guardedNested forest.loops.size) []

/-- Appending search after search appends the searches of all. -/
theorem foldlM_guardedNested {fuel : Nat} {handles : List LoopId}
    (each : ∀ order, ∀ handle ∈ handles,
      forest.guardedNested fuel order handle = .ok (order ++ forest.nested fuel handle))
    (order : List LoopId) :
    handles.foldlM (forest.guardedNested fuel) order =
      .ok (order ++ handles.flatMap (forest.nested fuel)) := by
  rw [Guarded.foldlM_eq_ok each, List.foldl_append_eq_append, List.flatMap]

/-- With any fuel the search reads loops of the forest only. -/
theorem Nests.guardedNested_eq (nests : forest.Nests) (fuel : Nat) (order : List LoopId)
    (below : handle < forest.loops.size) :
    forest.guardedNested fuel order handle = .ok (order ++ forest.nested fuel handle) := by
  induction fuel generalizing handle order with
  | zero => exact congrArg Except.ok (List.append_nil order).symm
  | succ fuel inductionHypothesis =>
      obtain ⟨loop, isLoop⟩ := Option.isSome_iff_exists.1 (Table.get?_isSome_iff.2 below)
      have subLoopBelow : ∀ order, ∀ sub ∈ loop.subLoops,
          forest.guardedNested fuel order sub = .ok (order ++ forest.nested fuel sub) := by
        intro order sub member
        rw [nests.subLoops_eq isLoop] at member
        exact inductionHypothesis order (List.mem_range.1 (List.mem_filter.1 member).1)
      unfold guardedNested LoopForest.nested
      rw [Guarded.read_eq_ok isLoop, Guarded.ok_bind, foldlM_guardedNested subLoopBelow,
        Guarded.ok_bind, isLoop, List.append_assoc]
      rfl

theorem Nests.guardedPostorder_eq (nests : forest.Nests) :
    forest.guardedPostorder = .ok forest.postorder := by
  unfold guardedPostorder postorder
  rw [foldlM_guardedNested, List.nil_append]
  intro order handle member
  rw [nests.topLevel_eq] at member
  exact nests.guardedNested_eq _ order (List.mem_range.1 (List.mem_filter.1 member).1)

end LoopForest

end Workgroup

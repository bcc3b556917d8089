import Workgroup.Proofs.Flow.Renewal
import Workgroup.Proofs.Flow.Stepping

/-!
Contract: depth-first search as a loop with a stack, and the order it leaves.

The stack holds the nodes that the search is in, each with the number of its
neighbours that have been looked at, so that the search goes on where it was.
The loop does what the recursive search does.  What it keeps at each step is that
the nodes on the stack reach the ones above them: a neighbour that was entered
before and has not been left lies on the stack, and so a walk leads from it
back to the node that mentions it.

Owns:
- the loop, and its agreement with the recursive search;
- the invariant of the loop, its step lemma and its run lemma;
- the reverse postorder of a graph, described without the search.
-/

namespace Workgroup

/-- The progress of a search together with its stack: the nodes that it is in,
the innermost first, and how many neighbours of each it has looked at. -/
structure StackSearch where
  frames : List (Nat × Nat)
  progress : Search
deriving DecidableEq, Repr

namespace StackSearch

/-- A search that has entered its first node. -/
def start (root : Nat) : StackSearch := ⟨[(root, 0)], (Search.start []).enter root⟩

/-- Looks at the next neighbour of the innermost node, or leaves the node if
there is none.  A neighbour that has not been entered is entered. -/
def step (neighbours : Nat → List Nat) (state : StackSearch) : Option StackSearch :=
  match state.frames with
  | [] => none
  | (node, seen) :: frames =>
      match (neighbours node)[seen]? with
      | none => some ⟨frames, state.progress.leave node⟩
      | some next =>
          if state.progress.entered.contains next then
            some ⟨(node, seen + 1) :: frames, state.progress⟩
          else some ⟨(next, 0) :: (node, seen + 1) :: frames, state.progress.enter next⟩

variable {neighbours : Nat → List Nat} {bound fuel node seen next : Nat} {search : Search}
  {frames : List (Nat × Nat)} {state before after : StackSearch}

theorem step_leave (noneLeft : (neighbours node)[seen]? = none) :
    step neighbours ⟨(node, seen) :: frames, search⟩ = some ⟨frames, search.leave node⟩ := by
  unfold step
  simp only [noneLeft]

theorem step_skip (isNext : (neighbours node)[seen]? = some next) (entered : next ∈ search.entered) :
    step neighbours ⟨(node, seen) :: frames, search⟩ =
      some ⟨(node, seen + 1) :: frames, search⟩ := by
  unfold step
  simp only [isNext, List.contains_iff_mem.2 entered, if_true]

theorem step_enter (isNext : (neighbours node)[seen]? = some next)
    (fresh : next ∉ search.entered) :
    step neighbours ⟨(node, seen) :: frames, search⟩ =
      some ⟨(next, 0) :: (node, seen + 1) :: frames, search.enter next⟩ := by
  have notEntered : search.entered.contains next = false :=
    Bool.eq_false_iff.2 fun contained => fresh (List.contains_iff_mem.1 contained)
  unfold step
  simp only [isNext, notEntered, Bool.false_eq_true, if_false]

/-- A step leaves the innermost node, skips one of its neighbours or enters it. -/
theorem step_cases (stepped : step neighbours before = some after) :
    ∃ node seen frames search, before = ⟨(node, seen) :: frames, search⟩ ∧
      ((neighbours node)[seen]? = none ∧ after = ⟨frames, search.leave node⟩ ∨
        ∃ next, (neighbours node)[seen]? = some next ∧
          (next ∈ search.entered ∧ after = ⟨(node, seen + 1) :: frames, search⟩ ∨
            next ∉ search.entered ∧
              after = ⟨(next, 0) :: (node, seen + 1) :: frames, search.enter next⟩)) := by
  obtain ⟨frames, search⟩ := before
  cases frames with
  | nil => exact absurd stepped nofun
  | cons frame frames =>
      obtain ⟨node, seen⟩ := frame
      refine ⟨node, seen, frames, search, rfl, ?_⟩
      cases isNext : (neighbours node)[seen]? with
      | none =>
          rw [step_leave isNext] at stepped
          exact .inl ⟨rfl, (Option.some.inj stepped).symm⟩
      | some next =>
          refine .inr ⟨next, rfl, ?_⟩
          by_cases entered : next ∈ search.entered
          · rw [step_skip isNext entered] at stepped
            exact .inl ⟨entered, (Option.some.inj stepped).symm⟩
          · rw [step_enter isNext entered] at stepped
            exact .inr ⟨entered, (Option.some.inj stepped).symm⟩

/-! ## Agreement with the recursive search -/

/-- If single searches are what the loop does on top of its stack, so is the
search from the neighbours of a node that have not been looked at. -/
theorem steps_rest (bounded : ∀ node, ∀ next ∈ neighbours node, next < bound)
    (single : ∀ frames search next, next < bound → next ∉ search.entered →
      Search.pending bound search ≤ fuel →
      Steps (step neighbours) ⟨(next, 0) :: frames, search.enter next⟩
        ⟨frames, Search.visit neighbours fuel search next⟩) :
    ∀ rest seen search, (neighbours node).drop seen = rest →
      Search.pending bound search ≤ fuel →
      Steps (step neighbours) ⟨(node, seen) :: frames, search⟩
        ⟨frames, (rest.foldl (Search.visit neighbours fuel) search).leave node⟩ := by
  intro rest
  induction rest with
  | nil =>
      intro seen search isRest _
      exact .head (step_leave (List.getElem?_eq_none (List.drop_eq_nil_iff.1 isRest))) (.refl _)
  | cons next rest inductionHypothesis =>
      intro seen search isRest enough
      have isNext : (neighbours node)[seen]? = some next := by
        have first : ((neighbours node).drop seen)[0]? = some next := by rw [isRest]; rfl
        rwa [List.getElem?_drop] at first
      have isLater : (neighbours node).drop (seen + 1) = rest := by
        rw [← List.drop_drop, isRest]
        rfl
      have below : next < bound := bounded node next (List.mem_of_getElem? isNext)
      obtain ⟨found, explores⟩ := Search.visit_explores bounded fuel search next enough below
      have further := inductionHypothesis (seen + 1)
        (Search.visit neighbours fuel search next) isLater (Nat.le_trans explores.pending_le enough)
      rw [List.foldl_cons]
      by_cases entered : next ∈ search.entered
      · have kept : Search.visit neighbours fuel search next = search := by
          cases fuel with
          | zero => rfl
          | succ fuel => exact if_pos (List.contains_iff_mem.2 entered)
        rw [kept] at further ⊢
        exact .head (step_skip isNext entered) further
      · refine .head (step_enter isNext entered) ?_
        exact (single _ search next below entered enough).trans further

/-- Entering a node, the loop does what the recursive search does there. -/
theorem steps_visit (bounded : ∀ node, ∀ next ∈ neighbours node, next < bound) :
    ∀ fuel frames search next, next < bound → next ∉ search.entered →
      Search.pending bound search ≤ fuel →
      Steps (step neighbours) ⟨(next, 0) :: frames, search.enter next⟩
        ⟨frames, Search.visit neighbours fuel search next⟩ := by
  intro fuel
  induction fuel with
  | zero =>
      intro frames search next below fresh enough
      have := Search.pending_pos below fresh
      omega
  | succ fuel inductionHypothesis =>
      intro frames search next below fresh enough
      have less := Search.pending_enter_lt below fresh
      have visited : Search.visit neighbours (fuel + 1) search next =
          ((neighbours next).foldl (Search.visit neighbours fuel) (search.enter next)).leave next :=
        if_neg fun contained => fresh (List.contains_iff_mem.1 contained)
      rw [visited]
      exact steps_rest bounded inductionHypothesis _ 0 _ List.drop_zero (by omega)

/-! ## The invariant of the loop -/

/-- What holds of the search from a node at every step: the nodes on the stack
reach those above them, what has been entered is on the stack or left, and a
neighbour of a node that has been left was left before it or leads back to it. -/
structure Backtracks (neighbours : Nat → List Nat) (state : StackSearch) : Prop where
  nested : state.frames.Pairwise fun upper lower =>
    ∃ nodes, Walk neighbours lower.1 upper.1 nodes
  entered : ∀ node, node ∈ state.progress.entered ↔
    node ∈ state.frames.map Prod.fst ∨ node ∈ state.progress.finished
  looked : ∀ frame ∈ state.frames, ∀ next ∈ (neighbours frame.1).take frame.2,
    next ∈ state.progress.entered
  left : ∀ front node back, state.progress.finished = front ++ node :: back →
    ∀ next ∈ neighbours node, next ∈ back ∨ ∃ nodes, Walk neighbours next node nodes

/-- One more neighbour is among those looked at. -/
theorem mem_take_succ {other : Nat} (isNext : (neighbours node)[seen]? = some next)
    (isLooked : other ∈ (neighbours node).take (seen + 1)) :
    other ∈ (neighbours node).take seen ∨ other = next := by
  rw [List.take_add_one, isNext] at isLooked
  exact (List.mem_append.1 isLooked).imp_right List.mem_singleton.1

namespace Backtracks

theorem start (root : Nat) : Backtracks neighbours (start root) where
  nested := List.pairwise_singleton _ _
  entered := fun node => by simp [StackSearch.start, Search.start, Search.enter]
  looked := fun frame member next isLooked => by
    rw [List.mem_singleton.1 member] at isLooked
    exact absurd isLooked List.not_mem_nil
  left := fun front node back listed => by
    have none : ([] : List Nat) = front ++ node :: back := listed
    simp at none

/-- A neighbour that is entered already has been looked at. -/
theorem skip (backtracks : Backtracks neighbours ⟨(node, seen) :: frames, search⟩)
    (isNext : (neighbours node)[seen]? = some next) (entered : next ∈ search.entered) :
    Backtracks neighbours ⟨(node, seen + 1) :: frames, search⟩ where
  nested := List.pairwise_cons.2 (List.pairwise_cons.1 backtracks.nested)
  entered := backtracks.entered
  looked := by
    intro frame member other isLooked
    rcases List.mem_cons.1 member with rfl | member
    · rcases mem_take_succ isNext isLooked with isLooked | rfl
      · exact backtracks.looked (node, seen) List.mem_cons_self other isLooked
      · exact entered
    · exact backtracks.looked frame (List.mem_cons_of_mem _ member) other isLooked
  left := backtracks.left

/-- A neighbour that is not entered yet is put on the stack above the node. -/
theorem enter (backtracks : Backtracks neighbours ⟨(node, seen) :: frames, search⟩)
    (isNext : (neighbours node)[seen]? = some next) :
    Backtracks neighbours ⟨(next, 0) :: (node, seen + 1) :: frames, search.enter next⟩ where
  nested := by
    obtain ⟨below, nested⟩ := List.pairwise_cons.1 backtracks.nested
    have edge : next ∈ neighbours node := List.mem_of_getElem? isNext
    refine List.pairwise_cons.2 ⟨fun frame member => ?_, List.pairwise_cons.2 ⟨below, nested⟩⟩
    rcases List.mem_cons.1 member with rfl | member
    · exact ⟨[node, next], .step edge (.here next)⟩
    · obtain ⟨nodes, walk⟩ := below frame member
      exact ⟨nodes ++ [next], walk.snoc edge⟩
  entered := by
    intro other
    have enteredBefore := backtracks.entered other
    show other ∈ next :: search.entered ↔ other ∈ next :: _ ∨ other ∈ search.finished
    rw [List.mem_cons, List.mem_cons, enteredBefore, or_assoc]
    rfl
  looked := by
    intro frame member other isLooked
    rcases List.mem_cons.1 member with rfl | member
    · exact absurd isLooked List.not_mem_nil
    · rcases List.mem_cons.1 member with rfl | member
      · rcases mem_take_succ isNext isLooked with isLooked | rfl
        · exact List.mem_cons_of_mem next
            (backtracks.looked (node, seen) List.mem_cons_self other isLooked)
        · exact List.mem_cons_self
      · exact List.mem_cons_of_mem next
          (backtracks.looked frame (List.mem_cons_of_mem _ member) other isLooked)
  left := backtracks.left

/-- A node all of whose neighbours have been looked at is left.  Those of them
that have not been left before are on the stack, at or below the node. -/
theorem pop (backtracks : Backtracks neighbours ⟨(node, seen) :: frames, search⟩)
    (noneLeft : (neighbours node)[seen]? = none) :
    Backtracks neighbours ⟨frames, search.leave node⟩ where
  nested := (List.pairwise_cons.1 backtracks.nested).2
  entered := by
    intro other
    have enteredBefore := backtracks.entered other
    show other ∈ search.entered ↔ other ∈ frames.map Prod.fst ∨ other ∈ node :: search.finished
    rw [enteredBefore, List.map_cons, List.mem_cons, List.mem_cons]
    tauto
  looked := fun frame member => backtracks.looked frame (List.mem_cons_of_mem _ member)
  left := by
    intro front other back listed next edge
    have listed : node :: search.finished = front ++ other :: back := listed
    cases front with
    | cons first front =>
        obtain ⟨-, rest⟩ := List.cons.inj listed
        exact backtracks.left front other back rest next edge
    | nil =>
        obtain ⟨rfl, rfl⟩ := List.cons.inj listed
        have allLooked : (neighbours node).take seen = neighbours node :=
          List.take_of_length_le (List.getElem?_eq_none_iff.1 noneLeft)
        have isEntered := backtracks.looked (node, seen) List.mem_cons_self next
          (by rw [allLooked]; exact edge)
        rcases (backtracks.entered next).1 isEntered with onStack | finished
        · obtain ⟨frame, member, rfl⟩ := List.mem_map.1 onStack
          rcases List.mem_cons.1 member with rfl | member
          · exact .inr ⟨[node], .here node⟩
          · exact .inr ((List.pairwise_cons.1 backtracks.nested).1 frame member)
        · exact .inl finished

/-- The step lemma. -/
theorem step (backtracks : Backtracks neighbours before)
    (stepped : StackSearch.step neighbours before = some after) : Backtracks neighbours after := by
  obtain ⟨node, seen, frames, search, rfl, ⟨noneLeft, rfl⟩ | ⟨next, isNext, taken⟩⟩ :=
    step_cases stepped
  · exact backtracks.pop noneLeft
  · rcases taken with ⟨entered, rfl⟩ | ⟨-, rfl⟩
    · exact backtracks.skip isNext entered
    · exact backtracks.enter isNext

end Backtracks

end StackSearch

/-! ## The reverse postorder -/

namespace FlowGraph

variable {graph : FlowGraph} {entry : BlockId}

/-- No circuit leads through a block that the entry reaches. -/
def Acyclic (graph : FlowGraph) : Prop :=
  ∀ {block next}, graph.Reachable block → next ∈ graph.successors block →
    ∀ blocks, ¬ Walk graph.successors next block blocks

/-- An order lists the reachable blocks, each once, from the entry on.  Every
other block has a predecessor in front of it, and an edge leads back in the
order only if its end reaches its start; without circuits the order is
topological. -/
structure SearchOrder (graph : FlowGraph) (entry : BlockId) (order : List BlockId) : Prop where
  mem_iff : ∀ block, block ∈ order ↔ graph.Reachable block
  nodup : order.Nodup
  head : order.head? = some entry
  preceded : ∀ block ∈ order, block ≠ entry →
    ∃ other ∈ graph.predecessors block, other ∈ order ∧ order.idxOf other < order.idxOf block
  retreats : ∀ start ∈ order, ∀ stop ∈ order, stop ∈ graph.successors start →
    order.idxOf stop ≤ order.idxOf start → ∃ blocks, Walk graph.successors stop start blocks
  topological : graph.Acyclic → ∀ start ∈ order, ∀ stop ∈ order,
    stop ∈ graph.successors start → order.idxOf start < order.idxOf stop

/-- The loop with the stack ends, and leaves the reverse postorder. -/
theorem Coherent.stackSearch_ends (coherent : graph.Coherent)
    (isEntry : graph.entryBlock? = some entry) :
    ∃ last, EndsIn (StackSearch.step graph.successors) (.start entry) last ∧
      last.progress.finished = graph.reversePostorder := by
  have bounded : ∀ block, ∀ next ∈ graph.successors block, next < graph.size :=
    fun _ _ edge => coherent.successor_lt edge
  refine ⟨⟨[], Search.visit graph.successors graph.size (.start []) entry⟩, ⟨?_, rfl⟩, ?_⟩
  · exact StackSearch.steps_visit bounded graph.size [] (.start []) entry
      (coherent.entry_lt isEntry) List.not_mem_nil (Search.pending_le _)
  · unfold reversePostorder
    rw [isEntry]

/-- The end of an edge is listed behind its start or reaches it. -/
theorem Coherent.mem_or_exists_walk (coherent : graph.Coherent)
    (isEntry : graph.entryBlock? = some entry) {front back : List BlockId} {block next : BlockId}
    (listed : graph.reversePostorder = front ++ block :: back)
    (edge : next ∈ graph.successors block) :
    next ∈ back ∨ ∃ blocks, Walk graph.successors next block blocks := by
  obtain ⟨last, ends, isOrder⟩ := coherent.stackSearch_ends isEntry
  have backtracks := ends.steps.keeps StackSearch.Backtracks.step (.start entry)
  exact backtracks.left front block back (isOrder.trans listed) next edge

/-- A block that is listed behind another one has the greater index. -/
theorem idxOf_lt_of_mem_back {order front back : List BlockId} {block other : BlockId}
    (nodup : order.Nodup) (listed : order = front ++ block :: back) (behind : other ∈ back) :
    order.idxOf block < order.idxOf other := by
  subst listed
  obtain ⟨-, backNodup, disjoint⟩ := List.nodup_append.1 nodup
  have blockFresh : block ∉ front := fun member =>
    disjoint block member block List.mem_cons_self rfl
  have otherFresh : other ∉ front := fun member =>
    disjoint other member other (List.mem_cons_of_mem _ behind) rfl
  have different : block ≠ other := fun same => (List.nodup_cons.1 backNodup).1 (same ▸ behind)
  rw [List.idxOf_append_of_notMem blockFresh, List.idxOf_append_of_notMem otherFresh,
    List.idxOf_cons_self, List.idxOf_cons_ne _ different]
  omega

theorem Coherent.searchOrder_reversePostorder (coherent : graph.Coherent)
    (isEntry : graph.entryBlock? = some entry) :
    graph.SearchOrder entry graph.reversePostorder := by
  have enumerates := coherent.enumerates_reversePostorder isEntry
  have retreats : ∀ start ∈ graph.reversePostorder, ∀ stop ∈ graph.successors start,
      graph.reversePostorder.idxOf stop ≤ graph.reversePostorder.idxOf start →
      ∃ blocks, Walk graph.successors stop start blocks := by
    intro start startMember stop edge notLater
    obtain ⟨front, back, listed⟩ := List.append_of_mem startMember
    refine (coherent.mem_or_exists_walk isEntry listed edge).resolve_left fun behind => ?_
    have later := idxOf_lt_of_mem_back enumerates.nodup listed behind
    omega
  refine ⟨enumerates.mem_iff, enumerates.nodup, enumerates.head, ?_, ?_, ?_⟩
  · intro block member notEntry
    exact enumerates.exists_lower coherent member notEntry
  · exact fun start startMember stop _ => retreats start startMember stop
  · intro acyclic start startMember stop _ edge
    by_contra notLater
    obtain ⟨blocks, walk⟩ := retreats start startMember stop edge (Nat.le_of_not_lt notLater)
    exact acyclic ((enumerates.mem_iff start).1 startMember) edge blocks walk

end FlowGraph

/-- The reverse postorder of a function with an entry is what the search with a
stack leaves when it ends.  It lists exactly the blocks that the entry reaches,
each once, the entry first and every other block behind one of its
predecessors.  An edge that leads to a block no later in the order lies on a
circuit, so that without circuits the order is topological. -/
theorem Function.reversePostorder_exact (function : Function) {entry : BlockId}
    (isEntry : function.graph.entryBlock? = some entry) :
    (∃ last, EndsIn (StackSearch.step function.graph.successors) (.start entry) last ∧
      last.progress.finished = function.graph.reversePostorder) ∧
    function.graph.SearchOrder entry function.graph.reversePostorder :=
  ⟨function.coherent_graph.stackSearch_ends isEntry,
    function.coherent_graph.searchOrder_reversePostorder isEntry⟩

/-! ## A circuit with two entries -/

namespace TwoEntries

/-- The entry leads into both blocks of a circuit, one of which leaves it; a
block that is not reached leads into it as well. -/
def kernel : Function where
  name := "k"
  kind := .kernel
  arguments := [⟨"c", .bool⟩]
  blocks := ⟨[⟨some "entry", [0]⟩, ⟨some "left", [1]⟩, ⟨some "right", [2]⟩,
    ⟨some "exit", [3]⟩, ⟨some "dead", [4]⟩]⟩
  instructions := ⟨[.condBranch (.argument 0) 1 2, .branch 2, .condBranch (.argument 0) 1 3,
    .ret none, .branch 1]⟩
  valueNames := .empty

theorem has_entry : kernel.graph.entryBlock? = some 0 := by decide +kernel

/-- The edge from the right block back to the left one is no later in the order,
and the left block reaches the right one. -/
theorem circuit_listed : kernel.graph.entryBlock? = some 0 ∧
    kernel.graph.reversePostorder = [0, 1, 2, 3] ∧ kernel.graph.SearchOrder 0 [0, 1, 2, 3] ∧
    ∃ blocks, Walk kernel.graph.successors 1 2 blocks := by
  have listed : kernel.graph.reversePostorder = [0, 1, 2, 3] := by decide +kernel
  obtain ⟨-, order⟩ := kernel.reversePostorder_exact has_entry
  rw [listed] at order
  exact ⟨has_entry, listed, order, order.retreats 2 (by decide) 1 (by decide) (by decide +kernel)
    (by decide)⟩

end TwoEntries

end Workgroup

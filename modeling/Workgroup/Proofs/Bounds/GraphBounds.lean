import Workgroup.Flow.Order
import Workgroup.Proofs.Bounds.Guarded
import Workgroup.Proofs.Flow.Walk

/-!
Contract: the graph and the reverse postorder of any function stay in range.

The tables of a graph are filled edge by edge, and an edge to a missing block is
dropped before it is used as an index.  The search marks blocks in a table with
one entry per block and follows edges of the graph only.

Owns:
- the successors of a block, the graph and the reverse postorder in guarded form;
- the tables that belong to a set of edges, and how one more edge changes them;
- the agreement of the guarded forms with the definitions.
-/

namespace Workgroup

/-! ## Edges -/

/-- The successors of a block, read off the storage at its terminator. -/
def Function.guardedSuccessors (function : Function) (block : BlockId) :
    Guarded (List BlockId) :=
  match function.terminator? block with
  | none => .ok []
  | some terminator => do
      let instruction ← Guarded.read function.instructions.entries terminator
      .ok instruction.successors

/-- What is stored behind the terminator of a block. -/
theorem Function.exists_stored_of_terminator? {function : Function} {block : BlockId}
    {terminator : InstId} (isLast : function.terminator? block = some terminator) :
    ∃ instruction, function.instructions.get? terminator = some instruction := by
  obtain ⟨-, isTerminator⟩ := Option.filter_eq_some_iff.1 isLast
  obtain ⟨instruction, stored, -⟩ := (Option.any_eq_true _ _).1 isTerminator
  exact ⟨instruction, stored⟩

theorem Function.guardedSuccessors_eq (function : Function) (block : BlockId) :
    function.guardedSuccessors block = .ok (function.successors block) := by
  unfold guardedSuccessors successors terminatorInstruction?
  cases isLast : function.terminator? block with
  | none => rfl
  | some terminator =>
      obtain ⟨instruction, stored⟩ := exists_stored_of_terminator? isLast
      simp [Guarded.read_eq_ok stored, stored]

/-- One more number passes a filter, and no larger one does. -/
theorem filter_range_concat {count block : Nat} {before after : Nat → Bool}
    (below : block < count) (passes : after block = true) (failed : before block = false)
    (later : ∀ other, block < other → before other = false)
    (same : ∀ other, other ≠ block → after other = before other) :
    (List.range count).filter after = (List.range count).filter before ++ [block] := by
  obtain ⟨rest, rfl⟩ : ∃ rest, count = block + 1 + rest := ⟨count - (block + 1), by omega⟩
  have noneLater (keep : Nat → Bool) (fails : ∀ other, block < other → keep other = false) :
      ((List.range rest).map (block + 1 + ·)).filter keep = [] := by
    rw [List.filter_eq_nil_iff]
    intro other member
    obtain ⟨offset, -, rfl⟩ := List.mem_map.1 member
    simp [fails (block + 1 + offset) (by omega)]
  have sameEarlier : (List.range block).filter after = (List.range block).filter before :=
    List.filter_congr fun other member => same other (Nat.ne_of_lt (List.mem_range.1 member))
  rw [List.range_add, List.range_succ]
  simp only [List.filter_append, List.filter_singleton, passes, failed, sameEarlier]
  rw [noneLater before later, noneLater after]
  · simp
  · intro other isLater
    rw [same other (Nat.ne_of_gt isLater)]
    exact later other isLater

/-- Tables of successors and predecessors while they are filled. -/
structure EdgeTables where
  successors : List (List BlockId)
  predecessors : List (List BlockId)

namespace EdgeTables

/-- Enters an edge, unless its end is missing or it is there already. -/
def enter (count : Nat) (block : BlockId) (tables : EdgeTables) (target : BlockId) :
    Guarded EdgeTables :=
  if target < count then do
    let known ← Guarded.read tables.successors block
    if known.contains target then .ok tables
    else do
      let successors ← Guarded.write tables.successors block (known ++ [target])
      let sources ← Guarded.read tables.predecessors target
      let predecessors ← Guarded.write tables.predecessors target (sources ++ [block])
      .ok ⟨successors, predecessors⟩
  else .ok tables

/-- The tables of the edges that lead from each block. -/
def ofEdges (count : Nat) (edges : BlockId → List BlockId) : EdgeTables where
  successors := tabulate count edges
  predecessors := tabulate count fun target =>
    (List.range count).filter fun block => (edges block).contains target

/-- The edges from a block after one more was entered. -/
def addTarget (count : Nat) (known : List BlockId) (target : BlockId) : List BlockId :=
  if target < count ∧ target ∉ known then known ++ [target] else known

variable {count : Nat} {block target : BlockId} {edges : BlockId → List BlockId}

/-- If no later block has edges yet, entering an edge keeps the tables those of
the edges. -/
theorem enter_ofEdges (below : block < count)
    (later : ∀ other, block < other → edges other = []) :
    enter count block (ofEdges count edges) target =
      .ok (ofEdges count
        (Function.update edges block (addTarget count (edges block) target))) := by
  unfold enter addTarget
  by_cases inside : target < count
  · by_cases listed : target ∈ edges block
    · simp [ofEdges, inside, read_tabulate below, listed]
    · simp only [ofEdges, inside, read_tabulate below, listed, if_true, Guarded.ok_bind,
        List.contains_iff_mem, if_false, write_tabulate below, read_tabulate inside,
        write_tabulate inside, true_and, not_false_eq_true, Except.ok.injEq, mk.injEq]
      apply tabulate_congr
      intro other _
      by_cases same : other = target
      · subst same
        rw [Function.update_self]
        refine (filter_range_concat below ?_ ?_ ?_ ?_).symm
        · simp
        · simpa using listed
        · intro block isLater
          simp [later block isLater]
        · intro block different
          rw [Function.update_of_ne different]
      · rw [Function.update_of_ne same]
        apply List.filter_congr
        intro source _
        by_cases isBlock : source = block
        · subst isBlock
          simp [same]
        · rw [Function.update_of_ne isBlock]
  · simp [inside]

/-- Entering the targets of a block one by one. -/
theorem foldlM_enter (below : block < count)
    (later : ∀ other, block < other → edges other = []) (targets : List BlockId) :
    targets.foldlM (enter count block) (ofEdges count edges) =
      .ok (ofEdges count
        (Function.update edges block (targets.foldl (addTarget count) (edges block)))) := by
  let view (known : List BlockId) : EdgeTables := ofEdges count (Function.update edges block known)
  have steps : ∀ known, ∀ target ∈ targets,
      enter count block (view known) target = .ok (view (addTarget count known target)) := by
    intro known target _
    rw [enter_ofEdges below, Function.update_self, Function.update_idem]
    intro other isLater
    rw [Function.update_of_ne (Nat.ne_of_gt isLater)]
    exact later other isLater
  have folded := Guarded.foldlM_view view steps (edges block)
  have start : view (edges block) = ofEdges count edges := by
    show ofEdges count (Function.update edges block (edges block)) = _
    rw [Function.update_eq_self]
  rwa [start] at folded

/-- The targets that are entered are those in range, in order of first mention. -/
theorem foldl_addTarget (targets known : List BlockId) :
    targets.foldl (addTarget count) known =
      known ++ (firstMentions (targets.filter (· < count))).filter (· ∉ known) := by
  induction targets generalizing known with
  | nil => simp [firstMentions]
  | cons target targets inductionHypothesis =>
      rw [List.foldl_cons, inductionHypothesis]
      unfold addTarget
      by_cases inside : target < count
      · by_cases listed : target ∈ known
        · simp only [inside, listed, not_true, and_false, if_false, decide_true,
            List.filter_cons_of_pos, firstMentions, decide_false, Bool.false_eq_true,
            not_false_eq_true, List.filter_cons_of_neg, List.filter_filter]
          congr 1
          apply List.filter_congr
          intro other _
          by_cases same : other = target <;> simp [same, listed]
        · simp only [inside, listed, not_false_eq_true, and_self, if_true, decide_true,
            List.filter_cons_of_pos, firstMentions, List.filter_filter, List.append_assoc,
            List.singleton_append]
          congr 2
          apply List.filter_congr
          intro other _
          by_cases same : other = target <;> simp [same]
      · simp [inside]

theorem foldl_addTarget_nil (targets : List BlockId) :
    targets.foldl (addTarget count) [] = firstMentions (targets.filter (· < count)) := by
  simp [foldl_addTarget]

theorem ofEdges_nil (count : Nat) :
    ofEdges count (fun _ => []) = ⟨List.replicate count [], List.replicate count []⟩ := by
  simp [ofEdges, tabulate_const]

end EdgeTables

/-! ## The graph -/

namespace Function

/-- Enters the edges from a block. -/
def enterBlock (function : Function) (tables : EdgeTables) (block : BlockId) :
    Guarded EdgeTables := do
  let targets ← function.guardedSuccessors block
  targets.foldlM (EdgeTables.enter function.blocks.size block) tables

/-- The graph, filled in block by block. -/
def guardedGraph (function : Function) : Guarded FlowGraph := do
  let tables ← function.blocks.handles.foldlM function.enterBlock
    ⟨List.replicate function.blocks.size [], List.replicate function.blocks.size []⟩
  .ok ⟨function.entryBlock?, tables.successors, tables.predecessors⟩

/-- The edges from a block that have been entered when those from the blocks
below a bound have been. -/
def edgesBelow (function : Function) (bound block : BlockId) : List BlockId :=
  if block < bound then
    firstMentions ((function.successors block).filter (· < function.blocks.size))
  else []

theorem update_edgesBelow (function : Function) (bound : BlockId) :
    Function.update (function.edgesBelow bound) bound
        (firstMentions ((function.successors bound).filter (· < function.blocks.size))) =
      function.edgesBelow (bound + 1) := by
  funext block
  unfold edgesBelow
  rcases Nat.lt_trichotomy block bound with earlier | rfl | later
  · rw [Function.update_of_ne (Nat.ne_of_lt earlier), if_pos earlier,
      if_pos (Nat.lt_succ_of_lt earlier)]
  · rw [Function.update_self, if_pos (Nat.lt_succ_self block)]
  · rw [Function.update_of_ne (Nat.ne_of_gt later), if_neg (Nat.lt_asymm later),
      if_neg (Nat.not_lt.2 later)]

theorem enterBlock_edgesBelow {function : Function} {bound : BlockId}
    (below : bound < function.blocks.size) :
    function.enterBlock (.ofEdges function.blocks.size (function.edgesBelow bound)) bound =
      .ok (.ofEdges function.blocks.size (function.edgesBelow (bound + 1))) := by
  have later : ∀ other, bound < other → function.edgesBelow bound other = [] :=
    fun other isLater => if_neg (Nat.lt_asymm isLater)
  have nothingYet : function.edgesBelow bound bound = [] := if_neg (Nat.lt_irrefl bound)
  unfold enterBlock
  rw [guardedSuccessors_eq, Guarded.ok_bind, EdgeTables.foldlM_enter below later, nothingYet,
    EdgeTables.foldl_addTarget_nil, update_edgesBelow]

/-- The edges are entered block by block. -/
theorem foldlM_enterBlock {function : Function} {bound : Nat}
    (inside : bound ≤ function.blocks.size) :
    (List.range bound).foldlM function.enterBlock (.ofEdges function.blocks.size fun _ => []) =
      .ok (.ofEdges function.blocks.size (function.edgesBelow bound)) := by
  induction bound with
  | zero => rfl
  | succ bound inductionHypothesis =>
      rw [List.range_succ, List.foldlM_append, inductionHypothesis (Nat.le_of_succ_le inside),
        Guarded.ok_bind, List.foldlM_cons, enterBlock_edgesBelow inside]
      rfl

theorem guardedGraph_eq (function : Function) : function.guardedGraph = .ok function.graph := by
  have sameEdges : ∀ block < function.blocks.size,
      function.edgesBelow function.blocks.size block =
        firstMentions ((function.successors block).filter (· < function.blocks.size)) :=
    fun block below => if_pos below
  unfold guardedGraph
  rw [← EdgeTables.ofEdges_nil, Table.handles, foldlM_enterBlock (Nat.le_refl _), Guarded.ok_bind]
  unfold graph FlowGraph.ofSuccessors
  simp only [EdgeTables.ofEdges, Except.ok.injEq, FlowGraph.mk.injEq, true_and]
  constructor
  · exact tabulate_congr sameEdges
  · apply tabulate_congr
    intro target _
    apply List.filter_congr
    intro block member
    rw [sameEdges block (List.mem_range.1 member)]

end Function

/-! ## The reverse postorder -/

/-- The progress of a search that marks blocks in a table. -/
structure Marking where
  visited : List Bool
  /-- Blocks that the search has left, the last one first. -/
  finished : List BlockId

namespace Marking

/-- The marks of the blocks that a search has entered. -/
def ofSearch (count : Nat) (search : Search) : Marking where
  visited := tabulate count search.entered.contains
  finished := search.finished

/-- Searches from a block, at most as deep as the fuel allows. -/
def visit (graph : FlowGraph) : Nat → Marking → BlockId → Guarded Marking
  | 0, marking, _ => .ok marking
  | fuel + 1, marking, block => do
      let isVisited ← Guarded.read marking.visited block
      if isVisited then .ok marking
      else do
        let visited ← Guarded.write marking.visited block true
        let inner ← (graph.successors block).foldlM (visit graph fuel) ⟨visited, marking.finished⟩
        .ok ⟨inner.visited, block :: inner.finished⟩

variable {graph : FlowGraph} {block : BlockId}

/-- With any fuel the search marks what the search without marks enters. -/
theorem visit_ofSearch (coherent : graph.Coherent) (fuel : Nat) (search : Search)
    (below : block < graph.size) :
    visit graph fuel (ofSearch graph.size search) block =
      .ok (ofSearch graph.size (Search.visit graph.successors fuel search block)) := by
  induction fuel generalizing search block with
  | zero => rfl
  | succ fuel inductionHypothesis =>
      unfold visit Search.visit
      simp only [ofSearch, read_tabulate below, Guarded.ok_bind]
      split
      · rfl
      · have marked : (⟨tabulate graph.size (Function.update search.entered.contains block true),
            search.finished⟩ : Marking) = ofSearch graph.size (search.enter block) := by
          unfold ofSearch Search.enter
          congr 2
          funext other
          by_cases same : other = block <;> simp [same]
        rw [write_tabulate below, Guarded.ok_bind, marked]
        have steps : ∀ inner, ∀ next ∈ graph.successors block,
            visit graph fuel (ofSearch graph.size inner) next =
              .ok (ofSearch graph.size (Search.visit graph.successors fuel inner next)) :=
          fun inner next edge => inductionHypothesis inner (coherent.successor_lt edge)
        rw [Guarded.foldlM_view (ofSearch graph.size) steps]
        rfl

end Marking

namespace FlowGraph

/-- The blocks reachable from the entry, in reverse postorder. -/
def guardedReversePostorder (graph : FlowGraph) : Guarded (List BlockId) :=
  match graph.entryBlock? with
  | none => .ok []
  | some entry => do
      let marking ← Marking.visit graph graph.size ⟨List.replicate graph.size false, []⟩ entry
      .ok marking.finished

theorem guardedReversePostorder_eq {graph : FlowGraph} (coherent : graph.Coherent) :
    graph.guardedReversePostorder = .ok graph.reversePostorder := by
  unfold guardedReversePostorder reversePostorder
  cases isEntry : graph.entryBlock? with
  | none => rfl
  | some entry =>
      have unmarked : (⟨List.replicate graph.size false, []⟩ : Marking) =
          .ofSearch graph.size (.start []) := by
        rw [← tabulate_const]
        rfl
      simp only [unmarked, Marking.visit_ofSearch coherent _ _ (coherent.entry_lt isEntry)]
      rfl

end FlowGraph

end Workgroup

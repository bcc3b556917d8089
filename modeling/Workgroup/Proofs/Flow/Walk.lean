import Mathlib.Data.List.Basic
import Workgroup.Flow.Graph

/-!
Contract: walks along neighbour lists, and what it means for a block of a
graph to be reached and to be dominated.

A walk lists its nodes from the first to the last, so a block lies on a walk
exactly if it is a member of that list, and a walk is cut and joined where a
list is.

Owns:
- walks, their joining, cutting and reversal;
- reachability and dominance, stated over walks from the entry;
- what the look-ups of the graph of a function have in common;
- the edges of that graph, read off the terminators, and its blocks.
-/

namespace Workgroup

/-- A walk from a node to a node, with all nodes on it in order. -/
inductive Walk (neighbours : Nat → List Nat) : Nat → Nat → List Nat → Prop where
  | here (node : Nat) : Walk neighbours node node [node]
  | step {start next stop : Nat} {nodes : List Nat} (edge : next ∈ neighbours start)
      (rest : Walk neighbours next stop nodes) : Walk neighbours start stop (start :: nodes)

namespace Walk

variable {neighbours : Nat → List Nat} {start middle stop : Nat} {nodes front back : List Nat}

theorem start_eq_head (walk : Walk neighbours start stop nodes) :
    ∃ tail, nodes = start :: tail := by
  cases walk with
  | here => exact ⟨[], rfl⟩
  | step edge rest => exact ⟨_, rfl⟩

theorem start_mem (walk : Walk neighbours start stop nodes) : start ∈ nodes := by
  obtain ⟨tail, rfl⟩ := walk.start_eq_head
  exact List.mem_cons_self

theorem stop_eq_last (walk : Walk neighbours start stop nodes) :
    ∃ init, nodes = init ++ [stop] := by
  induction walk with
  | here node => exact ⟨[], rfl⟩
  | @step start _ _ _ edge rest inductionHypothesis =>
      obtain ⟨init, rfl⟩ := inductionHypothesis
      exact ⟨start :: init, rfl⟩

theorem stop_mem (walk : Walk neighbours start stop nodes) : stop ∈ nodes := by
  obtain ⟨init, rfl⟩ := walk.stop_eq_last
  simp

/-- A walk goes on where another one ends; the common node is listed once. -/
theorem append {more : List Nat} (first : Walk neighbours start middle nodes)
    (second : Walk neighbours middle stop (middle :: more)) :
    Walk neighbours start stop (nodes ++ more) := by
  induction first with
  | here => exact second
  | step edge rest inductionHypothesis => exact .step edge (inductionHypothesis second)

theorem snoc (walk : Walk neighbours start middle nodes) (edge : stop ∈ neighbours middle) :
    Walk neighbours start stop (nodes ++ [stop]) :=
  walk.append (.step edge (.here stop))

/-- Joins walks when only the members of the result matter. -/
theorem trans {more : List Nat} (first : Walk neighbours start middle nodes)
    (second : Walk neighbours middle stop more) :
    ∃ joined, Walk neighbours start stop joined ∧
      ∀ node, node ∈ joined ↔ node ∈ nodes ∨ node ∈ more := by
  obtain ⟨tail, rfl⟩ := second.start_eq_head
  refine ⟨nodes ++ tail, first.append second, fun node => ?_⟩
  have middleMember := first.stop_mem
  rw [List.mem_append, List.mem_cons]
  constructor
  · rintro (member | member)
    · exact .inl member
    · exact .inr (.inr member)
  · rintro (member | rfl | member)
    · exact .inl member
    · exact .inl middleMember
    · exact .inr member

/-- A walk is cut at any node on it. -/
theorem split (walk : Walk neighbours start stop (front ++ middle :: back)) :
    Walk neighbours start middle (front ++ [middle]) ∧
      Walk neighbours middle stop (middle :: back) := by
  induction front generalizing start with
  | nil =>
      obtain ⟨tail, same⟩ := walk.start_eq_head
      obtain ⟨rfl, rfl⟩ := List.cons.inj same
      exact ⟨.here _, walk⟩
  | cons head front inductionHypothesis =>
      generalize listed : head :: front ++ middle :: back = nodes at walk
      cases walk with
      | here => simp at listed
      | step edge rest =>
          obtain ⟨rfl, rfl⟩ := List.cons.inj listed
          obtain ⟨before, after⟩ := inductionHypothesis rest
          exact ⟨.step edge before, after⟩

/-- The part of a walk up to the first visit of a node. -/
theorem to_first (walk : Walk neighbours start stop nodes) (member : middle ∈ nodes) :
    ∃ front back, nodes = front ++ middle :: back ∧ middle ∉ front ∧
      Walk neighbours start middle (front ++ [middle]) ∧
      Walk neighbours middle stop (middle :: back) := by
  obtain ⟨front, back, rfl, fresh⟩ := List.eq_append_cons_of_mem member
  exact ⟨front, back, rfl, fresh, walk.split⟩

/-- The part of a walk from the last visit of a node. -/
theorem from_last (walk : Walk neighbours start stop nodes) (member : middle ∈ nodes) :
    ∃ front back, nodes = front ++ middle :: back ∧ middle ∉ back ∧
      Walk neighbours start middle (front ++ [middle]) ∧
      Walk neighbours middle stop (middle :: back) := by
  obtain ⟨back, front, reversed, fresh⟩ :=
    List.eq_append_cons_of_mem (List.mem_reverse.2 member)
  have listed : nodes = front.reverse ++ middle :: back.reverse := by
    rw [← List.reverse_reverse nodes, reversed]
    simp
  subst listed
  exact ⟨front.reverse, back.reverse, rfl, by simpa using fresh, walk.split⟩

/-- A walk goes backwards along neighbour lists that turn the edges on it around. -/
theorem reverse {opposite : Nat → List Nat} (walk : Walk neighbours start stop nodes)
    (turned : ∀ node ∈ nodes, ∀ next ∈ neighbours node, next ∈ nodes → node ∈ opposite next) :
    Walk opposite stop start nodes.reverse := by
  induction walk with
  | here node => exact .here node
  | @step start next stop nodes edge rest inductionHypothesis =>
      have backward := inductionHypothesis fun node member other otherEdge otherMember =>
        turned node (List.mem_cons_of_mem _ member) other otherEdge
          (List.mem_cons_of_mem _ otherMember)
      rw [List.reverse_cons]
      exact backward.snoc (turned start List.mem_cons_self next edge
        (List.mem_cons_of_mem _ rest.start_mem))

end Walk

namespace FlowGraph

variable {graph : FlowGraph} {block above below : BlockId} {blocks : List BlockId}

/-- A walk from the entry to a block along the edges of the graph. -/
def EntryWalk (graph : FlowGraph) (block : BlockId) (blocks : List BlockId) : Prop :=
  ∃ entry, graph.entryBlock? = some entry ∧ Walk graph.successors entry block blocks

/-- Some walk leads from the entry to the block. -/
def Reachable (graph : FlowGraph) (block : BlockId) : Prop :=
  ∃ blocks, graph.EntryWalk block blocks

/-- The block below is reached, and every walk from the entry to it passes
through the block above. -/
def Dominates (graph : FlowGraph) (above below : BlockId) : Prop :=
  graph.Reachable below ∧ ∀ blocks, graph.EntryWalk below blocks → above ∈ blocks

/-- What the tables of a graph have in common: edges lead to blocks of the
graph, and predecessors are the other reading of successors. -/
structure Coherent (graph : FlowGraph) : Prop where
  entry_lt : ∀ {entry}, graph.entryBlock? = some entry → entry < graph.size
  successor_lt : ∀ {block next}, next ∈ graph.successors block → next < graph.size
  mem_predecessors : ∀ {block next},
    block ∈ graph.predecessors next ↔ next ∈ graph.successors block

theorem successors_ofSuccessors (entryBlock? : Option BlockId) (count : Nat)
    (targets : BlockId → List BlockId) (block : BlockId) :
    (ofSuccessors entryBlock? count targets).successors block =
      if block < count then firstMentions ((targets block).filter (· < count)) else [] := by
  simp only [successors, ofSuccessors, List.getElem?_map]
  by_cases below : block < count
  · rw [List.getElem?_range below, if_pos below]
    rfl
  · rw [if_neg below, List.getElem?_eq_none (by simpa using below)]
    rfl

theorem predecessors_ofSuccessors (entryBlock? : Option BlockId) (count : Nat)
    (targets : BlockId → List BlockId) (block : BlockId) :
    (ofSuccessors entryBlock? count targets).predecessors block =
      if block < count then
        (List.range count).filter fun other =>
          ((ofSuccessors entryBlock? count targets).successors other).contains block
      else [] := by
  simp only [predecessors, ofSuccessors, List.getElem?_map]
  by_cases below : block < count
  · rw [List.getElem?_range below, if_pos below]
    refine List.filter_congr fun other member => ?_
    have otherBelow := List.mem_range.1 member
    have listed := successors_ofSuccessors entryBlock? count targets other
    rw [if_pos otherBelow] at listed
    exact congrArg (List.contains · block) listed.symm
  · rw [if_neg below, List.getElem?_eq_none (by simpa using below)]
    rfl

@[simp] theorem size_ofSuccessors (entryBlock? : Option BlockId) (count : Nat)
    (targets : BlockId → List BlockId) :
    (ofSuccessors entryBlock? count targets).size = count := by
  simp [size, ofSuccessors]

theorem successor_lt_ofSuccessors {entryBlock? : Option BlockId} {count : Nat}
    {targets : BlockId → List BlockId} {next : BlockId}
    (edge : next ∈ (ofSuccessors entryBlock? count targets).successors block) :
    block < count ∧ next < count := by
  rw [successors_ofSuccessors] at edge
  split at edge
  · next blockBelow =>
    have listed := mem_firstMentions.1 edge
    exact ⟨blockBelow, by simpa using (List.mem_filter.1 listed).2⟩
  · exact absurd edge List.not_mem_nil

/-- A graph made from successors is coherent if its entry is one of its blocks. -/
theorem coherent_ofSuccessors {entryBlock? : Option BlockId} {count : Nat}
    (targets : BlockId → List BlockId)
    (entryBelow : ∀ {entry}, entryBlock? = some entry → entry < count) :
    (ofSuccessors entryBlock? count targets).Coherent where
  entry_lt := fun isEntry => by
    rw [size_ofSuccessors]
    exact entryBelow isEntry
  successor_lt := fun edge => by
    rw [size_ofSuccessors]
    exact (successor_lt_ofSuccessors edge).2
  mem_predecessors := fun {block next} => by
    rw [predecessors_ofSuccessors]
    constructor
    · intro member
      split at member
      · exact List.contains_iff_mem.1 (List.mem_filter.1 member).2
      · exact absurd member List.not_mem_nil
    · intro edge
      obtain ⟨blockBelow, nextBelow⟩ := successor_lt_ofSuccessors edge
      rw [if_pos nextBelow]
      exact List.mem_filter.2 ⟨List.mem_range.2 blockBelow, List.contains_iff_mem.2 edge⟩

theorem EntryWalk.reachable (walk : graph.EntryWalk block blocks) : graph.Reachable block :=
  ⟨blocks, walk⟩

/-- Every block on a walk from the entry is reachable. -/
theorem EntryWalk.reachable_of_mem (walk : graph.EntryWalk below blocks)
    (member : block ∈ blocks) : graph.Reachable block := by
  obtain ⟨entry, isEntry, walk⟩ := walk
  obtain ⟨front, back, -, -, before, -⟩ := walk.to_first member
  exact ⟨front ++ [block], entry, isEntry, before⟩

theorem reachable_entry {entry : BlockId} (isEntry : graph.entryBlock? = some entry) :
    graph.Reachable entry :=
  ⟨[entry], entry, isEntry, .here entry⟩

/-- An edge carries a walk from the entry on. -/
theorem EntryWalk.snoc {next : BlockId} (walk : graph.EntryWalk block blocks)
    (edge : next ∈ graph.successors block) : graph.EntryWalk next (blocks ++ [next]) := by
  obtain ⟨entry, isEntry, walk⟩ := walk
  exact ⟨entry, isEntry, walk.snoc edge⟩

theorem Reachable.successor {next : BlockId} (reachable : graph.Reachable block)
    (edge : next ∈ graph.successors block) : graph.Reachable next := by
  obtain ⟨blocks, walk⟩ := reachable
  exact (walk.snoc edge).reachable

/-- What a walk passes through is reachable if its start is. -/
theorem Reachable.walk {stop : BlockId} (reachable : graph.Reachable block)
    (walk : Walk graph.successors block stop blocks) :
    ∀ other ∈ blocks, graph.Reachable other := by
  induction walk with
  | here node =>
      intro other member
      rw [List.mem_singleton.1 member]
      exact reachable
  | step edge rest inductionHypothesis =>
      intro other member
      rcases List.mem_cons.1 member with rfl | member
      · exact reachable
      · exact inductionHypothesis (reachable.successor edge) other member

/-- Only blocks of the graph are reachable. -/
theorem Coherent.lt_size (coherent : graph.Coherent) (reachable : graph.Reachable block) :
    block < graph.size := by
  obtain ⟨blocks, entry, isEntry, walk⟩ := reachable
  have entryBelow := coherent.entry_lt isEntry
  clear isEntry
  induction walk with
  | here => exact entryBelow
  | step edge rest inductionHypothesis => exact inductionHypothesis (coherent.successor_lt edge)

namespace Dominates

theorem reachable (dominates : graph.Dominates above below) : graph.Reachable below :=
  dominates.1

theorem reachable_above (dominates : graph.Dominates above below) : graph.Reachable above := by
  obtain ⟨blocks, walk⟩ := dominates.1
  exact walk.reachable_of_mem (dominates.2 blocks walk)

theorem refl (reachable : graph.Reachable block) : graph.Dominates block block := by
  refine ⟨reachable, fun blocks walk => ?_⟩
  obtain ⟨entry, -, walk⟩ := walk
  exact walk.stop_mem

/-- A block that dominates another one and is different from it dominates
every reachable predecessor of that one. -/
theorem predecessor (dominates : graph.Dominates above below) (different : above ≠ below)
    (reachable : graph.Reachable block) (edge : below ∈ graph.successors block) :
    graph.Dominates above block := by
  refine ⟨reachable, fun blocks walk => ?_⟩
  have member := dominates.2 _ (walk.snoc edge)
  rw [List.mem_append, List.mem_singleton] at member
  exact member.resolve_right different

/-- A walk that avoids a dominator of its end starts below that dominator. -/
theorem of_walk (dominates : graph.Dominates above below) (reachable : graph.Reachable block)
    (walk : Walk graph.successors block below blocks) (avoided : above ∉ blocks) :
    graph.Dominates above block := by
  refine ⟨reachable, fun before entryWalk => ?_⟩
  obtain ⟨entry, isEntry, entryWalk⟩ := entryWalk
  obtain ⟨joined, whole, members⟩ := entryWalk.trans walk
  have member := dominates.2 joined ⟨entry, isEntry, whole⟩
  exact ((members above).1 member).resolve_right avoided

end Dominates

end FlowGraph

/-- The graph of any function is coherent, wherever its terminators lead. -/
theorem Function.coherent_graph (function : Function) : function.graph.Coherent := by
  refine FlowGraph.coherent_ofSuccessors _ fun {entry} isEntry => ?_
  unfold Function.entryBlock? at isEntry
  split at isEntry
  · exact absurd isEntry nofun
  · next notEmpty =>
    cases isEntry
    simp only [Table.isEmpty, List.isEmpty_iff] at notEmpty
    exact List.length_pos_of_ne_nil notEmpty

namespace Function

variable {function : Function} {block next : BlockId}

theorem successors_eq_nil (missing : function.blocks.size ≤ block) :
    function.successors block = [] := by
  have placedNothing : function.placed block = [] := by
    unfold placed
    rw [Table.get?_eq_none_iff.2 missing]
    rfl
  unfold successors terminatorInstruction? terminator?
  rw [placedNothing]
  rfl

/-- Edges lead to the existing blocks that a terminator names. -/
theorem mem_successors_graph : next ∈ function.graph.successors block ↔
    next ∈ function.successors block ∧ next < function.blocks.size := by
  unfold graph
  rw [FlowGraph.successors_ofSuccessors]
  split
  · rw [mem_firstMentions, List.mem_filter, decide_eq_true_iff]
  · next missing =>
    rw [function.successors_eq_nil (Nat.not_lt.1 missing)]
    simp

theorem lt_size_of_reachable (reachable : function.graph.Reachable block) :
    block < function.blocks.size := by
  have inGraph := function.coherent_graph.lt_size reachable
  unfold graph at inGraph
  rw [FlowGraph.size_ofSuccessors] at inGraph
  exact inGraph

end Function

end Workgroup

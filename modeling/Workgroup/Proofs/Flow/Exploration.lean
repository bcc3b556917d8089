import Mathlib.Data.Finset.Card
import Mathlib.Data.Finset.Range
import Workgroup.Flow.Order
import Workgroup.Proofs.Flow.Walk

/-!
Contract: what a depth-first search finds, and in which order it leaves it.

`Explores` says what a search from some roots adds to the progress made
before.  The fuel of the search is enough as long as it covers the nodes that
are not entered yet; entering one of them uses up one unit.

Owns:
- the relation between the progress before and after a search;
- the nodes found as those that a walk around the border reaches;
- the reverse postorder of a graph as an enumeration of its reachable blocks.
-/

namespace Workgroup

namespace Search

variable {neighbours : Nat → List Nat} {bound : Nat}

/-- A search from some roots has found nodes, listed against the order of
leaving them. -/
structure Explores (neighbours : Nat → List Nat) (roots : List Nat) (before after : Search)
    (found : List Nat) : Prop where
  finished : after.finished = found ++ before.finished
  entered : ∀ node, node ∈ after.entered ↔ node ∈ before.entered ∨ node ∈ found
  fresh : ∀ node ∈ found, node ∉ before.entered
  nodup : found.Nodup
  covers : ∀ root ∈ roots, root ∈ after.entered
  closed : ∀ node ∈ found, ∀ next ∈ neighbours node, next ∈ after.entered
  preceded : ∀ front node back, found = front ++ node :: back →
    node ∈ roots ∨ ∃ other ∈ front, node ∈ neighbours other

namespace Explores

variable {roots more found later : List Nat} {before middle after : Search} {node : Nat}

/-- A search from nodes that are entered already finds nothing. -/
theorem nothing (entered : ∀ root ∈ roots, root ∈ before.entered) :
    Explores neighbours roots before before [] where
  finished := rfl
  entered := by simp
  fresh := by simp
  nodup := .nil
  covers := entered
  closed := by simp
  preceded := by simp

/-- One search after another: what is found later is listed first. -/
theorem append (first : Explores neighbours roots before middle found)
    (second : Explores neighbours more middle after later) :
    Explores neighbours (roots ++ more) before after (later ++ found) where
  finished := by rw [second.finished, first.finished, List.append_assoc]
  entered := by
    intro node
    rw [second.entered, first.entered, List.mem_append]
    tauto
  fresh := by
    intro node member
    rcases List.mem_append.1 member with member | member
    · exact fun entered => second.fresh node member ((first.entered node).2 (.inl entered))
    · exact first.fresh node member
  nodup := by
    refine List.nodup_append.2 ⟨second.nodup, first.nodup, ?_⟩
    rintro node laterMember other member rfl
    exact second.fresh node laterMember ((first.entered node).2 (.inr member))
  covers := by
    intro root member
    rcases List.mem_append.1 member with member | member
    · exact (second.entered root).2 (.inl (first.covers root member))
    · exact second.covers root member
  closed := by
    intro node member next edge
    rcases List.mem_append.1 member with member | member
    · exact second.closed node member next edge
    · exact (second.entered next).2 (.inl (first.closed node member next edge))
  preceded := by
    intro front node back listed
    rcases List.append_eq_append_iff.1 listed with ⟨rest, rfl, same⟩ | ⟨rest, same, tail⟩
    · rcases first.preceded rest node back same with isRoot | ⟨other, member, edge⟩
      · exact .inl (List.mem_append_left _ isRoot)
      · exact .inr ⟨other, List.mem_append_right _ member, edge⟩
    · cases rest with
      | nil =>
          rcases first.preceded [] node back tail.symm with isRoot | ⟨other, member, -⟩
          · exact .inl (List.mem_append_left _ isRoot)
          · exact absurd member List.not_mem_nil
      | cons head rest =>
          obtain ⟨rfl, -⟩ := List.cons.inj tail
          rcases second.preceded front node rest same with isRoot | ⟨other, member, edge⟩
          · exact .inl (List.mem_append_right _ isRoot)
          · exact .inr ⟨other, member, edge⟩

/-- A node is entered, its neighbours are searched, and the node is left. -/
theorem enclose (fresh : node ∉ before.entered)
    (inner : Explores neighbours (neighbours node) (before.enter node) middle found) :
    Explores neighbours [node] before (middle.leave node) (node :: found) where
  finished := by
    show node :: middle.finished = _
    rw [inner.finished]
    rfl
  entered := by
    intro other
    show other ∈ middle.entered ↔ _
    rw [inner.entered]
    show other ∈ node :: before.entered ∨ _ ↔ _
    simp only [List.mem_cons]
    tauto
  fresh := by
    intro other member
    rcases List.mem_cons.1 member with rfl | member
    · exact fresh
    · exact fun entered => inner.fresh other member (List.mem_cons_of_mem node entered)
  nodup := by
    refine List.nodup_cons.2 ⟨fun member => ?_, inner.nodup⟩
    exact inner.fresh node member List.mem_cons_self
  covers := by
    intro root member
    rw [List.mem_singleton.1 member]
    exact (inner.entered node).2 (.inl List.mem_cons_self)
  closed := by
    intro other member next edge
    rcases List.mem_cons.1 member with rfl | member
    · exact inner.covers next edge
    · exact inner.closed other member next edge
  preceded := by
    intro front other back listed
    cases front with
    | nil =>
        obtain ⟨rfl, -⟩ := List.cons.inj listed
        exact .inl List.mem_cons_self
    | cons head front =>
        obtain ⟨rfl, same⟩ := List.cons.inj listed
        rcases inner.preceded front other back same with edge | ⟨earlier, member, edge⟩
        · exact .inr ⟨node, List.mem_cons_self, edge⟩
        · exact .inr ⟨earlier, List.mem_cons_of_mem _ member, edge⟩

/-- What is found is reached from a root along nodes that are found. -/
theorem exists_walk (explores : Explores neighbours roots before after found)
    (member : node ∈ found) :
    ∃ root ∈ roots, ∃ nodes, Walk neighbours root node nodes ∧ ∀ other ∈ nodes, other ∈ found := by
  -- Induction on how many nodes are listed before this one.
  suffices general : ∀ size front back, front.length = size → ∀ node, found = front ++ node :: back →
      ∃ root ∈ roots, ∃ nodes, Walk neighbours root node nodes ∧ ∀ other ∈ nodes, other ∈ found by
    obtain ⟨front, back, listed⟩ := List.append_of_mem member
    exact general front.length front back rfl node listed
  intro size
  induction size using Nat.strongRecOn with
  | _ size inductionHypothesis =>
      intro front back sizeEq node listed
      have member : node ∈ found := by
        rw [listed]
        simp
      rcases explores.preceded front node back listed with isRoot | ⟨other, otherMember, edge⟩
      · exact ⟨node, isRoot, [node], .here node, by simpa using member⟩
      · obtain ⟨start, rest, rfl⟩ := List.append_of_mem otherMember
        have shorter : start.length < size := by
          rw [← sizeEq]
          simp
        obtain ⟨root, isRoot, nodes, walk, inside⟩ :=
          inductionHypothesis start.length shorter start (rest ++ node :: back) rfl other
            (by rw [listed]; simp)
        refine ⟨root, isRoot, nodes ++ [node], walk.snoc edge, fun inner innerMember => ?_⟩
        rcases List.mem_append.1 innerMember with innerMember | innerMember
        · exact inside inner innerMember
        · rw [List.mem_singleton.1 innerMember]
          exact member

/-- A walk from a root that meets no node entered beforehand is found. -/
theorem mem_of_walk {root : Nat} {nodes : List Nat}
    (explores : Explores neighbours roots before after found) (isRoot : root ∈ roots)
    (walk : Walk neighbours root node nodes) (around : ∀ other ∈ nodes, other ∉ before.entered) :
    ∀ other ∈ nodes, other ∈ found := by
  have foundOf (other : Nat) (entered : other ∈ after.entered) (outside : other ∉ before.entered) :
      other ∈ found :=
    ((explores.entered other).1 entered).resolve_left outside
  have rootFound : root ∈ found :=
    foundOf root (explores.covers root isRoot) (around root walk.start_mem)
  clear isRoot
  induction walk with
  | here node =>
      intro other member
      rw [List.mem_singleton.1 member]
      exact rootFound
  | @step start next stop nodes edge rest inductionHypothesis =>
      have nextFound : next ∈ found :=
        foundOf next (explores.closed start rootFound next edge)
          (around next (List.mem_cons_of_mem _ rest.start_mem))
      intro other member
      rcases List.mem_cons.1 member with rfl | member
      · exact rootFound
      · exact inductionHypothesis
          (fun inner innerMember => around inner (List.mem_cons_of_mem _ innerMember))
          nextFound other member

end Explores

/-- The number of nodes below a bound that have not been entered. -/
def pending (bound : Nat) (search : Search) : Nat :=
  (Finset.range bound \ search.entered.toFinset).card

theorem pending_pos {search : Search} {node : Nat} (below : node < bound)
    (fresh : node ∉ search.entered) : 0 < pending bound search :=
  Finset.card_pos.2 ⟨node, by simp [below, fresh]⟩

theorem pending_enter_lt {search : Search} {node : Nat} (below : node < bound)
    (fresh : node ∉ search.entered) : pending bound (search.enter node) < pending bound search := by
  refine Finset.card_lt_card (Finset.ssubset_iff_subset_ne.2 ⟨?_, ?_⟩)
  · refine Finset.sdiff_subset_sdiff (Finset.Subset.refl _) fun other member => ?_
    simp only [List.mem_toFinset] at *
    exact List.mem_cons_of_mem node member
  · intro same
    have member : node ∈ Finset.range bound \ search.entered.toFinset := by
      simp [below, fresh]
    rw [← same] at member
    simp [enter] at member

theorem Explores.pending_le {roots found : List Nat} {before after : Search}
    (explores : Explores neighbours roots before after found) :
    pending bound after ≤ pending bound before := by
  refine Finset.card_le_card (Finset.sdiff_subset_sdiff (Finset.Subset.refl _) ?_)
  intro node member
  simp only [List.mem_toFinset] at *
  exact (explores.entered node).2 (.inl member)

/-- A search over several nodes explores if each single search does. -/
theorem foldl_explores {step : Search → Nat → Search} {fuel : Nat}
    (single : ∀ search node, pending bound search ≤ fuel → node < bound →
      ∃ found, Explores neighbours [node] search (step search node) found) :
    ∀ nodes search, (∀ node ∈ nodes, node < bound) → pending bound search ≤ fuel →
      ∃ found, Explores neighbours nodes search (nodes.foldl step search) found := by
  intro nodes
  induction nodes with
  | nil => exact fun search _ _ => ⟨[], .nothing (by simp)⟩
  | cons head tail inductionHypothesis =>
      intro search below enough
      obtain ⟨found, first⟩ := single search head enough (below head List.mem_cons_self)
      obtain ⟨later, second⟩ := inductionHypothesis (step search head)
        (fun node member => below node (List.mem_cons_of_mem head member))
        (Nat.le_trans first.pending_le enough)
      exact ⟨later ++ found, first.append second⟩

theorem visit_explores (bounded : ∀ node, ∀ next ∈ neighbours node, next < bound) :
    ∀ fuel search node, pending bound search ≤ fuel → node < bound →
      ∃ found, Explores neighbours [node] search (visit neighbours fuel search node) found := by
  intro fuel
  induction fuel with
  | zero =>
      intro search node enough below
      have entered : node ∈ search.entered := by
        by_contra fresh
        have := pending_pos below fresh
        omega
      exact ⟨[], .nothing (by simpa using entered)⟩
  | succ fuel inductionHypothesis =>
      intro search node enough below
      unfold visit
      by_cases entered : node ∈ search.entered
      · rw [if_pos (List.contains_iff_mem.2 entered)]
        exact ⟨[], .nothing (by simpa using entered)⟩
      · rw [if_neg (fun contained => entered (List.contains_iff_mem.1 contained))]
        have less := pending_enter_lt below entered
        obtain ⟨found, inner⟩ := foldl_explores inductionHypothesis (neighbours node)
          (search.enter node) (bounded node) (by omega)
        exact ⟨node :: found, inner.enclose entered⟩

theorem pending_le (search : Search) : pending bound search ≤ bound := by
  calc pending bound search ≤ (Finset.range bound).card := Finset.card_le_card Finset.sdiff_subset
    _ = bound := Finset.card_range bound

end Search

namespace FlowGraph

variable {graph : FlowGraph}

/-- An order lists the blocks that an entry reaches, each once and each but
the entry behind one of its predecessors. -/
structure Enumerates (graph : FlowGraph) (entry : BlockId) (order : List BlockId) : Prop where
  head : order.head? = some entry
  nodup : order.Nodup
  mem_iff : ∀ block, block ∈ order ↔ graph.Reachable block
  preceded : ∀ front block back, order = front ++ block :: back → block ≠ entry →
    ∃ other ∈ front, block ∈ graph.successors other

theorem reversePostorder_of_no_entry (noEntry : graph.entryBlock? = none) :
    graph.reversePostorder = [] := by
  unfold reversePostorder
  rw [noEntry]

/-- The reverse postorder enumerates the reachable blocks. -/
theorem Coherent.enumerates_reversePostorder (coherent : graph.Coherent) {entry : BlockId}
    (isEntry : graph.entryBlock? = some entry) :
    graph.Enumerates entry graph.reversePostorder := by
  have below := coherent.entry_lt isEntry
  have bounded : ∀ block, ∀ next ∈ graph.successors block, next < graph.size :=
    fun _ _ edge => coherent.successor_lt edge
  obtain ⟨found, explores⟩ := Search.visit_explores bounded graph.size (.start []) entry
    (Search.pending_le _) below
  have listed : graph.reversePostorder = found := by
    unfold reversePostorder
    rw [isEntry]
    exact explores.finished.trans (List.append_nil found)
  have entryFound : entry ∈ found :=
    explores.mem_of_walk List.mem_cons_self (.here entry) (by simp [Search.start]) entry
      List.mem_cons_self
  rw [listed]
  refine ⟨?_, explores.nodup, fun block => ⟨fun member => ?_, ?_⟩, ?_⟩
  · -- The head is behind nothing, so it is a root.
    cases found with
    | nil => exact absurd entryFound List.not_mem_nil
    | cons head tail =>
        rcases explores.preceded [] head tail rfl with isRoot | ⟨other, member, -⟩
        · rw [List.mem_singleton.1 isRoot]
          rfl
        · exact absurd member List.not_mem_nil
  · obtain ⟨root, isRoot, blocks, walk, -⟩ := explores.exists_walk member
    rw [List.mem_singleton.1 isRoot] at walk
    exact ⟨blocks, entry, isEntry, walk⟩
  · rintro ⟨blocks, start, isStart, walk⟩
    cases isEntry.symm.trans isStart
    exact explores.mem_of_walk List.mem_cons_self walk (by simp [Search.start]) block
      walk.stop_mem
  · intro front block back same different
    rcases explores.preceded front block back same with isRoot | preceded
    · exact absurd (List.mem_singleton.1 isRoot) different
    · exact preceded

end FlowGraph

end Workgroup

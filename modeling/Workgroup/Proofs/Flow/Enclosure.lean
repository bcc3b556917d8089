import Workgroup.Proofs.Flow.LoopNesting

/-!
Contract: the links of the loop forest say how the block sets of its loops lie
in each other.

Two loops of the forest are apart, or one of them lies strictly inside the
other.  The loops around a loop therefore form a chain, in which sizes and
handles decide the same: the smallest one is the parent, and the length of the
chain is the depth.

Owns:
- strict containment of loops and the smallest loop with a property;
- the depth that adoption stores, as an invariant with its step and its run;
- the forest of a function as a nesting by containment.
-/

namespace Workgroup

/-- All blocks of the first loop belong to the second one, which has more. -/
def Loop.StrictlyInside (inner outer : Loop) : Prop :=
  (∀ block ∈ inner.blocks, block ∈ outer.blocks) ∧ ∃ block ∈ outer.blocks, block ∉ inner.blocks

instance (inner outer : Loop) : Decidable (inner.StrictlyInside outer) :=
  inferInstanceAs (Decidable ((∀ block ∈ inner.blocks.toList, block ∈ outer.blocks) ∧
    ∃ block ∈ outer.blocks.toList, block ∉ inner.blocks))

/-- Two loops without a common block. -/
def Loop.Apart (left right : Loop) : Prop := ∀ block ∈ left.blocks, block ∉ right.blocks

namespace LoopForest

variable {forest : LoopForest} {handle other above : LoopId} {loop inner : Loop}

/-- The loops strictly around a loop. -/
def enclosing (forest : LoopForest) (loop : Loop) : List LoopId :=
  forest.loops.handles.filter fun handle =>
    (forest.loops.get? handle).any fun outer => decide (loop.StrictlyInside outer)

/-- The loop has a property, and every other loop with the property is larger. -/
def IsSmallest (forest : LoopForest) (property : Loop → Prop) (handle : LoopId) : Prop :=
  ∃ loop, forest.loops.get? handle = some loop ∧ property loop ∧
    ∀ other inner, forest.loops.get? other = some inner → property inner →
      other = handle ∨ loop.blocks.size < inner.blocks.size

/-- The links and depths of a forest agree with the containment of its loops. -/
structure NestsByContainment (forest : LoopForest) : Prop where
  apart_or_inside : ∀ {handle other loop inner}, forest.loops.get? handle = some loop →
    forest.loops.get? other = some inner → handle ≠ other →
    loop.Apart inner ∨ loop.StrictlyInside inner ∨ inner.StrictlyInside loop
  parent_iff : ∀ {handle loop}, forest.loops.get? handle = some loop →
    ∀ above, loop.parent = some above ↔ forest.IsSmallest loop.StrictlyInside above
  parent_none_iff : ∀ {handle loop}, forest.loops.get? handle = some loop →
    (loop.parent = none ↔ ∀ other outer, forest.loops.get? other = some outer →
      ¬ loop.StrictlyInside outer)
  nodup_subLoops : ∀ {handle loop}, forest.loops.get? handle = some loop → loop.subLoops.Nodup
  mem_subLoops_iff : ∀ {handle loop}, forest.loops.get? handle = some loop →
    ∀ child, child ∈ loop.subLoops ↔
      ∃ inner, forest.loops.get? child = some inner ∧ inner.parent = some handle
  nodup_topLevel : forest.topLevel.Nodup
  mem_topLevel_iff : ∀ handle, handle ∈ forest.topLevel ↔
    ∃ loop, forest.loops.get? handle = some loop ∧ loop.parent = none
  depth_eq : ∀ {handle loop}, forest.loops.get? handle = some loop →
    loop.depth = (forest.enclosing loop).length + 1
  loopFor?_iff : ∀ block handle, forest.loopFor? block = some handle ↔
    forest.IsSmallest (fun loop => block ∈ loop.blocks) handle
  loopFor?_none_iff : ∀ block, forest.loopFor? block = none ↔
    ∀ handle loop, forest.loops.get? handle = some loop → block ∉ loop.blocks

theorem lt_size_of_get? (isLoop : forest.loops.get? handle = some loop) :
    handle < forest.loops.size :=
  Table.get?_isSome_iff.1 (isLoop ▸ rfl)

theorem parentOf?_eq_some_iff :
    forest.parentOf? handle = some above ↔
      ∃ loop, forest.loops.get? handle = some loop ∧ loop.parent = some above :=
  Option.bind_eq_some_iff

theorem mem_enclosing : other ∈ forest.enclosing loop ↔
    ∃ outer, forest.loops.get? other = some outer ∧ loop.StrictlyInside outer := by
  simp only [enclosing, Table.handles, List.mem_filter, List.mem_range, Option.any_eq_true,
    decide_eq_true_eq, and_iff_right_iff_imp]
  intro ⟨outer, isOuter, _⟩
  exact lt_size_of_get? isOuter

theorem nodup_enclosing (forest : LoopForest) (loop : Loop) : (forest.enclosing loop).Nodup :=
  List.nodup_range.filter _

/-- There is at most one smallest loop. -/
theorem IsSmallest.unique {property : Loop → Prop} (left : forest.IsSmallest property handle)
    (right : forest.IsSmallest property other) : handle = other := by
  obtain ⟨loop, isLoop, holds, larger⟩ := left
  obtain ⟨inner, isInner, innerHolds, innerLarger⟩ := right
  rcases larger other inner isInner innerHolds with same | before
  · exact same.symm
  · rcases innerLarger handle loop isLoop holds with same | after
    · exact same
    · exact absurd before (Nat.lt_asymm after)

theorem Nests.nodup_subLoops (nests : forest.Nests)
    (isLoop : forest.loops.get? handle = some loop) : loop.subLoops.Nodup := by
  rw [nests.subLoops_eq isLoop]
  exact List.nodup_range.filter _

theorem Nests.nodup_topLevel (nests : forest.Nests) : forest.topLevel.Nodup := by
  rw [nests.topLevel_eq]
  exact List.nodup_range.filter _

theorem Nests.mem_topLevel_iff (nests : forest.Nests) : handle ∈ forest.topLevel ↔
    ∃ loop, forest.loops.get? handle = some loop ∧ loop.parent = none := by
  simp only [nests.topLevel_eq, List.mem_filter, Table.handles, List.mem_range, parentOf?,
    Option.isNone_iff_eq_none]
  constructor
  · intro ⟨below, noParent⟩
    obtain ⟨loop, isLoop⟩ := Option.isSome_iff_exists.1 (Table.get?_isSome_iff.2 below)
    rw [isLoop] at noParent
    exact ⟨loop, isLoop, noParent⟩
  · intro ⟨loop, isLoop, noParent⟩
    rw [isLoop]
    exact ⟨lt_size_of_get? isLoop, noParent⟩

theorem loopFor?_eq_none_iff {block : BlockId} : forest.loopFor? block = none ↔
    ∀ handle loop, forest.loops.get? handle = some loop → block ∉ loop.blocks := by
  simp only [loopFor?, Table.handles, List.getLast?_eq_none_iff, List.filter_eq_nil_iff,
    List.mem_range, Option.any_eq_true, Loop.contains_iff, not_exists, not_and]
  exact ⟨fun nothing handle loop isLoop => nothing handle (lt_size_of_get? isLoop) loop isLoop,
    fun nothing handle _ loop isLoop => nothing handle loop isLoop⟩

/-! ## Depths -/

/-- The depth of the loop above; nothing above counts as depth zero. -/
def depthAbove (forest : LoopForest) (parent : Option LoopId) : Nat :=
  ((parent.bind forest.loops.get?).map Loop.depth).getD 0

/-- Every loop is one deeper than its parent. -/
def CountsDepth (forest : LoopForest) : Prop :=
  ∀ handle loop, forest.loops.get? handle = some loop →
    loop.depth = forest.depthAbove loop.parent + 1

/-- Adoption leaves the depths of the loops that are there. -/
theorem depthAbove_adopt {entry : BlockId × OrderedSet BlockId} {parent : Option LoopId}
    (below : ∀ above, parent = some above → above < forest.loops.size) :
    (forest.adopt entry).depthAbove parent = forest.depthAbove parent := by
  cases parent with
  | none => rfl
  | some above =>
      have different : above ≠ forest.loops.size := Nat.ne_of_lt (below above rfl)
      simp only [depthAbove, Option.bind_some, get?_adopt, if_neg different, Option.map_map]
      congr 2
      funext loop
      simp only [Function.comp_apply]
      split <;> rfl

theorem CountsDepth.adopt (counts : forest.CountsDepth) (nests : forest.Nests)
    (entry : BlockId × OrderedSet BlockId) : (forest.adopt entry).CountsDepth := by
  intro handle loop isLoop
  have parentBelow : ∀ above, loop.parent = some above → above < forest.loops.size := by
    intro above isParent
    have before := (nests.adopt entry).parent_lt (parentOf?_eq_some_iff.2 ⟨loop, isLoop, isParent⟩)
    have bounded := lt_size_of_get? isLoop
    rw [size_adopt] at bounded
    exact Nat.lt_of_lt_of_le before (Nat.le_of_lt_succ bounded)
  rw [depthAbove_adopt parentBelow]
  rw [get?_adopt] at isLoop
  split at isLoop
  · -- The new loop gets its depth from the forest it is added to.
    cases isLoop
    rfl
  · obtain ⟨before, isBefore, rfl⟩ := Option.map_eq_some_iff.1 isLoop
    have kept := counts handle before isBefore
    split <;> exact kept

theorem countsDepth_foldl_adopt (bodies : List (BlockId × OrderedSet BlockId)) :
    (bodies.foldl LoopForest.adopt empty).CountsDepth := by
  induction bodies using List.reverseRecOn with
  | nil => exact fun handle loop isLoop => absurd isLoop nofun
  | append_singleton bodies entry inductionHypothesis =>
      rw [List.foldl_append, List.foldl_cons, List.foldl_nil]
      exact inductionHypothesis.adopt (foldl_adopt bodies).1 entry

end LoopForest

namespace Loop.Natural

variable {graph : FlowGraph} {outer inner : Loop} {block : BlockId}

/-- Of two natural loops with different headers, one lies strictly inside the
other exactly if its header belongs to it. -/
theorem strictlyInside (left : outer.Natural graph) (right : inner.Natural graph)
    (member : inner.header ∈ outer.blocks) (different : inner.header ≠ outer.header) :
    inner.StrictlyInside outer :=
  ⟨left.subset right member, outer.header, left.header_mem,
    left.header_not_mem right member different⟩

/-- A loop strictly around another one has another header. -/
theorem header_ne (left : outer.Natural graph) (right : inner.Natural graph)
    (inside : inner.StrictlyInside outer) : inner.header ≠ outer.header := by
  intro same
  obtain ⟨block, member, outside⟩ := inside.2
  rw [left.mem_iff, ← same, ← right.mem_iff] at member
  exact outside member

theorem header_mem_of_inside (right : inner.Natural graph) (inside : inner.StrictlyInside outer) :
    inner.header ∈ outer.blocks :=
  inside.1 _ right.header_mem

end Loop.Natural

namespace FlowGraph.Coherent

open LoopForest (lt_size_of_get? mem_enclosing)

variable {graph : FlowGraph} {handle other above : LoopId} {loop inner outer : Loop}
  {block : BlockId}

/-! ## Loops with a common block -/

/-- Loops of the forest with different handles and a common block lie in each
other. -/
theorem inside_or_inside (coherent : graph.Coherent)
    (isLoop : (graph.loopForest graph.dominators).loops.get? handle = some loop)
    (isInner : (graph.loopForest graph.dominators).loops.get? other = some inner)
    (different : handle ≠ other) (member : block ∈ loop.blocks) (innerMember : block ∈ inner.blocks) :
    loop.StrictlyInside inner ∨ inner.StrictlyInside loop := by
  have natural := coherent.natural isLoop
  have innerNatural := coherent.natural isInner
  have headers : loop.header ≠ inner.header := fun same =>
    different (coherent.eq_of_header_eq isLoop isInner same)
  rcases natural.header_mem_or_header_mem innerNatural member innerMember with inside | inside
  · exact .inr (natural.strictlyInside innerNatural inside headers.symm)
  · exact .inl (innerNatural.strictlyInside natural inside headers)

/-- Different loops of the forest are apart or lie in each other. -/
theorem apart_or_inside (coherent : graph.Coherent)
    (isLoop : (graph.loopForest graph.dominators).loops.get? handle = some loop)
    (isInner : (graph.loopForest graph.dominators).loops.get? other = some inner)
    (different : handle ≠ other) :
    loop.Apart inner ∨ loop.StrictlyInside inner ∨ inner.StrictlyInside loop := by
  by_cases apart : loop.Apart inner
  · exact .inl apart
  · simp only [Loop.Apart, not_forall, not_not] at apart
    obtain ⟨block, member, innerMember⟩ := apart
    exact .inr (coherent.inside_or_inside isLoop isInner different member innerMember)

/-- The loop inside is smaller and has the larger handle. -/
theorem lt_of_inside (coherent : graph.Coherent)
    (isOuter : (graph.loopForest graph.dominators).loops.get? above = some outer)
    (isInner : (graph.loopForest graph.dominators).loops.get? other = some inner)
    (inside : inner.StrictlyInside outer) :
    inner.blocks.size < outer.blocks.size ∧ above < other := by
  have natural := coherent.natural isOuter
  have innerNatural := coherent.natural isInner
  have smaller := natural.size_lt innerNatural (innerNatural.header_mem_of_inside inside)
    (natural.header_ne innerNatural inside)
  exact ⟨smaller, coherent.lt_of_size_lt isOuter isInner smaller⟩

/-- Of two loops with a common block, the one with the larger handle is smaller. -/
theorem size_lt_of_lt (coherent : graph.Coherent)
    (isLoop : (graph.loopForest graph.dominators).loops.get? handle = some loop)
    (isInner : (graph.loopForest graph.dominators).loops.get? other = some inner)
    (before : handle < other) (member : block ∈ loop.blocks) (innerMember : block ∈ inner.blocks) :
    inner.blocks.size < loop.blocks.size := by
  rcases coherent.inside_or_inside isLoop isInner (Nat.ne_of_lt before) member innerMember with
    inside | inside
  · exact absurd before (Nat.lt_asymm (coherent.lt_of_inside isInner isLoop inside).2)
  · exact (coherent.lt_of_inside isLoop isInner inside).1

/-! ## Parents -/

/-- The loops a parent is chosen from are those strictly around the loop. -/
theorem mem_aroundBefore_iff (coherent : graph.Coherent)
    (isLoop : (graph.loopForest graph.dominators).loops.get? handle = some loop) :
    other ∈ (graph.loopForest graph.dominators).aroundBefore handle loop.header ↔
      ∃ outer, (graph.loopForest graph.dominators).loops.get? other = some outer ∧
        loop.StrictlyInside outer := by
  have natural := coherent.natural isLoop
  rw [LoopForest.mem_aroundBefore]
  constructor
  · intro ⟨_, outer, isOuter, different, member⟩
    exact ⟨outer, isOuter,
      (coherent.natural isOuter).strictlyInside natural member different.symm⟩
  · intro ⟨outer, isOuter, inside⟩
    exact ⟨(coherent.lt_of_inside isOuter isLoop inside).2, outer, isOuter,
      ((coherent.natural isOuter).header_ne natural inside).symm,
      natural.header_mem_of_inside inside⟩

/-- The chosen loop is the smallest of those strictly around the loop. -/
theorem isSmallest_of_parent (coherent : graph.Coherent)
    (isLoop : (graph.loopForest graph.dominators).loops.get? handle = some loop)
    (isParent : loop.parent = some above) :
    (graph.loopForest graph.dominators).IsSmallest loop.StrictlyInside above := by
  have nests := graph.nests_loopForest graph.dominators
  rw [nests.parent_eq isLoop] at isParent
  obtain ⟨around, isAround, inside⟩ :=
    (coherent.mem_aroundBefore_iff isLoop).1 (LoopForest.smallest?_mem isParent)
  refine ⟨around, isAround, inside, fun other outer isOuter outerInside => ?_⟩
  obtain ⟨chosen, isChosen, least⟩ :=
    LoopForest.exists_smallest? ((coherent.mem_aroundBefore_iff isLoop).2 ⟨outer, isOuter, outerInside⟩)
  obtain rfl : chosen = above := Option.some.inj (isChosen.symm.trans isParent)
  simp only [LoopForest.sizeOf, isAround, isOuter, Option.map_some, Option.getD_some] at least
  by_cases same : other = chosen
  · exact .inl same
  · -- Both contain the header, so their sizes differ.
    have natural := coherent.natural isLoop
    have member := natural.header_mem_of_inside inside
    have outerMember := natural.header_mem_of_inside outerInside
    rcases Nat.lt_or_gt_of_ne same with before | after
    · exact .inr (coherent.size_lt_of_lt isOuter isAround before outerMember member)
    · have smaller := coherent.size_lt_of_lt isAround isOuter after member outerMember
      omega

theorem exists_parent (coherent : graph.Coherent)
    (isLoop : (graph.loopForest graph.dominators).loops.get? handle = some loop)
    (isOuter : (graph.loopForest graph.dominators).loops.get? other = some outer)
    (inside : loop.StrictlyInside outer) : ∃ above, loop.parent = some above := by
  have nests := graph.nests_loopForest graph.dominators
  obtain ⟨above, isChosen, -⟩ :=
    LoopForest.exists_smallest? ((coherent.mem_aroundBefore_iff isLoop).2 ⟨outer, isOuter, inside⟩)
  exact ⟨above, (nests.parent_eq isLoop).trans isChosen⟩

theorem parent_eq_some_iff (coherent : graph.Coherent)
    (isLoop : (graph.loopForest graph.dominators).loops.get? handle = some loop) :
    loop.parent = some above ↔
      (graph.loopForest graph.dominators).IsSmallest loop.StrictlyInside above := by
  constructor
  · exact coherent.isSmallest_of_parent isLoop
  · intro smallest
    obtain ⟨outer, isOuter, inside, -⟩ := id smallest
    obtain ⟨chosen, isParent⟩ := coherent.exists_parent isLoop isOuter inside
    rw [isParent, (coherent.isSmallest_of_parent isLoop isParent).unique smallest]

theorem parent_eq_none_iff (coherent : graph.Coherent)
    (isLoop : (graph.loopForest graph.dominators).loops.get? handle = some loop) :
    loop.parent = none ↔
      ∀ other outer, (graph.loopForest graph.dominators).loops.get? other = some outer →
        ¬ loop.StrictlyInside outer := by
  constructor
  · intro noParent other outer isOuter inside
    obtain ⟨above, isParent⟩ := coherent.exists_parent isLoop isOuter inside
    simp [noParent] at isParent
  · intro nothing
    rw [Option.eq_none_iff_forall_ne_some]
    intro above isParent
    obtain ⟨outer, isOuter, inside, -⟩ := coherent.isSmallest_of_parent isLoop isParent
    exact nothing above outer isOuter inside

/-! ## Depths -/

/-- The loops around a loop are its parent and the loops around that one. -/
theorem enclosing_perm (coherent : graph.Coherent)
    (isLoop : (graph.loopForest graph.dominators).loops.get? handle = some loop)
    (isParent : loop.parent = some above)
    (isOuter : (graph.loopForest graph.dominators).loops.get? above = some outer) :
    ((graph.loopForest graph.dominators).enclosing loop).Perm
      (above :: (graph.loopForest graph.dominators).enclosing outer) := by
  obtain ⟨around, isAround, inside, larger⟩ := coherent.isSmallest_of_parent isLoop isParent
  obtain rfl : around = outer := Option.some.inj (isAround.symm.trans isOuter)
  have notItself : above ∉ (graph.loopForest graph.dominators).enclosing around := by
    rw [mem_enclosing]
    intro ⟨other, isOther, itself⟩
    obtain rfl : around = other := Option.some.inj (isAround.symm.trans isOther)
    exact Nat.lt_irrefl _ (coherent.lt_of_inside isAround isAround itself).1
  apply (List.perm_ext_iff_of_nodup (LoopForest.nodup_enclosing _ _)
    (List.nodup_cons.2 ⟨notItself, LoopForest.nodup_enclosing _ _⟩)).2
  intro other
  rw [List.mem_cons, mem_enclosing, mem_enclosing]
  constructor
  · intro ⟨further, isFurther, furtherInside⟩
    rcases larger other further isFurther furtherInside with same | smaller
    · exact .inl same
    · -- Both contain the header of the loop, and the larger one lies outside.
      have natural := coherent.natural isLoop
      have different : above ≠ other := by
        intro same
        rw [same, isFurther] at isAround
        cases isAround
        exact Nat.lt_irrefl _ smaller
      rcases coherent.inside_or_inside isAround isFurther different
        (natural.header_mem_of_inside inside) (natural.header_mem_of_inside furtherInside) with
        within | within
      · exact .inr ⟨further, isFurther, within⟩
      · have order := (coherent.lt_of_inside isAround isFurther within).1
        omega
  · intro isAbove
    rcases isAbove with rfl | ⟨further, isFurther, within⟩
    · exact ⟨around, isAround, inside⟩
    · obtain ⟨block, member, outside⟩ := within.2
      exact ⟨further, isFurther, fun entry isEntry => within.1 entry (inside.1 entry isEntry),
        block, member, fun isEntry => outside (inside.1 block isEntry)⟩

/-- The depth of a loop counts the loops around it. -/
theorem depth_eq (coherent : graph.Coherent)
    (isLoop : (graph.loopForest graph.dominators).loops.get? handle = some loop) :
    loop.depth = ((graph.loopForest graph.dominators).enclosing loop).length + 1 := by
  have counts := LoopForest.countsDepth_foldl_adopt (LoopForest.bodies graph graph.dominators)
  -- Parents have smaller handles, and their depths are counted already.
  induction handle using Nat.strongRecOn generalizing loop with
  | _ handle inductionHypothesis =>
      have stored : loop.depth =
          (graph.loopForest graph.dominators).depthAbove loop.parent + 1 := counts handle loop isLoop
      cases isParent : loop.parent with
      | none =>
          have nothing : (graph.loopForest graph.dominators).enclosing loop = [] := by
            rw [List.eq_nil_iff_forall_not_mem]
            intro other member
            obtain ⟨outer, isOuter, inside⟩ := mem_enclosing.1 member
            exact (coherent.parent_eq_none_iff isLoop).1 isParent other outer isOuter inside
          rw [stored, isParent, nothing]
          rfl
      | some above =>
          obtain ⟨outer, isOuter, inside, -⟩ := coherent.isSmallest_of_parent isLoop isParent
          have before := (coherent.lt_of_inside isOuter isLoop inside).2
          have counted := inductionHypothesis above before isOuter
          have length_eq := (coherent.enclosing_perm isLoop isParent isOuter).length_eq
          rw [stored, isParent, length_eq, List.length_cons, ← counted]
          simp only [LoopForest.depthAbove, Option.bind_some, isOuter, Option.map_some,
            Option.getD_some]

/-! ## The loop of a block -/

/-- The last of the loops around a block is the smallest one. -/
theorem isSmallest_of_loopFor? (coherent : graph.Coherent)
    (found : (graph.loopForest graph.dominators).loopFor? block = some handle) :
    (graph.loopForest graph.dominators).IsSmallest (fun loop => block ∈ loop.blocks) handle := by
  obtain ⟨front, listed⟩ := List.getLast?_eq_some_iff.1 found
  have mem_iff (other : LoopId) : other ∈ front ++ [handle] ↔
      ∃ inner, (graph.loopForest graph.dominators).loops.get? other = some inner ∧
        block ∈ inner.blocks := by
    rw [← listed]
    simp only [Table.handles, List.mem_filter, List.mem_range, Option.any_eq_true,
      Loop.contains_iff, and_iff_right_iff_imp]
    intro ⟨inner, isInner, _⟩
    exact lt_size_of_get? isInner
  have ascending : (front ++ [handle]).Pairwise (· < ·) := by
    rw [← listed]
    exact List.pairwise_lt_range.filter _
  obtain ⟨loop, isLoop, member⟩ := (mem_iff handle).1 (by simp)
  refine ⟨loop, isLoop, member, fun other inner isInner innerMember => ?_⟩
  rcases List.mem_append.1 ((mem_iff other).2 ⟨inner, isInner, innerMember⟩) with early | last
  · have before := (List.pairwise_append.1 ascending).2.2 other early handle (by simp)
    exact .inr (coherent.size_lt_of_lt isInner isLoop before innerMember member)
  · exact .inl (List.mem_singleton.1 last)

theorem loopFor?_eq_some_iff (coherent : graph.Coherent) :
    (graph.loopForest graph.dominators).loopFor? block = some handle ↔
      (graph.loopForest graph.dominators).IsSmallest (fun loop => block ∈ loop.blocks) handle := by
  constructor
  · exact coherent.isSmallest_of_loopFor?
  · intro smallest
    cases found : (graph.loopForest graph.dominators).loopFor? block with
    | none =>
        obtain ⟨loop, isLoop, member, -⟩ := smallest
        exact absurd member (LoopForest.loopFor?_eq_none_iff.1 found handle loop isLoop)
    | some last => exact congrArg some ((coherent.isSmallest_of_loopFor? found).unique smallest)

end FlowGraph.Coherent

/-- The loop forest of a function is a nesting by containment. -/
theorem Function.nestsByContainment_loopForest (function : Function) :
    (function.graph.loopForest function.graph.dominators).NestsByContainment := by
  have coherent := function.coherent_graph
  have nests := function.graph.nests_loopForest function.graph.dominators
  exact {
    apart_or_inside := coherent.apart_or_inside
    parent_iff := fun isLoop above => coherent.parent_eq_some_iff isLoop
    parent_none_iff := coherent.parent_eq_none_iff
    nodup_subLoops := nests.nodup_subLoops
    mem_subLoops_iff := by
      intro handle loop isLoop child
      rw [← LoopForest.parentOf?_eq_some_iff, ← nests.mem_subLoops, isLoop]
      rfl
    nodup_topLevel := nests.nodup_topLevel
    mem_topLevel_iff := fun handle => nests.mem_topLevel_iff
    depth_eq := coherent.depth_eq
    loopFor?_iff := fun block handle => coherent.loopFor?_eq_some_iff
    loopFor?_none_iff := fun block => LoopForest.loopFor?_eq_none_iff }

/-! ## A loop inside a loop -/

namespace NestedSpin

/-- The header of a loop goes to a block that spins, and a latch comes back. -/
def kernel : Function where
  name := "k"
  kind := .kernel
  arguments := [⟨"c", .bool⟩]
  blocks := ⟨[⟨some "entry", [0]⟩, ⟨some "outer", [1]⟩, ⟨some "inner", [2]⟩,
    ⟨some "latch", [3]⟩, ⟨some "exit", [4]⟩]⟩
  instructions := ⟨[.branch 1, .condBranch (.argument 0) 2 4, .condBranch (.argument 0) 2 3,
    .branch 1, .ret none]⟩
  valueNames := .empty

/-- The block that spins. -/
def inner : Loop := ⟨2, .ofList [2], some 0, [], 2⟩

theorem is_inner : (kernel.graph.loopForest kernel.graph.dominators).loops.get? 1 = some inner := by
  decide +kernel

/-- The inner loop hangs below the smallest loop around it, one deeper than the
one loop there is, and is the loop of its block. -/
theorem inner_nested : (kernel.graph.loopForest kernel.graph.dominators).loops.get? 1 = some inner ∧
    (kernel.graph.loopForest kernel.graph.dominators).IsSmallest inner.StrictlyInside 0 ∧
    ((kernel.graph.loopForest kernel.graph.dominators).enclosing inner).length = 1 ∧
    (kernel.graph.loopForest kernel.graph.dominators).IsSmallest (fun loop => 2 ∈ loop.blocks) 1 := by
  have nests := kernel.nestsByContainment_loopForest
  have smallest := (nests.parent_iff is_inner 0).1 rfl
  have deep : 2 = _ + 1 := nests.depth_eq is_inner
  have found : (kernel.graph.loopForest kernel.graph.dominators).loopFor? 2 = some 1 := by
    decide +kernel
  exact ⟨is_inner, smallest, (Nat.succ.inj deep).symm, (nests.loopFor?_iff 2 1).1 found⟩

end NestedSpin

end Workgroup

import Mathlib.Data.List.Perm.Subperm
import Workgroup.Proofs.Flow.NaturalLoop

/-!
Contract: what becomes of a loop forest while bodies are adopted.

Each body becomes a loop behind the ones before it and hangs below the smallest
of those that contain its header.  Parents therefore come before their nested
loops, and a search from the loops without parent meets each loop once.

Owns:
- what adoption does to each handle;
- the invariant of the nesting, its step and its run;
- the postorder as a list of all loops.
-/

namespace Workgroup

namespace LoopForest

/-! ## Adoption -/

variable {forest : LoopForest} {handle other child above : LoopId} {handles : List LoopId}
  {loop : Loop}

/-- The parent of a loop, if it has one. -/
def parentOf? (forest : LoopForest) (handle : LoopId) : Option LoopId :=
  (forest.loops.get? handle).bind Loop.parent

/-- The header and the blocks of a loop. -/
def bodyOf? (forest : LoopForest) (handle : LoopId) : Option (BlockId × OrderedSet BlockId) :=
  (forest.loops.get? handle).map fun loop => (loop.header, loop.blocks)

/-- The loops in front of a handle around a block that have another header. -/
def aroundBefore (forest : LoopForest) (bound : LoopId) (header : BlockId) : List LoopId :=
  (List.range bound).filter fun handle =>
    (forest.loops.get? handle).any fun loop => loop.header != header && loop.contains header

theorem mem_aroundBefore {bound : LoopId} {header : BlockId} :
    handle ∈ forest.aroundBefore bound header ↔ handle < bound ∧
      ∃ loop, forest.loops.get? handle = some loop ∧ loop.header ≠ header ∧
        header ∈ loop.blocks := by
  simp only [aroundBefore, List.mem_filter, List.mem_range, Option.any_eq_true, Bool.and_eq_true,
    bne_iff_ne, Loop.contains_iff]

theorem smallest?_mem (chosen : forest.smallest? handles = some handle) : handle ∈ handles := by
  induction handles generalizing handle with
  | nil => exact absurd chosen nofun
  | cons first rest inductionHypothesis =>
      unfold smallest? at chosen
      cases later : forest.smallest? rest with
      | none =>
          rw [later] at chosen
          cases chosen
          exact List.mem_cons_self
      | some next =>
          have nextMember := inductionHypothesis later
          simp only [later] at chosen
          split at chosen
          · cases chosen
            exact List.mem_cons_of_mem first nextMember
          · cases chosen
            exact List.mem_cons_self

/-- Of a list with a member the smallest loop is chosen. -/
theorem exists_smallest? (member : other ∈ handles) :
    ∃ handle, forest.smallest? handles = some handle ∧
      forest.sizeOf handle ≤ forest.sizeOf other := by
  induction handles with
  | nil => exact absurd member List.not_mem_nil
  | cons first rest inductionHypothesis =>
      unfold smallest?
      cases later : forest.smallest? rest with
      | none =>
          refine ⟨first, rfl, ?_⟩
          rcases List.mem_cons.1 member with rfl | member
          · exact Nat.le_refl _
          · obtain ⟨handle, chosen, -⟩ := inductionHypothesis member
            exact absurd (later.symm.trans chosen) nofun
      | some next =>
          have least : other ∈ rest → forest.sizeOf next ≤ forest.sizeOf other := by
            intro member
            obtain ⟨handle, chosen, smaller⟩ := inductionHypothesis member
            cases later.symm.trans chosen
            exact smaller
          by_cases less : forest.sizeOf next < forest.sizeOf first
          · refine ⟨next, if_pos less, ?_⟩
            rcases List.mem_cons.1 member with rfl | member
            · omega
            · exact least member
          · refine ⟨first, if_neg less, ?_⟩
            rcases List.mem_cons.1 member with rfl | member
            · omega
            · have := least member
              omega

/-- A choice depends on the sizes of the listed loops alone. -/
theorem smallest?_congr {changed : LoopForest}
    (same : ∀ handle ∈ handles, changed.sizeOf handle = forest.sizeOf handle) :
    changed.smallest? handles = forest.smallest? handles := by
  induction handles with
  | nil => rfl
  | cons first rest inductionHypothesis =>
      have restSame := inductionHypothesis fun handle member =>
        same handle (List.mem_cons_of_mem first member)
      unfold smallest?
      rw [restSame]
      cases later : forest.smallest? rest with
      | none => rfl
      | some next =>
          have nextSame := same next (List.mem_cons_of_mem first (smallest?_mem later))
          have firstSame := same first List.mem_cons_self
          simp only [nextSame, firstSame]

/-- What adoption does to each handle: the loop is stored behind the others,
and its parent gets it as its last nested loop. -/
theorem get?_adopt (forest : LoopForest) (entry : BlockId × OrderedSet BlockId)
    (handle : LoopId) :
    (forest.adopt entry).loops.get? handle =
      if handle = forest.loops.size then
        some ⟨entry.1, entry.2, forest.smallest? (forest.around entry.1), [],
          (((forest.smallest? (forest.around entry.1)).bind forest.loops.get?).map
            Loop.depth).getD 0 + 1⟩
      else
        (forest.loops.get? handle).map fun loop =>
          if forest.smallest? (forest.around entry.1) = some handle then
            { loop with subLoops := loop.subLoops ++ [forest.loops.size] }
          else loop := by
  unfold adopt
  cases chosen : forest.smallest? (forest.around entry.1) with
  | none =>
      simp only [Table.get?_append, reduceCtorEq, if_false, Option.map_id']
  | some above =>
      have aboveBelow : above < forest.loops.size := (mem_aroundBefore.1 (smallest?_mem chosen)).1
      simp only [Table.get?_modify, Table.get?_append, Option.some.injEq]
      by_cases same : above = handle
      · subst same
        rw [if_neg (Nat.ne_of_lt aboveBelow), if_neg (Nat.ne_of_lt aboveBelow)]
        simp only [if_true]
      · simp only [if_neg same]
        split <;> simp

theorem size_adopt (forest : LoopForest) (entry : BlockId × OrderedSet BlockId) :
    (forest.adopt entry).loops.size = forest.loops.size + 1 := by
  unfold adopt
  cases forest.smallest? (forest.around entry.1) with
  | none => exact Table.size_append _ _
  | some above => exact (Table.size_modify _ _ _).trans (Table.size_append _ _)

theorem topLevel_adopt (forest : LoopForest) (entry : BlockId × OrderedSet BlockId) :
    (forest.adopt entry).topLevel =
      if (forest.smallest? (forest.around entry.1)).isNone then
        forest.topLevel ++ [forest.loops.size]
      else forest.topLevel := by
  unfold adopt
  cases forest.smallest? (forest.around entry.1) with
  | none => rfl
  | some above => rfl

section Adoption

variable {entry : BlockId × OrderedSet BlockId}

theorem bodyOf?_adopt (below : handle < forest.loops.size) :
    (forest.adopt entry).bodyOf? handle = forest.bodyOf? handle := by
  unfold bodyOf?
  rw [get?_adopt, if_neg (Nat.ne_of_lt below), Option.map_map]
  congr 1
  funext loop
  dsimp only [Function.comp]
  split <;> rfl

theorem bodyOf?_adopt_size :
    (forest.adopt entry).bodyOf? forest.loops.size = some entry := by
  unfold bodyOf?
  rw [get?_adopt, if_pos rfl]
  rfl

theorem parentOf?_adopt : (forest.adopt entry).parentOf? handle =
    if handle = forest.loops.size then forest.smallest? (forest.around entry.1)
    else forest.parentOf? handle := by
  unfold parentOf?
  rw [get?_adopt]
  by_cases same : handle = forest.loops.size
  · rw [if_pos same, if_pos same]
    rfl
  · rw [if_neg same, if_neg same]
    cases forest.loops.get? handle with
    | none => rfl
    | some loop =>
        dsimp only [Option.map_some, Option.bind_some]
        split <;> rfl

theorem sizeOf_eq_bodyOf? (forest : LoopForest) (handle : LoopId) :
    forest.sizeOf handle = ((forest.bodyOf? handle).map fun body => body.2.size).getD 0 := by
  unfold sizeOf bodyOf?
  rw [Option.map_map]
  rfl

theorem aroundBefore_eq_bodyOf? (forest : LoopForest) (bound : LoopId) (header : BlockId) :
    forest.aroundBefore bound header = (List.range bound).filter fun handle =>
      (forest.bodyOf? handle).any fun body => body.1 != header && body.2.contains header := by
  unfold aroundBefore bodyOf?
  refine List.filter_congr fun handle _ => ?_
  rw [Option.any_map]
  rfl

/-- The choice of a parent is not changed by later adoptions. -/
theorem smallest?_aroundBefore_adopt {bound : LoopId} (enough : bound ≤ forest.loops.size)
    (header : BlockId) :
    (forest.adopt entry).smallest? ((forest.adopt entry).aroundBefore bound header) =
      forest.smallest? (forest.aroundBefore bound header) := by
  have sameList :
      (forest.adopt entry).aroundBefore bound header = forest.aroundBefore bound header := by
    rw [aroundBefore_eq_bodyOf?, aroundBefore_eq_bodyOf?]
    refine List.filter_congr fun handle member => ?_
    rw [bodyOf?_adopt (Nat.lt_of_lt_of_le (List.mem_range.1 member) enough)]
  rw [sameList]
  apply smallest?_congr
  intro handle member
  have below := (mem_aroundBefore.1 member).1
  rw [sizeOf_eq_bodyOf?, sizeOf_eq_bodyOf?, bodyOf?_adopt (Nat.lt_of_lt_of_le below enough)]

end Adoption

/-- The nesting of a forest: each loop hangs below the smallest of the loops in
front of it that contain its header. -/
structure Nests (forest : LoopForest) : Prop where
  parent_eq : ∀ {handle loop}, forest.loops.get? handle = some loop →
    loop.parent = forest.smallest? (forest.aroundBefore handle loop.header)
  subLoops_eq : ∀ {handle loop}, forest.loops.get? handle = some loop →
    loop.subLoops =
      forest.loops.handles.filter fun child => decide (forest.parentOf? child = some handle)
  topLevel_eq :
    forest.topLevel = forest.loops.handles.filter fun child => (forest.parentOf? child).isNone

/-- A parent comes before its nested loops and contains their headers. -/
theorem Nests.parent_around (nests : forest.Nests)
    (isParent : forest.parentOf? child = some above) :
    ∃ loop around, forest.loops.get? child = some loop ∧ forest.loops.get? above = some around ∧
      above < child ∧ around.header ≠ loop.header ∧ loop.header ∈ around.blocks := by
  obtain ⟨loop, isLoop, chosen⟩ := Option.bind_eq_some_iff.1 isParent
  rw [nests.parent_eq isLoop] at chosen
  obtain ⟨before, around, isAround, different, member⟩ := mem_aroundBefore.1 (smallest?_mem chosen)
  exact ⟨loop, around, isLoop, isAround, before, different, member⟩

theorem Nests.parent_lt (nests : forest.Nests) (isParent : forest.parentOf? child = some above) :
    above < child := by
  obtain ⟨loop, around, -, -, before, -⟩ := nests.parent_around isParent
  exact before

theorem nests_empty : empty.Nests where
  parent_eq := fun isLoop => absurd isLoop nofun
  subLoops_eq := fun isLoop => absurd isLoop nofun
  topLevel_eq := rfl

/-- The handles whose parents pass a test, after an adoption. -/
theorem filter_handles_adopt (forest : LoopForest) (entry : BlockId × OrderedSet BlockId)
    (test : Option LoopId → Bool) :
    (forest.adopt entry).loops.handles.filter
        (fun child => test ((forest.adopt entry).parentOf? child)) =
      (forest.loops.handles.filter fun child => test (forest.parentOf? child)) ++
        if test (forest.smallest? (forest.around entry.1)) then [forest.loops.size] else [] := by
  have handles_eq : (forest.adopt entry).loops.handles =
      forest.loops.handles ++ [forest.loops.size] := by
    unfold Table.handles
    rw [size_adopt, List.range_succ]
  have others : forest.loops.handles.filter
      (fun child => test ((forest.adopt entry).parentOf? child)) =
      forest.loops.handles.filter fun child => test (forest.parentOf? child) := by
    refine List.filter_congr fun child listed => ?_
    rw [parentOf?_adopt, if_neg (Nat.ne_of_lt (List.mem_range.1 listed))]
  rw [handles_eq, List.filter_append, others, List.filter_singleton, parentOf?_adopt, if_pos rfl,
    Bool.cond_eq_ite]

theorem Nests.parent_eq_adopt (nests : forest.Nests) {entry : BlockId × OrderedSet BlockId}
    (isLoop : (forest.adopt entry).loops.get? handle = some loop) :
    loop.parent = (forest.adopt entry).smallest?
      ((forest.adopt entry).aroundBefore handle loop.header) := by
  rw [get?_adopt] at isLoop
  by_cases same : handle = forest.loops.size
  · rw [if_pos same] at isLoop
    cases isLoop
    rw [same]
    exact (smallest?_aroundBefore_adopt (Nat.le_refl _) entry.1).symm
  · rw [if_neg same] at isLoop
    obtain ⟨before, isBefore, rfl⟩ := Option.map_eq_some_iff.1 isLoop
    have below : handle ≤ forest.loops.size :=
      Nat.le_of_lt (Table.get?_isSome_iff.1 (isBefore ▸ rfl))
    have kept := nests.parent_eq isBefore
    split <;> exact kept.trans (smallest?_aroundBefore_adopt below _).symm

/-- The newest loop has no nested loops, and its parent gets it as the last one. -/
theorem Nests.subLoops_eq_adopt (nests : forest.Nests) {entry : BlockId × OrderedSet BlockId}
    (isLoop : (forest.adopt entry).loops.get? handle = some loop) :
    loop.subLoops = (forest.adopt entry).loops.handles.filter fun child =>
      decide ((forest.adopt entry).parentOf? child = some handle) := by
  rw [filter_handles_adopt forest entry fun parent => decide (parent = some handle)]
  rw [get?_adopt] at isLoop
  by_cases same : handle = forest.loops.size
  · rw [if_pos same] at isLoop
    cases isLoop
    have nothingBelow : forest.loops.handles.filter
        (fun child => decide (forest.parentOf? child = some handle)) = [] := by
      rw [List.filter_eq_nil_iff]
      intro child listed isParent
      have before := nests.parent_lt (of_decide_eq_true isParent)
      rw [same] at before
      exact Nat.lt_asymm before (List.mem_range.1 listed)
    have notItself : forest.smallest? (forest.around entry.1) ≠ some handle := fun isParent =>
      absurd same (Nat.ne_of_lt (mem_aroundBefore.1 (smallest?_mem isParent)).1)
    rw [nothingBelow, decide_eq_false notItself]
    rfl
  · rw [if_neg same] at isLoop
    obtain ⟨before, isBefore, rfl⟩ := Option.map_eq_some_iff.1 isLoop
    have kept := nests.subLoops_eq isBefore
    by_cases isParent : forest.smallest? (forest.around entry.1) = some handle
    · rw [if_pos isParent, decide_eq_true isParent, ← kept]
      rfl
    · rw [if_neg isParent, decide_eq_false isParent, ← kept]
      exact (List.append_nil _).symm

/-- Adoption keeps the nesting. -/
theorem Nests.adopt (nests : forest.Nests) (entry : BlockId × OrderedSet BlockId) :
    (forest.adopt entry).Nests where
  parent_eq := nests.parent_eq_adopt
  subLoops_eq := nests.subLoops_eq_adopt
  topLevel_eq := by
    rw [filter_handles_adopt forest entry Option.isNone, topLevel_adopt, ← nests.topLevel_eq]
    split
    · rfl
    · exact (List.append_nil _).symm

/-- A forest that has adopted bodies nests and stores them in order. -/
theorem foldl_adopt (bodies : List (BlockId × OrderedSet BlockId)) :
    (bodies.foldl LoopForest.adopt empty).Nests ∧
      ∀ handle, (bodies.foldl LoopForest.adopt empty).bodyOf? handle = bodies[handle]? := by
  -- Induction from the last body on, since that is the one adopted last.
  suffices general : (bodies.foldl LoopForest.adopt empty).Nests ∧
      (bodies.foldl LoopForest.adopt empty).loops.size = bodies.length ∧
      ∀ handle, (bodies.foldl LoopForest.adopt empty).bodyOf? handle = bodies[handle]? from
    ⟨general.1, general.2.2⟩
  induction bodies using List.reverseRecOn with
  | nil => exact ⟨nests_empty, rfl, fun _ => rfl⟩
  | append_singleton bodies entry inductionHypothesis =>
      obtain ⟨nests, sizeEq, stored⟩ := inductionHypothesis
      rw [List.foldl_append, List.foldl_cons, List.foldl_nil]
      refine ⟨nests.adopt entry, ?_, fun handle => ?_⟩
      · rw [size_adopt, sizeEq, List.length_append, List.length_singleton]
      · rcases Nat.lt_trichotomy handle bodies.length with below | rfl | above
        · rw [bodyOf?_adopt (sizeEq ▸ below), stored, List.getElem?_append_left below]
        · rw [← sizeEq, bodyOf?_adopt_size, sizeEq, List.getElem?_concat_length]
        · rw [List.getElem?_eq_none (by simp; omega)]
          unfold bodyOf?
          rw [Table.get?_eq_none_iff.2]
          · rfl
          · rw [size_adopt]
            omega

/-! ## Postorder -/

open DominatorTree (Climbs)

/-- Climbing to parents leads to smaller handles. -/
theorem Nests.climbs_le (nests : forest.Nests) (climbs : Climbs forest.parentOf? child above) :
    above ≤ child := by
  unfold Climbs at climbs
  induction climbs with
  | refl => exact Nat.le_refl _
  | tail _ isParent inductionHypothesis =>
      exact Nat.le_trans (Nat.le_of_lt (nests.parent_lt isParent)) inductionHypothesis

/-- Loops with the same parent, or both without one, are not nested in each other. -/
theorem Nests.eq_of_climbs (nests : forest.Nests)
    (siblings : forest.parentOf? child = forest.parentOf? other)
    (climbs : Climbs forest.parentOf? child other) : child = other := by
  rcases Climbs.iff_eq_or.1 climbs with same | ⟨above, isParent, rest⟩
  · exact same
  · have lower := nests.parent_lt (siblings.symm.trans isParent)
    exact absurd (nests.climbs_le rest) (Nat.not_le.2 lower)

/-- The nested loops of a list of siblings, each searched with a search that
lists what climbs to it, are listed once. -/
theorem Nests.nodup_flatMap (nests : forest.Nests) {search : LoopId → List LoopId}
    (nodup : handles.Nodup)
    (siblings : ∀ left ∈ handles, ∀ right ∈ handles,
      forest.parentOf? left = forest.parentOf? right)
    (listed : ∀ handle ∈ handles, (search handle).Nodup ∧
      ∀ child ∈ search handle, Climbs forest.parentOf? child handle) :
    (handles.flatMap search).Nodup := by
  refine List.nodup_flatMap.2 ⟨fun handle member => (listed handle member).1, ?_⟩
  refine List.Pairwise.imp_of_mem ?_ nodup
  intro left right leftMember rightMember different child leftListed rightListed
  apply different
  have leftClimbs := (listed left leftMember).2 child leftListed
  have rightClimbs := (listed right rightMember).2 child rightListed
  have same := siblings left leftMember right rightMember
  rcases leftClimbs.total rightClimbs with climbs | climbs
  · exact nests.eq_of_climbs same climbs
  · exact (nests.eq_of_climbs same.symm climbs).symm

theorem Nests.mem_subLoops (nests : forest.Nests) :
    child ∈ ((forest.loops.get? handle).map Loop.subLoops).getD [] ↔
      forest.parentOf? child = some handle := by
  cases isLoop : forest.loops.get? handle with
  | none =>
      refine ⟨fun member => absurd member List.not_mem_nil, fun isParent => ?_⟩
      obtain ⟨-, around, -, isAround, -⟩ := nests.parent_around isParent
      exact absurd (isLoop.symm.trans isAround) nofun
  | some loop =>
      rw [Option.map_some, Option.getD_some, nests.subLoops_eq isLoop, List.mem_filter,
        decide_eq_true_iff]
      refine and_iff_right_of_imp fun isParent => ?_
      obtain ⟨loop, -, isLoop, -⟩ := nests.parent_around isParent
      exact List.mem_range.2 (Table.get?_isSome_iff.1 (isLoop ▸ rfl))

/-- With fuel for the handles above its own, the search from a loop lists the
loops that climb to it, each once. -/
theorem Nests.nested (nests : forest.Nests) :
    ∀ fuel handle, handle < forest.loops.size → forest.loops.size ≤ handle + fuel →
      (forest.nested fuel handle).Nodup ∧
        ∀ child, child ∈ forest.nested fuel handle ↔ Climbs forest.parentOf? child handle := by
  intro fuel
  induction fuel with
  | zero =>
      intro handle below enough
      exact absurd enough (Nat.not_le.2 below)
  | succ fuel inductionHypothesis =>
      intro handle below enough
      have deeper (child : LoopId) (isParent : forest.parentOf? child = some handle) :=
        inductionHypothesis child
          (by
            obtain ⟨loop, -, isLoop, -⟩ := nests.parent_around isParent
            exact Table.get?_isSome_iff.1 (isLoop ▸ rfl))
          (calc forest.loops.size ≤ handle + (fuel + 1) := enough
            _ = handle + 1 + fuel := by rw [Nat.add_assoc, Nat.add_comm 1 fuel]
            _ ≤ child + fuel := Nat.add_le_add_right (nests.parent_lt isParent) fuel)
      unfold LoopForest.nested
      have mem_below (child : LoopId) :
          child ∈ (((forest.loops.get? handle).map Loop.subLoops).getD []).flatMap
              (forest.nested fuel) ↔
            ∃ middle, forest.parentOf? middle = some handle ∧
              Climbs forest.parentOf? child middle := by
        rw [List.mem_flatMap]
        refine exists_congr fun middle => ?_
        rw [nests.mem_subLoops]
        exact and_congr_right fun isParent => (deeper middle isParent).2 child
      refine ⟨List.nodup_append.2 ⟨?_, List.nodup_singleton handle, ?_⟩, fun child => ?_⟩
      · apply nests.nodup_flatMap
        · cases isLoop : forest.loops.get? handle with
          | none => exact .nil
          | some loop =>
              rw [Option.map_some, Option.getD_some, nests.subLoops_eq isLoop]
              exact List.nodup_range.filter _
        · intro left leftMember right rightMember
          rw [nests.mem_subLoops] at leftMember rightMember
          exact leftMember.trans rightMember.symm
        · intro middle member
          have isParent := nests.mem_subLoops.1 member
          exact ⟨(deeper middle isParent).1, fun child => ((deeper middle isParent).2 child).1⟩
      · intro child member self selfMember same
        obtain ⟨middle, isParent, climbs⟩ := (mem_below child).1 member
        rw [same, List.mem_singleton.1 selfMember] at climbs
        exact absurd (nests.climbs_le climbs) (Nat.not_le.2 (nests.parent_lt isParent))
      · rw [List.mem_append, mem_below, List.mem_singleton]
        constructor
        · rintro (⟨middle, isParent, climbs⟩ | rfl)
          · exact climbs.trans (.head isParent (.refl handle))
          · exact .refl child
        · intro climbs
          rcases Relation.ReflTransGen.cases_tail climbs with same | ⟨middle, rest, isParent⟩
          · exact .inr same.symm
          · exact .inl ⟨middle, isParent, rest⟩

/-- Every loop climbs to one without parent. -/
theorem Nests.exists_root (nests : forest.Nests) (child : LoopId) :
    ∃ root, Climbs forest.parentOf? child root ∧ forest.parentOf? root = none := by
  induction child using Nat.strongRecOn with
  | _ child inductionHypothesis =>
      cases isParent : forest.parentOf? child with
      | none => exact ⟨child, .refl child, isParent⟩
      | some above =>
          obtain ⟨root, climbs, isRoot⟩ :=
            inductionHypothesis above (nests.parent_lt isParent)
          exact ⟨root, .head isParent climbs, isRoot⟩

/-- The postorder lists every loop once. -/
theorem Nests.postorder_perm (nests : forest.Nests) :
    forest.postorder.Perm forest.loops.handles := by
  have mem_topLevel (handle : LoopId) :
      handle ∈ forest.topLevel ↔ handle < forest.loops.size ∧ forest.parentOf? handle = none := by
    rw [nests.topLevel_eq, List.mem_filter, Option.isNone_iff_eq_none]
    exact and_congr_left' List.mem_range
  have searched (handle : LoopId) (member : handle ∈ forest.topLevel) :=
    nests.nested forest.loops.size handle ((mem_topLevel handle).1 member).1 (Nat.le_add_left _ _)
  have nodup : forest.postorder.Nodup := by
    refine nests.nodup_flatMap ?_ (fun left leftMember right rightMember => ?_) ?_
    · rw [nests.topLevel_eq]
      exact List.nodup_range.filter _
    · rw [((mem_topLevel left).1 leftMember).2, ((mem_topLevel right).1 rightMember).2]
    · intro handle member
      exact ⟨(searched handle member).1, fun child => ((searched handle member).2 child).1⟩
  refine (List.perm_ext_iff_of_nodup nodup List.nodup_range).2 fun handle => ?_
  unfold postorder
  rw [List.mem_flatMap, List.mem_range]
  constructor
  · rintro ⟨root, isRoot, listed⟩
    rcases Climbs.iff_eq_or.1 (((searched root isRoot).2 handle).1 listed) with
      rfl | ⟨above, isParent, -⟩
    · exact ((mem_topLevel handle).1 isRoot).1
    · obtain ⟨loop, -, isLoop, -⟩ := nests.parent_around isParent
      exact Table.get?_isSome_iff.1 (isLoop ▸ rfl)
  · intro below
    obtain ⟨root, climbs, isRoot⟩ := nests.exists_root handle
    have topLevel : root ∈ forest.topLevel :=
      (mem_topLevel root).2 ⟨Nat.lt_of_le_of_lt (nests.climbs_le climbs) below, isRoot⟩
    exact ⟨root, topLevel, ((searched root topLevel).2 handle).2 climbs⟩

end LoopForest

end Workgroup

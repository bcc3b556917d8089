import Mathlib.Data.List.Count
import Workgroup.Proofs.Flow.NaturalLoop

/-!
Contract: how often two work-items visit the blocks of a loop.

A work-item passes through a loop from the header to the first block outside.
If the loop is left at one block only, two passages that take the same arms
there visit that block equally often.  They visit the header equally often, for
all such pairs, exactly if the visits of the two blocks alternate.

Owns:
- passages, the arms they take at a block, and circuits inside a loop;
- the number of visits of the exiting block;
- the number of visits of the header and what decides it.
-/

namespace Workgroup

/-- The blocks right behind the visits of a block, in the order of the visits. -/
def followers (block : BlockId) : List BlockId → List BlockId
  | [] => []
  | [_] => []
  | first :: second :: rest =>
      if first = block then second :: followers block (second :: rest)
      else followers block (second :: rest)

/-- Two runs leave a block in the same direction at the first visit, at the
second visit, and so on as long as both visit it. -/
def SameArms (block : BlockId) (left right : List BlockId) : Prop :=
  ∀ (visit : Nat) (leftArm rightArm : BlockId),
    (followers block left)[visit]? = some leftArm →
    (followers block right)[visit]? = some rightArm → leftArm = rightArm

section Followers

variable {block middle last : BlockId} {front back nodes : List BlockId}

theorem followers_append :
    followers block (front ++ middle :: back) =
      followers block (front ++ [middle]) ++ followers block (middle :: back) := by
  induction front with
  | nil => rfl
  | cons first rest inductionHypothesis =>
      cases rest with
      | nil =>
          simp only [List.cons_append, List.nil_append, followers]
          split <;> rfl
      | cons second rest =>
          simp only [List.cons_append] at inductionHypothesis
          simp only [List.cons_append, followers]
          split
          · rw [inductionHypothesis]
            rfl
          · exact inductionHypothesis

theorem followers_subset : followers block nodes ⊆ nodes.tail := by
  induction nodes with
  | nil => exact List.Subset.refl _
  | cons first rest inductionHypothesis =>
      cases rest with
      | nil => exact List.nil_subset _
      | cons second rest =>
          have deeper : followers block (second :: rest) ⊆ second :: rest :=
            List.Subset.trans inductionHypothesis (List.subset_cons_self second rest)
          unfold followers
          split
          · exact List.cons_subset.2 ⟨List.mem_cons_self, deeper⟩
          · exact deeper

/-- Every visit but one at the end of the run has a block behind it. -/
theorem length_followers : (followers block (nodes ++ [last])).length = nodes.count block := by
  induction nodes with
  | nil => rfl
  | cons first rest inductionHypothesis =>
      have counted : (followers block (first :: (rest ++ [last]))).length =
          (followers block (rest ++ [last])).length + if first = block then 1 else 0 := by
        cases rest with
        | nil =>
            simp only [List.nil_append, followers]
            split <;> rfl
        | cons second rest =>
            simp only [List.cons_append, followers]
            split <;> rfl
      rw [List.cons_append, counted, inductionHypothesis, List.count_cons]
      simp only [beq_iff_eq]

theorem followers_eq_nil (fresh : block ∉ nodes) : followers block (nodes ++ [last]) = [] := by
  rw [← List.length_eq_zero_iff, length_followers, List.count_eq_zero]
  exact fresh

theorem SameArms.symm {left right : List BlockId} (same : SameArms block left right) :
    SameArms block right left :=
  fun visit leftArm rightArm isLeft isRight => (same visit rightArm leftArm isRight isLeft).symm

theorem SameArms.of_followers_eq {left right : List BlockId}
    (equal : followers block left = followers block right) : SameArms block left right := by
  intro visit leftArm rightArm isLeft isRight
  rw [equal] at isLeft
  exact Option.some.inj (isLeft.symm.trans isRight)

end Followers

namespace Loop

variable {graph : FlowGraph} {loop : Loop} {block other first second exiting exit : BlockId}
  {blocks inside : List BlockId}

/-- A run of a work-item from the header of a loop to the block at which it
has left the loop. -/
structure Passage (graph : FlowGraph) (loop : Loop) (inside : List BlockId) (exit : BlockId) :
    Prop where
  walk : Walk graph.successors loop.header exit (inside ++ [exit])
  stays : ∀ block ∈ inside, block ∈ loop.blocks
  leaves : exit ∉ loop.blocks

/-- A walk inside a loop that leads from a block back to it; the start is not
listed. -/
structure Circuit (graph : FlowGraph) (loop : Loop) (block : BlockId) (blocks : List BlockId) :
    Prop where
  walk : Walk graph.successors block block (block :: blocks)
  moves : blocks ≠ []
  stays : ∀ other ∈ block :: blocks, other ∈ loop.blocks

/-- Between two visits of one of the blocks there is a visit of the other. -/
def Alternates (graph : FlowGraph) (loop : Loop) (first second : BlockId) : Prop :=
  (∀ blocks, loop.Circuit graph first blocks → second ∈ blocks) ∧
    ∀ blocks, loop.Circuit graph second blocks → first ∈ blocks

theorem Alternates.symm (alternates : loop.Alternates graph first second) :
    loop.Alternates graph second first :=
  ⟨alternates.2, alternates.1⟩

/-- A passage ends with a visit of the only exiting block. -/
theorem Passage.eq_snoc (passage : loop.Passage graph inside exit)
    (headerMember : loop.header ∈ loop.blocks) (only : loop.exitingBlocks graph = [exiting]) :
    ∃ before, inside = before ++ [exiting] := by
  have notEmpty : inside ≠ [] := by
    intro empty
    have walk := passage.walk
    rw [empty] at walk
    obtain ⟨tail, same⟩ := walk.start_eq_head
    have isExit : exit = loop.header := (List.cons.inj same).1
    exact passage.leaves (isExit ▸ headerMember)
  obtain ⟨before, last, rfl⟩ := List.eq_nil_or_concat inside |>.resolve_left notEmpty
  have walk := passage.walk
  rw [List.concat_eq_append, List.append_assoc] at walk
  have edge : exit ∈ graph.successors last := by
    cases walk.split.2 with
    | step edge rest =>
        obtain ⟨tail, same⟩ := rest.start_eq_head
        rw [(List.cons.inj same).1]
        exact edge
  have lastMember : last ∈ loop.blocks := passage.stays last (by simp)
  have isExiting : last ∈ loop.exitingBlocks graph :=
    mem_exitingBlocks.2 ⟨lastMember, exit, edge, passage.leaves⟩
  rw [only, List.mem_singleton] at isExiting
  exact ⟨before, by rw [List.concat_eq_append, isExiting]⟩

/-! ## Visits of the exiting block -/

theorem followers_exit (before : List BlockId) :
    followers exiting (before ++ [exiting] ++ [exit]) =
      followers exiting (before ++ [exiting]) ++ [exit] := by
  rw [List.append_assoc, List.singleton_append, followers_append]
  simp only [followers, if_true]

/-- A work-item that has left the loop is not overtaken by one that stays. -/
theorem Passage.count_exiting_le {leftInside rightInside : List BlockId} {leftExit rightExit : BlockId}
    (left : loop.Passage graph leftInside leftExit)
    (right : loop.Passage graph rightInside rightExit)
    (headerMember : loop.header ∈ loop.blocks) (only : loop.exitingBlocks graph = [exiting])
    (same : SameArms exiting (leftInside ++ [leftExit]) (rightInside ++ [rightExit])) :
    rightInside.count exiting ≤ leftInside.count exiting := by
  obtain ⟨leftBefore, rfl⟩ := left.eq_snoc headerMember only
  obtain ⟨rightBefore, rfl⟩ := right.eq_snoc headerMember only
  have leftLength : (followers exiting (leftBefore ++ [exiting])).length =
      leftBefore.count exiting := length_followers
  have rightLength : (followers exiting (rightBefore ++ [exiting])).length =
      rightBefore.count exiting := length_followers
  by_contra more
  have stillInside : leftBefore.count exiting < rightBefore.count exiting := by
    simp only [List.count_append] at more
    omega
  -- The last arm of the left run leaves the loop; the right run takes an arm inside there.
  have leftArm : (followers exiting (leftBefore ++ [exiting] ++ [leftExit]))[
      leftBefore.count exiting]? = some leftExit := by
    rw [followers_exit, ← leftLength]
    exact List.getElem?_concat_length
  have below : leftBefore.count exiting < (followers exiting (rightBefore ++ [exiting])).length := by
    rw [rightLength]
    exact stillInside
  have rightArm : (followers exiting (rightBefore ++ [exiting] ++ [rightExit]))[
      leftBefore.count exiting]? =
      some (followers exiting (rightBefore ++ [exiting]))[leftBefore.count exiting] := by
    rw [followers_exit, List.getElem?_append_left below]
    exact List.getElem?_eq_getElem below
  have agree := same _ _ _ leftArm rightArm
  have armMember : leftExit ∈ (rightBefore ++ [exiting]).tail := by
    rw [agree]
    exact followers_subset (List.getElem_mem below)
  exact left.leaves (right.stays leftExit (List.mem_of_mem_tail armMember))

/-- Two passages that take the same arms visit the exiting block equally often. -/
theorem Passage.count_exiting_eq {leftInside rightInside : List BlockId} {leftExit rightExit : BlockId}
    (left : loop.Passage graph leftInside leftExit)
    (right : loop.Passage graph rightInside rightExit)
    (headerMember : loop.header ∈ loop.blocks) (only : loop.exitingBlocks graph = [exiting])
    (same : SameArms exiting (leftInside ++ [leftExit]) (rightInside ++ [rightExit])) :
    leftInside.count exiting = rightInside.count exiting :=
  Nat.le_antisymm (right.count_exiting_le left headerMember only same.symm)
    (left.count_exiting_le right headerMember only same)

/-! ## Visits of the header -/

/-- The first of two blocks that alternate does not come back before the second. -/
theorem Alternates.not_mem_of_fresh (different : first ≠ second)
    (alternates : loop.Alternates graph first second) {stop : BlockId} {front back : List BlockId}
    (walk : Walk graph.successors first stop (first :: front ++ second :: back))
    (stays : ∀ block ∈ first :: front ++ second :: back, block ∈ loop.blocks)
    (secondFresh : second ∉ front) : first ∉ front := by
  intro member
  obtain ⟨start, later, rfl⟩ := List.append_of_mem member
  have lap : Walk graph.successors first first (first :: (start ++ [first])) := by
    have before := walk.split.1
    rw [← List.cons_append, List.append_assoc] at before
    exact before.split.1
  have inside : ∀ block ∈ first :: (start ++ [first]), block ∈ loop.blocks := by
    intro block onLap
    refine stays block (List.mem_append_left _ ?_)
    simp only [List.mem_cons, List.mem_append, List.not_mem_nil, or_false] at onLap ⊢
    tauto
  have onLap := alternates.1 _ ⟨lap, by simp, inside⟩
  rw [List.mem_append, List.mem_singleton] at onLap
  rcases onLap with onLap | same
  · exact secondFresh (List.mem_append_left _ onLap)
  · exact different same.symm

/-- If the visits of two blocks alternate, a walk that starts at the first
visits it once more often than the second or equally often, depending on where
the walk stops. -/
theorem Alternates.count_eq (different : first ≠ second)
    (alternates : loop.Alternates graph first second) {stop : BlockId}
    (walk : Walk graph.successors first stop blocks) (stays : ∀ block ∈ blocks, block ∈ loop.blocks)
    (ends : stop = first ∨ stop = second) :
    blocks.count first = blocks.count second + if stop = first then 1 else 0 := by
  -- The walk is cut at the first visit of the other block, and the roles change.
  induction sizeEq : blocks.length using Nat.strongRecOn generalizing first second blocks with
  | _ size inductionHypothesis =>
      obtain ⟨back, rfl⟩ := walk.start_eq_head
      cases back with
      | nil =>
          obtain ⟨init, same⟩ := walk.stop_eq_last
          have isStop : stop = first := by
            cases init with
            | nil => exact (List.cons.inj same).1.symm
            | cons head tail => simp at same
          rw [if_pos isStop, List.count_singleton_self, List.count_singleton,
            if_neg (by simpa using different)]
      | cons next rest =>
          have stopBehind : stop ∈ next :: rest := by
            cases walk with
            | step edge behind => exact behind.stop_mem
          have meets : second ∈ next :: rest := by
            rcases ends with isFirst | isSecond
            · rw [isFirst] at walk
              exact alternates.1 _ ⟨walk, List.cons_ne_nil _ _, stays⟩
            · rw [← isSecond]
              exact stopBehind
          obtain ⟨front, back, listed, secondFresh⟩ := List.eq_append_cons_of_mem meets
          rw [listed, ← List.cons_append] at walk stays ⊢
          have firstFresh := alternates.not_mem_of_fresh different walk stays secondFresh
          have shorter : (second :: back).length < size := by
            have := congrArg List.length listed
            simp only [List.length_cons, List.length_append] at this sizeEq ⊢
            omega
          have counted := inductionHypothesis _ shorter different.symm alternates.symm
            walk.split.2 (fun block member => stays block (List.mem_append_right _ member))
            ends.symm rfl
          have firstCount : (first :: front ++ second :: back).count first =
              1 + (second :: back).count first := by
            rw [List.count_append, List.count_cons_self, List.count_eq_zero.2 firstFresh]
          have secondCount : (first :: front ++ second :: back).count second =
              (second :: back).count second := by
            rw [List.count_append, List.count_cons_of_ne different, List.count_eq_zero.2 secondFresh,
              Nat.zero_add]
          rw [firstCount, secondCount, counted]
          rcases ends with isFirst | isSecond
          · rw [if_pos isFirst, if_neg (fun same => different (isFirst.symm.trans same))]
            omega
          · rw [if_pos isSecond, if_neg (fun same => different (same.symm.trans isSecond))]
            omega

/-- If the visits alternate, a passage visits the header as often as the
exiting block. -/
theorem Passage.count_header_eq (passage : loop.Passage graph inside exit)
    (headerMember : loop.header ∈ loop.blocks) (only : loop.exitingBlocks graph = [exiting])
    (alternates : loop.Alternates graph loop.header exiting) :
    inside.count loop.header = inside.count exiting := by
  by_cases same : loop.header = exiting
  · rw [same]
  · obtain ⟨before, rfl⟩ := passage.eq_snoc headerMember only
    have walk := passage.walk
    rw [List.append_assoc, List.singleton_append] at walk
    have counted := alternates.count_eq same walk.split.1 passage.stays (.inr rfl)
    rw [if_neg (Ne.symm same)] at counted
    exact counted

/-! ## What decides the visits of the header -/

theorem followers_once {front : List BlockId} (fresh : exiting ∉ front) :
    followers exiting (front ++ [exiting] ++ [exit]) = [exit] := by
  rw [followers_exit, followers_eq_nil fresh]
  rfl

theorem followers_lap {front middle rest : List BlockId} {arm : BlockId} (fresh : exiting ∉ front)
    (middleFresh : exiting ∉ middle) (listed : middle ++ [exiting] = arm :: rest) :
    followers exiting (front ++ exiting :: middle ++ [exiting] ++ [exit]) = [arm, exit] := by
  have behind : followers exiting (arm :: rest) = [] := by
    rw [← listed]
    exact followers_eq_nil middleFresh
  rw [followers_exit, List.append_assoc, List.cons_append, followers_append,
    followers_eq_nil fresh, listed]
  simp only [followers, if_true, behind]
  rfl

/-- A walk inside the loop from the header to another block that it meets at its end only. -/
theorem Natural.exists_approach (natural : loop.Natural graph) (member : block ∈ loop.blocks)
    (different : loop.header ≠ block) :
    ∃ front, Walk graph.successors loop.header block (loop.header :: (front ++ [block])) ∧
      block ∉ loop.header :: front ∧ ∀ other ∈ loop.header :: front, other ∈ loop.blocks := by
  obtain ⟨back, walk, -, stays⟩ := natural.exists_walk_from_header member
  obtain ⟨front, rest, listed, fresh, before, -⟩ := walk.to_first walk.stop_mem
  cases front with
  | nil => exact absurd (List.cons.inj listed).1 different
  | cons head front =>
      obtain ⟨rfl, rfl⟩ := List.cons.inj listed
      refine ⟨front, before, fresh, fun other onWalk => ?_⟩
      rcases List.mem_cons.1 onWalk with rfl | onWalk
      · exact natural.header_mem
      · exact stays other (List.mem_append_left _ onWalk)

theorem Circuit.stop_mem (circuit : loop.Circuit graph block blocks) : block ∈ blocks := by
  cases circuit.walk with
  | here => exact absurd rfl circuit.moves
  | step edge rest => exact rest.stop_mem

/-- A circuit of a block that comes back to it at the end only. -/
structure Lap (graph : FlowGraph) (loop : Loop) (block : BlockId) (middle : List BlockId) :
    Prop where
  walk : Walk graph.successors block block (block :: (middle ++ [block]))
  fresh : block ∉ middle
  stays : ∀ other ∈ middle, other ∈ loop.blocks

/-- A circuit begins with a lap. -/
theorem Circuit.exists_lap (circuit : loop.Circuit graph block blocks) :
    ∃ middle, loop.Lap graph block middle ∧ ∀ other ∈ middle, other ∈ blocks := by
  obtain ⟨middle, back, rfl, fresh⟩ := List.eq_append_cons_of_mem circuit.stop_mem
  have whole := circuit.walk
  rw [← List.cons_append] at whole
  refine ⟨middle, ⟨whole.split.1, fresh, fun other member => ?_⟩, fun other member => ?_⟩
  · exact circuit.stays other (List.mem_cons_of_mem _ (List.mem_append_left _ member))
  · exact List.mem_append_left _ member

/-- The only exiting block belongs to the loop and has a way out. -/
theorem exists_exit (only : loop.exitingBlocks graph = [exiting]) :
    exiting ∈ loop.blocks ∧ ∃ exit ∈ graph.successors exiting, exit ∉ loop.blocks := by
  have isExiting : exiting ∈ loop.exitingBlocks graph := by
    rw [only]
    exact List.mem_singleton_self exiting
  exact mem_exitingBlocks.1 isExiting

/-- A block of the loop other than the header has a lap through the header. -/
theorem Natural.exists_lap (natural : loop.Natural graph) (member : block ∈ loop.blocks)
    (different : loop.header ≠ block) : ∃ middle, loop.Lap graph block middle ∧
      loop.header ∈ middle := by
  obtain ⟨nodes, walk, stays⟩ := natural.exists_walk_to_header member
  obtain ⟨front, back, rfl, fresh, -, home⟩ := walk.from_last walk.start_mem
  obtain ⟨approach, again, approachFresh, approachStays⟩ :=
    natural.exists_approach member different
  have headerBehind : loop.header ∈ back := by
    rcases List.mem_cons.1 home.stop_mem with same | behind
    · exact absurd same different
    · exact behind
  refine ⟨back ++ approach, ⟨?_, ?_, ?_⟩, List.mem_append_left _ headerBehind⟩
  · have round := home.append again
    rw [List.cons_append, ← List.append_assoc] at round
    exact round
  · rw [List.mem_append]
    exact not_or.2 ⟨fresh, fun behind => approachFresh (List.mem_cons_of_mem _ behind)⟩
  · intro other onLap
    rcases List.mem_append.1 onLap with onLap | onLap
    · exact stays other (List.mem_append_right _ (List.mem_cons_of_mem _ onLap))
    · exact approachStays other (List.mem_cons_of_mem _ onLap)

/-- The block at which a lap leaves its start. -/
theorem Lap.exists_arm {middle : List BlockId} (lap : loop.Lap graph block middle)
    (member : block ∈ loop.blocks) :
    ∃ arm rest, middle ++ [block] = arm :: rest ∧ arm ∈ graph.successors block ∧
      arm ∈ loop.blocks := by
  generalize listed : middle ++ [block] = nodes
  have walk := lap.walk
  rw [listed] at walk
  cases walk with
  | here => simp at listed
  | step edge rest =>
      obtain ⟨tail, rfl⟩ := rest.start_eq_head
      refine ⟨_, tail, rfl, edge, ?_⟩
      have onLap : _ ∈ middle ++ [block] := listed ▸ List.mem_cons_self
      rcases List.mem_append.1 onLap with onLap | onLap
      · exact lap.stays _ onLap
      · rw [List.mem_singleton.1 onLap]
        exact member

section Departure

variable {front : List BlockId}
  (member : exiting ∈ loop.blocks) (exitEdge : exit ∈ graph.successors exiting)
  (leaves : exit ∉ loop.blocks)

include member exitEdge leaves

/-- A walk from the header to the exiting block can leave the loop behind it. -/
theorem Passage.of_walk (walk : Walk graph.successors loop.header exiting (front ++ [exiting]))
    (stays : ∀ block ∈ front, block ∈ loop.blocks) :
    loop.Passage graph (front ++ [exiting]) exit := by
  refine ⟨walk.snoc exitEdge, fun block onWalk => ?_, leaves⟩
  rcases List.mem_append.1 onWalk with onWalk | onWalk
  · exact stays block onWalk
  · rw [List.mem_singleton.1 onWalk]
    exact member

/-- A lap of the exiting block can be put in before the loop is left. -/
theorem Passage.of_lap {middle : List BlockId}
    (approach : Walk graph.successors loop.header exiting (loop.header :: (front ++ [exiting])))
    (stays : ∀ block ∈ loop.header :: front, block ∈ loop.blocks)
    (lap : loop.Lap graph exiting middle) :
    loop.Passage graph (loop.header :: front ++ exiting :: middle ++ [exiting]) exit := by
  apply Passage.of_walk member exitEdge leaves
  · have round := approach.append lap.walk
    simp only [List.cons_append, List.append_assoc, List.nil_append] at round ⊢
    exact round
  · intro block onWalk
    rcases List.mem_append.1 onWalk with onWalk | onWalk
    · exact stays block onWalk
    · rcases List.mem_cons.1 onWalk with rfl | onWalk
      · exact member
      · exact lap.stays block onWalk

end Departure

/-- The passages that take the same arms at a block visit the header equally often. -/
def HeaderAgrees (graph : FlowGraph) (loop : Loop) (exiting : BlockId) : Prop :=
  ∀ leftInside leftExit rightInside rightExit,
    loop.Passage graph leftInside leftExit → loop.Passage graph rightInside rightExit →
    SameArms exiting (leftInside ++ [leftExit]) (rightInside ++ [rightExit]) →
    leftInside.count loop.header = rightInside.count loop.header

section Agreement

variable (natural : loop.Natural graph) (only : loop.exitingBlocks graph = [exiting])
  (agree : loop.HeaderAgrees graph exiting)

include natural only agree

/-- A circuit of the header that misses the exiting block could be added in front
of the way to it. -/
theorem HeaderAgrees.meets_exiting (circuit : loop.Circuit graph loop.header blocks) :
    exiting ∈ blocks := by
  obtain ⟨member, exit, exitEdge, leaves⟩ := exists_exit only
  by_cases same : loop.header = exiting
  · rw [← same]
    exact circuit.stop_mem
  obtain ⟨front, approach, fresh, stays⟩ := natural.exists_approach member same
  by_contra around
  have again : Walk graph.successors loop.header exiting
      (loop.header :: blocks ++ front ++ [exiting]) := by
    rw [List.append_assoc]
    exact circuit.walk.append approach
  have longFresh : exiting ∉ loop.header :: blocks ++ front := by
    rw [List.mem_append, List.mem_cons]
    exact not_or.2 ⟨not_or.2 ⟨Ne.symm same, around⟩, fun behind =>
      fresh (List.mem_cons_of_mem _ behind)⟩
  have longStays : ∀ block ∈ loop.header :: blocks ++ front, block ∈ loop.blocks := by
    intro block onWalk
    rcases List.mem_append.1 onWalk with onWalk | onWalk
    · exact circuit.stays block onWalk
    · exact stays block (List.mem_cons_of_mem _ onWalk)
  have sameArms : followers exiting (loop.header :: front ++ [exiting] ++ [exit]) =
      followers exiting (loop.header :: blocks ++ front ++ [exiting] ++ [exit]) :=
    (followers_once fresh).trans (followers_once longFresh).symm
  have counted := agree _ _ _ _ (.of_walk member exitEdge leaves approach stays)
    (.of_walk member exitEdge leaves again longStays) (.of_followers_eq sameArms)
  have positive := List.count_pos_iff.2 circuit.stop_mem
  simp only [List.count_append, List.count_cons_self] at counted
  omega

/-- Two laps of the exiting block take the same arm, so a lap that misses the
header would be told from one that meets it. -/
theorem HeaderAgrees.meets_header
    (oneArm : ∀ left ∈ graph.successors exiting, ∀ right ∈ graph.successors exiting,
      left ∈ loop.blocks → right ∈ loop.blocks → left = right)
    (circuit : loop.Circuit graph exiting blocks) : loop.header ∈ blocks := by
  obtain ⟨member, exit, exitEdge, leaves⟩ := exists_exit only
  by_cases same : loop.header = exiting
  · rw [same]
    exact circuit.stop_mem
  obtain ⟨front, approach, fresh, stays⟩ := natural.exists_approach member same
  by_contra around
  obtain ⟨short, shortLap, subset⟩ := circuit.exists_lap
  obtain ⟨long, longLap, meets⟩ := natural.exists_lap member same
  obtain ⟨shortArm, shortRest, shortListed, shortEdge, shortMember⟩ := shortLap.exists_arm member
  obtain ⟨longArm, longRest, longListed, longEdge, longMember⟩ := longLap.exists_arm member
  have sameArm := oneArm shortArm shortEdge longArm longEdge shortMember longMember
  have sameArms :
      followers exiting (loop.header :: front ++ exiting :: short ++ [exiting] ++ [exit]) =
        followers exiting (loop.header :: front ++ exiting :: long ++ [exiting] ++ [exit]) := by
    rw [followers_lap fresh shortLap.fresh shortListed,
      followers_lap fresh longLap.fresh longListed, sameArm]
  have counted := agree _ _ _ _ (.of_lap member exitEdge leaves approach stays shortLap)
    (.of_lap member exitEdge leaves approach stays longLap) (.of_followers_eq sameArms)
  have shortCount : short.count loop.header = 0 :=
    List.count_eq_zero.2 fun onLap => around (subset _ onLap)
  have longCount := List.count_pos_iff.2 meets
  simp only [List.count_append, List.count_cons] at counted
  omega

/-- If all passages that take the same arms at the only exiting block visit the
header equally often, the visits of the two blocks alternate. -/
theorem HeaderAgrees.alternates
    (oneArm : ∀ left ∈ graph.successors exiting, ∀ right ∈ graph.successors exiting,
      left ∈ loop.blocks → right ∈ loop.blocks → left = right) :
    loop.Alternates graph loop.header exiting :=
  ⟨fun _ circuit => agree.meets_exiting natural only circuit,
    fun _ circuit => agree.meets_header natural only oneArm circuit⟩

end Agreement

end Loop

end Workgroup

import Workgroup.Proofs.Flow.Dominance
import Workgroup.Proofs.Flow.Meeting

/-!
Contract: the loops of the dominator tree end.

The table of parents is renewed block by block, round by round, until a round
changes nothing.  An entry that is set is only replaced by a block of a lower
rank; so only finitely many rounds change anything, and the table of the last
one is that of the dominator tree.  In every table on the way, and in the last
one, climbs follow parents of ever lower rank, so they end as well.

Owns:
- the loop of the rounds, its step lemma and its run lemma;
- the climb that looks for a dominator;
- the end of all three loops on every graph of a function.
-/

namespace Workgroup

namespace DominatorTree

/-- Where the rounds stand: the blocks that are still to be renewed in this
round, whether the round has changed anything, and the table of parents. -/
structure Sweeping where
  pending : List BlockId
  changed : Bool
  parents : List (Option BlockId)
deriving DecidableEq, Repr

namespace Sweeping

/-- The first round, with the table in which only the entry has a parent. -/
def start (graph : FlowGraph) (order : List BlockId) : Sweeping :=
  ⟨order.tail, false, initialParents graph order⟩

/-- Renews the parent of the next block, if the one proposed is another one.
At the end of a round that has changed anything there is one more round. -/
def step (graph : FlowGraph) (order : List BlockId) : Sweeping → Option Sweeping
  | ⟨block :: pending, changed, parents⟩ =>
      match proposal graph order parents block with
      | none => some ⟨pending, changed, parents⟩
      | some parent =>
          if parentIn parents block = some parent then some ⟨pending, changed, parents⟩
          else some ⟨pending, true, parents.set block (some parent)⟩
  | ⟨[], true, parents⟩ => some ⟨order.tail, false, parents⟩
  | ⟨[], false, _⟩ => none

end Sweeping

/-- Goes on to the immediate dominator, unless the block is the one looked for. -/
def climbStep (tree : DominatorTree) (above block : BlockId) : Option BlockId :=
  if block = above then none else tree.idom? block

variable {graph : FlowGraph} {entry block parent above below : BlockId}
  {order pending : List BlockId} {parents : List (Option BlockId)} {position : Nat}

/-! ## The rounds -/

/-- In its turn a block is given the parent that a renewal gives it, and the round
is noted as a change if that takes weight away. -/
theorem Renewal.exists_step (renewal : Renewal graph entry order position parents block parent)
    (pending : List BlockId) (changed : Bool) :
    ∃ flag, Sweeping.step graph order ⟨block :: pending, changed, parents⟩ =
        some ⟨pending, flag, improve graph order parents block⟩ ∧
      (flag = changed ∧ improve graph order parents block = parents ∨
        flag = true ∧ weight order (improve graph order parents block) < weight order parents) := by
  unfold Sweeping.step
  simp only [renewal.proposed]
  by_cases same : parentIn parents block = some parent
  · have kept : improve graph order parents block = parents := by
      rw [renewal.improve_eq, set_parentIn same]
    rw [if_pos same, kept]
    exact ⟨changed, rfl, .inl ⟨rfl, rfl⟩⟩
  · rw [if_neg same, ← renewal.improve_eq]
    refine ⟨true, rfl, .inr ⟨rfl, renewal.improve_eq_or_weight_lt.resolve_left fun kept => same ?_⟩⟩
    rw [← kept, renewal.parentIn_improve, redirect_same]

namespace Sweeping

/-- Entries that are set stay set, and are only replaced by blocks of a lower rank. -/
def Lowers (order : List BlockId) (before after : List (Option BlockId)) : Prop :=
  ∀ {block parent}, parentIn before block = some parent →
    ∃ renewed, parentIn after block = some renewed ∧
      (renewed = parent ∨ rankIn order renewed < rankIn order parent)

theorem lowers_refl (parents : List (Option BlockId)) : Lowers order parents parents :=
  fun {_ parent} isParent => ⟨parent, isParent, .inl rfl⟩

theorem lowers_improve (renewal : Renewal graph entry order position parents block parent) :
    Lowers order parents (improve graph order parents block) := by
  intro other before isParent
  rw [renewal.parentIn_improve]
  by_cases same : other = block
  · subst same
    refine ⟨parent, redirect_same, ?_⟩
    by_cases kept : before = parent
    · exact .inl kept.symm
    · exact .inr (renewal.rank_lt_of_ne isParent kept)
  · exact ⟨before, (redirect_other same).trans isParent, .inl rfl⟩

/-- The invariant of the rounds: what is not pending has been renewed in this
round. -/
def Sound (graph : FlowGraph) (entry : BlockId) (order : List BlockId) (state : Sweeping) : Prop :=
  ∃ front, order = front ++ state.pending ∧ entry ∈ front ∧
    Approximates graph entry order front.length state.parents

variable (coherent : graph.Coherent) (enumerates : graph.Enumerates entry order)

include enumerates in
/-- At the start of a round only the entry is not pending. -/
theorem sound_tail (approximates : Approximates graph entry order 1 parents) (changed : Bool) :
    Sound graph entry order ⟨order.tail, changed, parents⟩ := by
  obtain ⟨rest, listed⟩ := enumerates.eq_cons
  exact ⟨[entry], by rw [listed]; rfl, List.mem_cons_self, approximates⟩

include coherent enumerates in
/-- The step lemma. -/
theorem Sound.step {before after : Sweeping} (sound : Sound graph entry order before)
    (stepped : Sweeping.step graph order before = some after) :
    Sound graph entry order after ∧ Lowers order before.parents after.parents := by
  obtain ⟨pending, changed, parents⟩ := before
  obtain ⟨front, listed, entryIn, approximates⟩ := sound
  cases pending with
  | cons block pending =>
      obtain ⟨parent, renewal⟩ :=
        approximates.exists_renewal_of_split coherent enumerates listed entryIn
      obtain ⟨flag, isStep, -⟩ := renewal.exists_step pending changed
      cases isStep.symm.trans stepped
      refine ⟨⟨front ++ [block], ?_, List.mem_append_left _ entryIn, ?_⟩, lowers_improve renewal⟩
      · rw [listed, List.append_assoc]
        rfl
      · rw [List.length_append]
        exact renewal.approximates_improve coherent enumerates
  | nil =>
      cases changed with
      | false => exact absurd stepped nofun
      | true =>
          cases stepped
          have whole : order = front := listed.trans (List.append_nil front)
          rw [← whole] at approximates
          exact ⟨sound_tail enumerates approximates.restart false, lowers_refl parents⟩

include coherent enumerates in
/-- The rest of a round makes the renewals of the sweep, and is noted as a change
exactly if it takes weight away. -/
theorem exists_steps_round :
    ∀ (pending front : List BlockId) (changed : Bool) (parents : List (Option BlockId)),
      order = front ++ pending → entry ∈ front →
      Approximates graph entry order front.length parents →
      ∃ flag, Steps (Sweeping.step graph order) ⟨pending, changed, parents⟩
          ⟨[], flag, pending.foldl (improve graph order) parents⟩ ∧
        (flag = changed ∧ pending.foldl (improve graph order) parents = parents ∨
          flag = true ∧
            weight order (pending.foldl (improve graph order) parents) < weight order parents) := by
  intro pending
  induction pending with
  | nil => exact fun _ changed _ _ _ _ => ⟨changed, .refl _, .inl ⟨rfl, rfl⟩⟩
  | cons block pending inductionHypothesis =>
      intro front changed parents listed entryIn approximates
      obtain ⟨parent, renewal⟩ :=
        approximates.exists_renewal_of_split coherent enumerates listed entryIn
      obtain ⟨flag, isStep, outcome⟩ := renewal.exists_step pending changed
      have next := renewal.approximates_improve coherent enumerates
      obtain ⟨last, further, later⟩ := inductionHypothesis (front ++ [block]) flag
        (improve graph order parents block) (by rw [listed]; simp)
        (List.mem_append_left _ entryIn) (by simpa using next)
      refine ⟨last, .head isStep further, ?_⟩
      rw [List.foldl_cons]
      rcases outcome with ⟨rfl, kept⟩ | ⟨rfl, falls⟩
      · rw [kept] at later ⊢
        exact later
      · rcases later with ⟨rfl, same⟩ | ⟨rfl, less⟩
        · exact .inr ⟨rfl, by rw [same]; exact falls⟩
        · exact .inr ⟨rfl, Nat.lt_trans less falls⟩

include coherent enumerates in
/-- With more fuel than there is weight, the rounds end where the sweeps settle. -/
theorem ends_settle :
    ∀ fuel parents, Approximates graph entry order 1 parents → weight order parents < fuel →
      EndsIn (Sweeping.step graph order) ⟨order.tail, false, parents⟩
        ⟨[], false, settle graph order fuel parents⟩ := by
  intro fuel
  induction fuel with
  | zero => exact fun parents _ less => absurd less (Nat.not_lt_zero _)
  | succ fuel inductionHypothesis =>
      intro parents approximates less
      obtain ⟨front, listed, entryIn, whole⟩ := sound_tail enumerates approximates false
      obtain ⟨flag, steps, outcome⟩ :=
        exists_steps_round coherent enumerates order.tail front false parents listed entryIn whole
      obtain ⟨swept, -⟩ := approximates.sweep coherent enumerates
      unfold settle
      rcases outcome with ⟨rfl, same⟩ | ⟨rfl, falls⟩
      · have fixed : sweep graph order parents = parents := same
        simp only [fixed, if_true]
        rw [same] at steps
        exact ⟨steps, rfl⟩
      · have changed : sweep graph order parents ≠ parents := by
          intro same
          exact absurd falls (by rw [show order.tail.foldl _ _ = parents from same]; omega)
        simp only [changed, if_false]
        have further := inductionHypothesis _ swept.restart (by
          have : weight order (sweep graph order parents) < weight order parents := falls
          omega)
        exact .of_steps (steps.trans (.head rfl (.refl _))) further

end Sweeping

end DominatorTree

/-! ## The finished tree -/

namespace FlowGraph

open DominatorTree

variable {graph : FlowGraph} {entry block above below : BlockId}

/-- Every link of the finished tree leads to a block of a lower rank. -/
theorem Coherent.rank_idom?_lt (coherent : graph.Coherent)
    (isIdom : graph.dominators.idom? block = some above) :
    rankIn graph.reversePostorder above < rankIn graph.reversePostorder block := by
  cases isEntry : graph.entryBlock? with
  | none =>
      have unreached : ¬ graph.Reachable block := by
        rintro ⟨_, _, isSome, -⟩
        exact absurd (isEntry.symm.trans isSome) nofun
      exact absurd ((coherent.idom?_eq_none (.inr unreached)).symm.trans isIdom) nofun
  | some entry =>
      have rooted := (coherent.settled_dominators isEntry).approximates.rooted
      rw [coherent.idom?_eq isEntry] at isIdom
      split at isIdom
      · exact absurd isIdom nofun
      · next notEntry => exact rooted.rank_lt isIdom notEntry

/-- What the climb that looks for a block keeps: it leads up from the block below,
and has not passed the one it looks for. -/
structure LooksFor (parent : BlockId → Option BlockId) (above below block : BlockId) : Prop where
  present : (parent block).isSome
  climbs : Climbs parent below block
  notPassed : Climbs parent below above → Climbs parent block above

/-- A step of the climb goes on looking, at a block of lower rank. -/
theorem Coherent.looksFor_climbStep (coherent : graph.Coherent)
    (isEntry : graph.entryBlock? = some entry) {next : BlockId}
    (looks : LooksFor (parentIn graph.dominators.parents) above below block)
    (stepped : climbStep graph.dominators above block = some next) :
    LooksFor (parentIn graph.dominators.parents) above below next ∧
      rankIn graph.reversePostorder next < rankIn graph.reversePostorder block := by
  have rooted := (coherent.settled_dominators isEntry).approximates.rooted
  unfold climbStep at stepped
  split at stepped
  · exact absurd stepped nofun
  · next different =>
    have lower := coherent.rank_idom?_lt stepped
    rw [coherent.idom?_eq isEntry] at stepped
    split at stepped
    · exact absurd stepped nofun
    · refine ⟨⟨rooted.closed stepped, looks.climbs.trans (.head stepped (.refl next)), ?_⟩, lower⟩
      intro climbs
      obtain ⟨parent, isParent, rest⟩ :=
        (Climbs.iff_eq_or.1 (looks.notPassed climbs)).resolve_left different
      cases stepped.symm.trans isParent
      exact rest

/-- Where the climb stops, it has found the block or is at the entry. -/
theorem Coherent.eq_of_climbStep_eq_none (coherent : graph.Coherent)
    (isEntry : graph.entryBlock? = some entry)
    (looks : LooksFor (parentIn graph.dominators.parents) above below block)
    (stops : climbStep graph.dominators above block = none) : block = above ∨ block = entry := by
  unfold climbStep at stops
  split at stops
  · next found => exact .inl found
  · rw [coherent.idom?_eq isEntry] at stops
    split at stops
    · next isRoot => exact .inr isRoot
    · exact absurd looks.present (by rw [stops]; exact nofun)

/-- The climb that looks for a dominator ends at it or at the entry. -/
theorem Coherent.climb_ends (coherent : graph.Coherent)
    (isEntry : graph.entryBlock? = some entry) (reachable : graph.Reachable below) :
    ∃ last, EndsIn (climbStep graph.dominators above) below last ∧ (last = above ∨ last = entry) ∧
      (graph.dominators.dominates above below = true ↔ last = above) := by
  have settled := coherent.settled_dominators isEntry
  have enumerates := coherent.enumerates_reversePostorder isEntry
  have present := settled.isSome_iff.2 ((enumerates.mem_iff below).2 reachable)
  obtain ⟨last, ends, looks⟩ := EndsIn.exists_of_falls (rankIn graph.reversePostorder)
    (coherent.looksFor_climbStep isEntry) ⟨present, .refl below, id⟩
  have isLast := coherent.eq_of_climbStep_eq_none isEntry looks ends.final
  refine ⟨last, ends, isLast, ?_⟩
  rw [coherent.dominates_iff,
    ← settled.climbs_iff_dominates coherent enumerates isEntry reachable]
  refine ⟨fun climbs => isLast.elim id fun isRoot => ?_, fun found => found ▸ looks.climbs⟩
  subst isRoot
  exact (settled.approximates.rooted.eq_root_of_climbs (looks.notPassed climbs)).symm

/-- The rounds that compute the dominator tree come to a state. -/
def SweepsTo (graph : FlowGraph) (state : Sweeping) : Prop :=
  Steps (Sweeping.step graph graph.reversePostorder) (.start graph graph.reversePostorder) state

/-- The loops that compute the dominator tree of a graph, and the climb that asks
it, come to an end. -/
structure DominatorLoopsEnd (graph : FlowGraph) : Prop where
  /-- An assignment to an entry that is set replaces it by a block of a lower rank. -/
  assignments_lower : ∀ {before after}, graph.SweepsTo before →
    Sweeping.step graph graph.reversePostorder before = some after →
    Sweeping.Lowers graph.reversePostorder before.parents after.parents
  rounds_end : EndsIn (Sweeping.step graph graph.reversePostorder)
    (.start graph graph.reversePostorder) ⟨[], false, graph.dominators.parents⟩
  /-- In every table on the way, two climbs that begin at blocks with a parent
  follow parents of ever lower rank. -/
  meetings_rise : ∀ {state left right before after}, graph.SweepsTo state →
    (parentIn state.parents left).isSome → (parentIn state.parents right).isSome →
    Steps (Meeting.step (parentIn state.parents) (rankIn graph.reversePostorder))
      (.compare left right) before →
    Meeting.step (parentIn state.parents) (rankIn graph.reversePostorder) before = some after →
    Meeting.Rises (parentIn state.parents) (rankIn graph.reversePostorder) before.left after.left ∧
      Meeting.Rises (parentIn state.parents) (rankIn graph.reversePostorder) before.right
        after.right
  meetings_end : ∀ {state left right}, graph.SweepsTo state →
    (parentIn state.parents left).isSome → (parentIn state.parents right).isSome →
    EndsIn (Meeting.step (parentIn state.parents) (rankIn graph.reversePostorder))
      (.compare left right)
      (.met (nearestCommon (parentIn state.parents) (rankIn graph.reversePostorder) left right))
  climbs_rise : ∀ {above block next}, climbStep graph.dominators above block = some next →
    graph.dominators.idom? block = some next ∧
      rankIn graph.reversePostorder next < rankIn graph.reversePostorder block
  /-- The climb from a reachable block ends at the block it looks for or, if that
  one does not dominate the block, at the entry. -/
  climbs_end : ∀ {above below}, graph.dominators.isReachable below = true →
    ∃ last, EndsIn (climbStep graph.dominators above) below last ∧
      (last = above ∨ graph.entryBlock? = some last) ∧
      (graph.dominators.dominates above below = true ↔ last = above)

/-- Before the first round only the entry has a parent, and the rounds keep their
invariant. -/
theorem Coherent.sound_of_sweepsTo (coherent : graph.Coherent)
    (isEntry : graph.entryBlock? = some entry) {state : Sweeping} (steps : graph.SweepsTo state) :
    Sweeping.Sound graph entry graph.reversePostorder state := by
  have enumerates := coherent.enumerates_reversePostorder isEntry
  refine Steps.keeps (fun sound stepped => (sound.step coherent enumerates stepped).1) steps ?_
  exact Sweeping.sound_tail enumerates
    (approximates_initialParents coherent isEntry enumerates) false

/-- Without an entry the rounds have ended before they begin. -/
theorem start_of_no_entry (noEntry : graph.entryBlock? = none) :
    Sweeping.start graph graph.reversePostorder = ⟨[], false, graph.dominators.parents⟩ := by
  unfold Sweeping.start initialParents
  rw [reversePostorder_of_no_entry noEntry, parents_of_no_entry noEntry]
  rfl

theorem Coherent.climbs_rise (coherent : graph.Coherent) {next : BlockId}
    (stepped : climbStep graph.dominators above block = some next) :
    graph.dominators.idom? block = some next ∧
      rankIn graph.reversePostorder next < rankIn graph.reversePostorder block := by
  unfold climbStep at stepped
  split at stepped
  · exact absurd stepped nofun
  · exact ⟨stepped, coherent.rank_idom?_lt stepped⟩

theorem Coherent.loopsEnd_of_no_entry (coherent : graph.Coherent)
    (noEntry : graph.entryBlock? = none) : graph.DominatorLoopsEnd := by
  have isStart := start_of_no_entry noEntry
  have eq_start {state : Sweeping} (steps : graph.SweepsTo state) :
      state = ⟨[], false, graph.dominators.parents⟩ :=
    (Steps.eq_of_final steps (by rw [isStart]; rfl)).trans isStart
  have absent {state : Sweeping} {block : BlockId} (steps : graph.SweepsTo state)
      (present : (parentIn state.parents block).isSome) : False := by
    rw [eq_start steps, parents_of_no_entry noEntry, parentIn_replicate] at present
    exact absurd present nofun
  refine ⟨?_, ?_, ?_, ?_, coherent.climbs_rise, ?_⟩
  · intro before after steps stepped
    rw [eq_start steps] at stepped
    exact absurd stepped nofun
  · rw [isStart]
    exact ⟨.refl _, rfl⟩
  · exact fun steps present => (absent steps present).elim
  · exact fun steps present => (absent steps present).elim
  · intro above below isReachable
    obtain ⟨_, _, isSome, -⟩ := coherent.isReachable_iff.1 isReachable
    exact absurd (noEntry.symm.trans isSome) nofun

theorem Coherent.loopsEnd_of_entry (coherent : graph.Coherent)
    (isEntry : graph.entryBlock? = some entry) : graph.DominatorLoopsEnd := by
  have enumerates := coherent.enumerates_reversePostorder isEntry
  have rootedIn {state : Sweeping} (steps : graph.SweepsTo state) :
      Rooted (parentIn state.parents) (rankIn graph.reversePostorder) entry := by
    obtain ⟨_, _, _, approximates⟩ := coherent.sound_of_sweepsTo isEntry steps
    exact approximates.rooted
  refine ⟨?_, ?_, ?_, ?_, coherent.climbs_rise, ?_⟩
  · intro before after steps stepped
    exact ((coherent.sound_of_sweepsTo isEntry steps).step coherent enumerates stepped).2
  · refine Sweeping.ends_settle coherent enumerates _ _
      (approximates_initialParents coherent isEntry enumerates) ?_
    have bounded : weight graph.reversePostorder (initialParents graph graph.reversePostorder) ≤
        graph.reversePostorder.length * graph.reversePostorder.length := weight_le _
    omega
  · intro state left right before after steps leftPresent rightPresent
    exact Meeting.rises (rootedIn steps) leftPresent rightPresent
  · intro state left right steps leftPresent rightPresent
    exact Meeting.ends (rootedIn steps) leftPresent rightPresent
  · intro above below isReachable
    obtain ⟨last, ends, isLast, dominates⟩ :=
      coherent.climb_ends isEntry (coherent.isReachable_iff.1 isReachable)
    refine ⟨last, ends, ?_, dominates⟩
    rcases isLast with found | isRoot
    · exact .inl found
    · exact .inr (isRoot ▸ isEntry)

end FlowGraph

/-- The loops behind the dominator tree of any function end.  While the rounds
renew the table of parents, an entry that is set is only replaced by a block of
a lower number in the reverse postorder; so the rounds end, and they end with
the table of the tree.  The two climbs to a common ancestor, in every table on
the way, and the climb that looks for a dominator follow links that lower that
number, and end at the latest at the entry. -/
theorem Function.dominators_terminate (function : Function) :
    function.graph.DominatorLoopsEnd := by
  have coherent := function.coherent_graph
  cases isEntry : function.graph.entryBlock? with
  | none => exact coherent.loopsEnd_of_no_entry isEntry
  | some entry => exact coherent.loopsEnd_of_entry isEntry

end Workgroup

import Mathlib.Data.List.Nodup
import Workgroup.Function.Basic

/-!
Contract: functions whose blocks place every handle at most once.

Owns:
- well-placed functions;
- the placed handles of a block among all placed ones;
- functions that have placed new handles.
-/

namespace Workgroup

namespace Function

variable {block : BlockId} {handle : InstId}

/-- Every placed handle leads to a stored instruction, and none is placed twice. -/
structure WellPlaced (function : Function) : Prop where
  stored : ∀ {handle}, handle ∈ function.allPlaced → handle < function.instructions.size
  nodup : function.allPlaced.Nodup

theorem mem_allPlaced {function : Function} :
    handle ∈ function.allPlaced ↔ ∃ block, handle ∈ function.placed block := by
  unfold allPlaced placed Table.get?
  rw [List.mem_flatMap]
  constructor
  · rintro ⟨body, member, listed⟩
    obtain ⟨index, isBody⟩ := List.mem_iff_getElem?.1 member
    exact ⟨index, by rw [isBody]; exact listed⟩
  · rintro ⟨index, listed⟩
    cases isBody : function.blocks.entries[index]? with
    | none =>
        rw [isBody] at listed
        exact absurd listed List.not_mem_nil
    | some body =>
        rw [isBody] at listed
        exact ⟨body, List.mem_of_getElem? isBody, listed⟩

theorem placed_sublist (function : Function) (block : BlockId) :
    (function.placed block).Sublist function.allPlaced := by
  unfold allPlaced placed Table.get?
  cases isBody : function.blocks.entries[block]? with
  | none => exact List.nil_sublist _
  | some body =>
      obtain ⟨front, back, listed⟩ := List.append_of_mem (List.mem_of_getElem? isBody)
      rw [listed, List.flatMap_append, List.flatMap_cons]
      exact (List.sublist_append_left _ _).trans (List.sublist_append_right _ _)

namespace WellPlaced

variable {function : Function}

theorem stored_of_placed (wellPlaced : function.WellPlaced)
    (member : handle ∈ function.placed block) : handle < function.instructions.size :=
  wellPlaced.stored (mem_allPlaced.2 ⟨block, member⟩)

theorem nodup_placed (wellPlaced : function.WellPlaced) (block : BlockId) :
    (function.placed block).Nodup :=
  wellPlaced.nodup.sublist (function.placed_sublist block)

/-- A handle is placed in one block at most. -/
theorem eq_of_mem_placed (wellPlaced : function.WellPlaced) {other : BlockId}
    (member : handle ∈ function.placed block) (otherMember : handle ∈ function.placed other) :
    block = other := by
  have separate := (List.nodup_flatMap.1 wellPlaced.nodup).2
  rw [List.pairwise_iff_getElem] at separate
  have bodyOf {place : BlockId} (listed : handle ∈ function.placed place) :
      ∃ inside : place < function.blocks.entries.length,
        handle ∈ (function.blocks.entries[place]).instructions := by
    unfold placed Table.get? at listed
    by_cases inside : place < function.blocks.entries.length
    · rw [List.getElem?_eq_getElem inside] at listed
      exact ⟨inside, listed⟩
    · rw [List.getElem?_eq_none (Nat.not_lt.1 inside)] at listed
      exact absurd listed List.not_mem_nil
  obtain ⟨inside, listed⟩ := bodyOf member
  obtain ⟨otherInside, otherListed⟩ := bodyOf otherMember
  rcases Nat.lt_trichotomy block other with before | same | after
  · exact absurd otherListed (separate _ _ inside otherInside before listed)
  · exact same
  · exact absurd listed (separate _ _ otherInside inside after otherListed)

/-- Functions in which only new handles were placed, each once, are well placed. -/
theorem of_perm {before after : Function} {count : Nat} (wellPlaced : before.WellPlaced)
    (size_eq : after.instructions.size = before.instructions.size + count)
    (placed : after.allPlaced.Perm
      (before.allPlaced ++ List.range' before.instructions.size count)) : after.WellPlaced where
  stored := by
    intro handle member
    rw [size_eq]
    rcases List.mem_append.1 (placed.mem_iff.1 member) with old | new
    · exact Nat.lt_of_lt_of_le (wellPlaced.stored old) (Nat.le_add_right _ _)
    · exact (List.mem_range'_1.1 new).2
  nodup := by
    rw [placed.nodup_iff]
    refine List.nodup_append.2 ⟨wellPlaced.nodup, List.nodup_range', ?_⟩
    intro old oldMember new newMember same
    have below := wellPlaced.stored oldMember
    have above := (List.mem_range'_1.1 newMember).1
    rw [same] at below
    exact Nat.not_lt.2 above below

end WellPlaced

end Function

end Workgroup

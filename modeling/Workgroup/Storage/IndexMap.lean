/-!
Contract: finite maps from handles to values, with one representation each.

A map lists its entries in strictly ascending order of their handles.  Maps
that answer every look-up alike are equal, so `=` on maps is equality of
contents whatever the order of the insertions was.

Owns:
- the map type with look-up, insertion and restriction;
- the look-up law of each edit and extensionality.
-/

namespace Workgroup

/-- Entries `(handle, value)` in strictly ascending order of their handles. -/
structure IndexMap (α : Type) where
  entries : List (Nat × α)
  ascending : entries.Pairwise fun left right => left.1 < right.1

namespace IndexMap

variable {α : Type}

instance [DecidableEq α] : DecidableEq (IndexMap α) := fun left right =>
  if same : left.entries = right.entries then
    isTrue (by cases left; cases right; cases same; rfl)
  else
    isFalse (fun equal => same (congrArg IndexMap.entries equal))

def empty : IndexMap α := ⟨[], .nil⟩

instance : Inhabited (IndexMap α) := ⟨empty⟩

def size (table : IndexMap α) : Nat := table.entries.length

/-- The first value listed under a handle. -/
def lookup (handle : Nat) : List (Nat × α) → Option α
  | [] => none
  | head :: tail => if head.1 = handle then some head.2 else lookup handle tail

/-- The value stored for a handle. -/
def get? (table : IndexMap α) (handle : Nat) : Option α := lookup handle table.entries

/-- Places an entry at its handle, taking the place of an entry that is there. -/
def insertAscending (handle : Nat) (value : α) : List (Nat × α) → List (Nat × α)
  | [] => [(handle, value)]
  | head :: tail =>
      if handle = head.1 then (handle, value) :: tail
      else if handle < head.1 then (handle, value) :: head :: tail
      else head :: insertAscending handle value tail

theorem fst_mem_of_mem_insertAscending {handle : Nat} {value : α} {entries : List (Nat × α)}
    {entry : Nat × α} (member : entry ∈ insertAscending handle value entries) :
    entry.1 = handle ∨ entry ∈ entries := by
  induction entries with
  | nil => simp_all [insertAscending]
  | cons head tail inductionHypothesis =>
      unfold insertAscending at member
      grind

/-- An entry behind all others goes to the end. -/
theorem insertAscending_of_lt {handle : Nat} {value : α} {entries : List (Nat × α)}
    (last : ∀ entry ∈ entries, entry.1 < handle) :
    insertAscending handle value entries = entries ++ [(handle, value)] := by
  induction entries with
  | nil => rfl
  | cons head tail inductionHypothesis =>
      obtain ⟨headBefore, tailBefore⟩ := List.forall_mem_cons.1 last
      rw [insertAscending, if_neg (Nat.ne_of_gt headBefore), if_neg (Nat.lt_asymm headBefore),
        inductionHypothesis tailBefore, List.cons_append]

theorem pairwise_insertAscending (handle : Nat) (value : α) {entries : List (Nat × α)}
    (ascending : entries.Pairwise fun left right => left.1 < right.1) :
    (insertAscending handle value entries).Pairwise fun left right => left.1 < right.1 := by
  induction entries with
  | nil => simp [insertAscending]
  | cons head tail inductionHypothesis =>
      obtain ⟨headFirst, tailAscending⟩ := List.pairwise_cons.1 ascending
      unfold insertAscending
      split
      · next same =>
        refine List.pairwise_cons.2 ⟨fun entry member => ?_, tailAscending⟩
        have := headFirst entry member
        omega
      · next different =>
        split
        · next before =>
          refine List.pairwise_cons.2 ⟨fun entry member => ?_, ascending⟩
          rcases List.mem_cons.1 member with rfl | member
          · exact before
          · exact Nat.lt_trans before (headFirst entry member)
        · next notBefore =>
          refine List.pairwise_cons.2 ⟨fun entry member => ?_, inductionHypothesis tailAscending⟩
          rcases fst_mem_of_mem_insertAscending member with same | member
          · omega
          · exact headFirst entry member

/-- Stores a value for a handle, replacing an earlier one. -/
def insert (table : IndexMap α) (handle : Nat) (value : α) : IndexMap α :=
  ⟨insertAscending handle value table.entries,
    pairwise_insertAscending handle value table.ascending⟩

/-- Keeps the entries whose handle satisfies a test. -/
def filterKeys (table : IndexMap α) (keep : Nat → Bool) : IndexMap α :=
  ⟨table.entries.filter fun entry => keep entry.1, table.ascending.filter _⟩

/-! ## Laws of look-up -/

@[simp] theorem get?_empty (handle : Nat) : (empty : IndexMap α).get? handle = none := rfl

private theorem lookup_insertAscending (handle : Nat) (value : α) (entries : List (Nat × α))
    (other : Nat) :
    lookup other (insertAscending handle value entries) =
      if other = handle then some value else lookup other entries := by
  induction entries with
  | nil => simp [insertAscending, lookup, eq_comm]
  | cons head tail inductionHypothesis =>
      unfold insertAscending
      split
      · next same => simp only [lookup, ← same]; grind
      · split
        · simp only [lookup]; grind
        · simp only [lookup, inductionHypothesis]; grind

theorem get?_insert (table : IndexMap α) (handle : Nat) (value : α) (other : Nat) :
    (table.insert handle value).get? other =
      if other = handle then some value else table.get? other :=
  lookup_insertAscending handle value table.entries other

private theorem lookup_filter (keep : Nat → Bool) (entries : List (Nat × α)) (handle : Nat) :
    lookup handle (entries.filter fun entry => keep entry.1) =
      if keep handle then lookup handle entries else none := by
  induction entries with
  | nil => simp [lookup]
  | cons head tail inductionHypothesis =>
      simp only [List.filter_cons, lookup]
      split
      · simp only [lookup, inductionHypothesis]; grind
      · simp only [inductionHypothesis]; grind

theorem get?_filterKeys (table : IndexMap α) (keep : Nat → Bool) (handle : Nat) :
    (table.filterKeys keep).get? handle = if keep handle then table.get? handle else none :=
  lookup_filter keep table.entries handle

private theorem lookup_eq_some_iff {entries : List (Nat × α)}
    (ascending : entries.Pairwise fun left right => left.1 < right.1)
    {handle : Nat} {value : α} :
    lookup handle entries = some value ↔ (handle, value) ∈ entries := by
  induction entries with
  | nil => simp [lookup]
  | cons head tail inductionHypothesis =>
      obtain ⟨headFirst, tailAscending⟩ := List.pairwise_cons.1 ascending
      unfold lookup
      split
      · next same =>
        constructor
        · intro found
          cases head
          simp_all
        · intro member
          rcases List.mem_cons.1 member with equal | later
          · simp [← equal]
          · have := headFirst _ later
            simp only at this
            omega
      · next different =>
        rw [inductionHypothesis tailAscending]
        constructor
        · exact List.mem_cons_of_mem head
        · intro member
          rcases List.mem_cons.1 member with equal | later
          · exact absurd (congrArg Prod.fst equal).symm different
          · exact later

theorem get?_eq_some_iff {table : IndexMap α} {handle : Nat} {value : α} :
    table.get? handle = some value ↔ (handle, value) ∈ table.entries :=
  lookup_eq_some_iff table.ascending

private theorem eq_of_ascending_of_mem_iff_keys {left right : List (Nat × α)}
    (leftAscending : left.Pairwise fun first second => first.1 < second.1)
    (rightAscending : right.Pairwise fun first second => first.1 < second.1)
    (sameMembers : ∀ entry, entry ∈ left ↔ entry ∈ right) : left = right := by
  induction left generalizing right with
  | nil =>
      cases right with
      | nil => rfl
      | cons head tail => simpa using sameMembers head
  | cons head tail inductionHypothesis =>
      cases right with
      | nil => simpa using sameMembers head
      | cons other rest =>
          obtain ⟨headFirst, tailAscending⟩ := List.pairwise_cons.1 leftAscending
          obtain ⟨otherFirst, restAscending⟩ := List.pairwise_cons.1 rightAscending
          have sameHead : head = other := by
            rcases List.mem_cons.1 ((sameMembers head).1 (by simp)) with same | later
            · exact same
            · rcases List.mem_cons.1 ((sameMembers other).2 (by simp)) with same | behind
              · exact same.symm
              · have := otherFirst head later
                have := headFirst other behind
                omega
          subst sameHead
          refine congrArg (head :: ·) (inductionHypothesis tailAscending restAscending ?_)
          intro entry
          have whole := sameMembers entry
          simp only [List.mem_cons] at whole
          constructor
          · intro member
            rcases whole.1 (.inr member) with same | found
            · have := headFirst entry member
              rw [same] at this
              omega
            · exact found
          · intro member
            rcases whole.2 (.inr member) with same | found
            · have := otherFirst entry member
              rw [same] at this
              omega
            · exact found

/-- Maps that answer every look-up alike are the same map. -/
theorem ext {left right : IndexMap α} (sameAnswers : ∀ handle, left.get? handle = right.get? handle) :
    left = right := by
  have sameEntries : left.entries = right.entries :=
    eq_of_ascending_of_mem_iff_keys left.ascending right.ascending fun entry =>
      have sameAnswer : left.get? entry.1 = some entry.2 ↔ right.get? entry.1 = some entry.2 := by
        rw [sameAnswers]
      get?_eq_some_iff.symm.trans (sameAnswer.trans get?_eq_some_iff)
  cases left
  cases right
  cases sameEntries
  rfl

end IndexMap

end Workgroup

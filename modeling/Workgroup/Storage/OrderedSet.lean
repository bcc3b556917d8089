/-!
Contract: finite sets with one representation each.

A set lists its members once, in ascending order of a rank that tells any two
of them apart.  Two sets with the same members are therefore the same value,
so `=` on sets, and on everything built from them, is equality of contents.

Owns:
- ranks and the order they induce;
- ordered sets with membership, insertion, restriction and extensionality.
-/

namespace Workgroup

/-- A position for every value: first by its group, then inside the group.
Distinct values have distinct positions. -/
class Ranked (α : Type) where
  rank : α → Nat × Nat
  rank_injective : ∀ {left right : α}, rank left = rank right → left = right

namespace Ranked

variable {α : Type} [Ranked α]

/-- The strict order of ranks: the group decides first. -/
def Precedes (left right : α) : Prop :=
  (rank left).1 < (rank right).1 ∨
    (rank left).1 = (rank right).1 ∧ (rank left).2 < (rank right).2

instance (left right : α) : Decidable (Precedes left right) := by
  unfold Precedes
  infer_instance

theorem precedes_irrefl (value : α) : ¬ Precedes value value := by
  unfold Precedes
  omega

theorem precedes_trans {first second third : α}
    (left : Precedes first second) (right : Precedes second third) :
    Precedes first third := by
  unfold Precedes at *
  omega

/-- Of two different values, one precedes the other. -/
theorem precedes_or_precedes_of_ne {left right : α} (different : left ≠ right) :
    Precedes left right ∨ Precedes right left := by
  by_cases first : (rank left).1 = (rank right).1
  · by_cases second : (rank left).2 = (rank right).2
    · exact absurd (rank_injective (Prod.ext first second)) different
    · unfold Precedes
      omega
  · unfold Precedes
    omega

end Ranked

/-- Natural numbers form one group in their own order. -/
instance : Ranked Nat where
  rank value := (0, value)
  rank_injective same := (Prod.mk.inj same).2

open Ranked (Precedes)

/-- A finite set: its members, each once, in ascending order. -/
structure OrderedSet (α : Type) [Ranked α] where
  toList : List α
  ascending : toList.Pairwise Precedes

namespace OrderedSet

variable {α : Type} [Ranked α]

instance [DecidableEq α] : DecidableEq (OrderedSet α) := fun left right =>
  if same : left.toList = right.toList then
    isTrue (by cases left; cases right; cases same; rfl)
  else
    isFalse (fun equal => same (congrArg OrderedSet.toList equal))

instance : Membership α (OrderedSet α) where
  mem set value := value ∈ set.toList

instance [DecidableEq α] (value : α) (set : OrderedSet α) : Decidable (value ∈ set) :=
  inferInstanceAs (Decidable (value ∈ set.toList))

theorem mem_toList {set : OrderedSet α} {value : α} : value ∈ set.toList ↔ value ∈ set :=
  Iff.rfl

def empty : OrderedSet α := ⟨[], .nil⟩

instance : Inhabited (OrderedSet α) := ⟨empty⟩

def isEmpty (set : OrderedSet α) : Bool := set.toList.isEmpty

def size (set : OrderedSet α) : Nat := set.toList.length

/-- Whether a value is a member. -/
def contains [DecidableEq α] (set : OrderedSet α) (value : α) : Bool := decide (value ∈ set)

/-- Places a value before the first member it precedes; a member stays as it is. -/
def insertAscending [DecidableEq α] (value : α) : List α → List α
  | [] => [value]
  | head :: tail =>
      if value = head then head :: tail
      else if Precedes value head then value :: head :: tail
      else head :: insertAscending value tail

theorem mem_insertAscending [DecidableEq α] {value other : α} {members : List α} :
    other ∈ insertAscending value members ↔ other = value ∨ other ∈ members := by
  induction members with
  | nil => simp [insertAscending]
  | cons head tail inductionHypothesis =>
      unfold insertAscending
      split
      · next same => simp [same]
      · split
        · simp
        · simp only [List.mem_cons, inductionHypothesis]
          grind

theorem pairwise_insertAscending [DecidableEq α] (value : α) {members : List α}
    (ascending : members.Pairwise Precedes) :
    (insertAscending value members).Pairwise Precedes := by
  induction members with
  | nil => simp [insertAscending]
  | cons head tail inductionHypothesis =>
      obtain ⟨headFirst, tailAscending⟩ := List.pairwise_cons.1 ascending
      unfold insertAscending
      split
      · exact ascending
      · next different =>
        split
        · next before =>
          refine List.pairwise_cons.2 ⟨fun other member => ?_, ascending⟩
          rcases List.mem_cons.1 member with rfl | member
          · exact before
          · exact Ranked.precedes_trans before (headFirst other member)
        · next notBefore =>
          refine List.pairwise_cons.2 ⟨fun other member => ?_, inductionHypothesis tailAscending⟩
          rcases mem_insertAscending.1 member with rfl | member
          · exact (Ranked.precedes_or_precedes_of_ne different).resolve_left notBefore
          · exact headFirst other member

/-- Adds a value; adding a member changes nothing. -/
def insert [DecidableEq α] (set : OrderedSet α) (value : α) : OrderedSet α :=
  ⟨insertAscending value set.toList, pairwise_insertAscending value set.ascending⟩

/-- The set of the values of a list. -/
def ofList [DecidableEq α] (values : List α) : OrderedSet α :=
  values.foldl insert empty

@[simp] theorem not_mem_empty (value : α) : value ∉ (empty : OrderedSet α) :=
  List.not_mem_nil

@[simp] theorem mem_insert [DecidableEq α] {set : OrderedSet α} {value other : α} :
    other ∈ set.insert value ↔ other = value ∨ other ∈ set :=
  mem_insertAscending

@[simp] theorem contains_iff [DecidableEq α] {set : OrderedSet α} {value : α} :
    set.contains value = true ↔ value ∈ set := by
  simp [contains]

theorem mem_ofList [DecidableEq α] {values : List α} {value : α} :
    value ∈ ofList values ↔ value ∈ values := by
  suffices general : ∀ start : OrderedSet α,
      value ∈ values.foldl insert start ↔ value ∈ start ∨ value ∈ values by
    simpa [ofList] using general empty
  induction values with
  | nil => simp
  | cons head tail inductionHypothesis =>
      intro start
      simp only [List.foldl_cons, inductionHypothesis, mem_insert, List.mem_cons]
      grind

/-- Members are listed once. -/
theorem nodup_toList (set : OrderedSet α) : set.toList.Nodup :=
  set.ascending.imp fun {left right} before same => by
    subst same
    exact Ranked.precedes_irrefl left before

private theorem eq_of_ascending_of_mem_iff {left right : List α}
    (leftAscending : left.Pairwise Precedes) (rightAscending : right.Pairwise Precedes)
    (sameMembers : ∀ value, value ∈ left ↔ value ∈ right) : left = right := by
  induction left generalizing right with
  | nil =>
      cases right with
      | nil => rfl
      | cons head tail => simpa using sameMembers head
  | cons head tail inductionHypothesis =>
      cases right with
      | nil => simpa using sameMembers head
      | cons other rest =>
          obtain ⟨headFirst, tailAscending⟩ := List.pairwise_cons.1 leftAscending
          obtain ⟨otherFirst, restAscending⟩ := List.pairwise_cons.1 rightAscending
          have sameHead : head = other := by
            rcases List.mem_cons.1 ((sameMembers head).1 (by simp)) with same | later
            · exact same
            · rcases List.mem_cons.1 ((sameMembers other).2 (by simp)) with same | behind
              · exact same.symm
              · exact absurd (Ranked.precedes_trans (otherFirst head later) (headFirst other behind))
                  (Ranked.precedes_irrefl other)
          subst sameHead
          refine congrArg (head :: ·) (inductionHypothesis tailAscending restAscending ?_)
          intro value
          have whole := sameMembers value
          simp only [List.mem_cons] at whole
          constructor
          · intro member
            rcases whole.1 (.inr member) with same | found
            · exact absurd (same ▸ headFirst value member) (Ranked.precedes_irrefl _)
            · exact found
          · intro member
            rcases whole.2 (.inr member) with same | found
            · exact absurd (same ▸ otherFirst value member) (Ranked.precedes_irrefl _)
            · exact found

/-- Two sets with the same members are the same set. -/
theorem ext {left right : OrderedSet α} (sameMembers : ∀ value, value ∈ left ↔ value ∈ right) :
    left = right := by
  have sameLists := eq_of_ascending_of_mem_iff left.ascending right.ascending sameMembers
  cases left
  cases right
  cases sameLists
  rfl

end OrderedSet

end Workgroup

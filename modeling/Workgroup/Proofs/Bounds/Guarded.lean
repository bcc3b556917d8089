import Mathlib.Data.List.Range
import Mathlib.Logic.Function.Basic

/-!
Contract: computations that stop at the first index out of range.

The definitions of this library look everything up through questions that have an
answer for any index.  Where an algorithm would index an array directly, the
guarded form of the definition does so by the operations below, which fail for a
missing index.  A guarded computation that succeeds with what the definition
yields has used no index out of range.

Owns:
- the failure and the guarded operations on lists;
- guarded folds that keep up with unguarded ones;
- lists with one entry for each number below a bound.
-/

namespace Workgroup

/-- An index and the length that it should be below. -/
structure OutOfRange where
  index : Nat
  length : Nat
deriving DecidableEq, Repr

/-- A computation that stops at the first index out of range. -/
abbrev Guarded (α : Type) := Except OutOfRange α

namespace Guarded

variable {α β γ : Type}

/-- The entry at an index. -/
def read (items : List α) (index : Nat) : Guarded α :=
  match items[index]? with
  | some item => .ok item
  | none => .error ⟨index, items.length⟩

/-- Replaces the entry at an index. -/
def write (items : List α) (index : Nat) (item : α) : Guarded (List α) :=
  if index < items.length then .ok (items.set index item) else .error ⟨index, items.length⟩

/-- Puts an entry in front of the one at an index, or behind the last one. -/
def insert (items : List α) (index : Nat) (item : α) : Guarded (List α) :=
  if index ≤ items.length then .ok (items.insertIdx index item) else .error ⟨index, items.length⟩

/-- The entries from an index on. -/
def drop (items : List α) (index : Nat) : Guarded (List α) :=
  if index ≤ items.length then .ok (items.drop index) else .error ⟨index, items.length⟩

@[simp] theorem ok_bind (value : α) (next : α → Guarded β) :
    (.ok value >>= next) = next value := rfl

theorem read_eq_ok {items : List α} {index : Nat} {item : α} (listed : items[index]? = some item) :
    read items index = .ok item := by
  unfold read
  rw [listed]

theorem write_eq_ok {items : List α} {index : Nat} (below : index < items.length) (item : α) :
    write items index item = .ok (items.set index item) :=
  if_pos below

theorem insert_eq_ok {items : List α} {index : Nat} (inside : index ≤ items.length) (item : α) :
    insert items index item = .ok (items.insertIdx index item) :=
  if_pos inside

/-- Writing back a changed entry modifies the list. -/
theorem write_eq_modify {items : List α} {index : Nat} {item : α}
    (listed : items[index]? = some item) (change : α → α) :
    write items index (change item) = .ok (items.modify index change) := by
  have below : index < items.length := (List.getElem?_eq_some_iff.1 listed).1
  rw [write_eq_ok below, List.modify_eq_set_getElem?, listed]
  rfl

/-! ## Folds -/

/-- A guarded fold over views of states keeps up with the unguarded one if each
step does. -/
theorem foldlM_view {step : β → α → Guarded β} {plain : γ → α → γ} {items : List α} (view : γ → β)
    (steps : ∀ state, ∀ item ∈ items, step (view state) item = .ok (view (plain state item)))
    (start : γ) : items.foldlM step (view start) = .ok (view (items.foldl plain start)) := by
  induction items generalizing start with
  | nil => rfl
  | cons item items inductionHypothesis =>
      rw [List.foldlM_cons, steps start item List.mem_cons_self, List.foldl_cons]
      apply inductionHypothesis
      intro state other member
      exact steps state other (List.mem_cons_of_mem item member)

theorem foldlM_eq_ok {step : β → α → Guarded β} {plain : β → α → β} {items : List α}
    (steps : ∀ state, ∀ item ∈ items, step state item = .ok (plain state item)) (start : β) :
    items.foldlM step start = .ok (items.foldl plain start) :=
  foldlM_view id steps start

/-- It suffices that each step does on states with a property that it keeps. -/
theorem foldlM_good {step : β → α → Guarded β} {plain : β → α → β} {items : List α} {start : β}
    (good : β → Prop)
    (steps : ∀ state, good state → ∀ item ∈ items,
      step state item = .ok (plain state item) ∧ good (plain state item))
    (isGood : good start) :
    items.foldlM step start = .ok (items.foldl plain start) ∧ good (items.foldl plain start) := by
  induction items generalizing start with
  | nil => exact ⟨rfl, isGood⟩
  | cons item items inductionHypothesis =>
      obtain ⟨stepped, stillGood⟩ := steps start isGood item List.mem_cons_self
      rw [List.foldlM_cons, stepped, List.foldl_cons]
      apply inductionHypothesis _ stillGood
      intro state isGood other member
      exact steps state isGood other (List.mem_cons_of_mem item member)

end Guarded

/-! ## One entry for each number -/

/-- The values at the numbers below a bound. -/
def tabulate {α : Type} (count : Nat) (value : Nat → α) : List α := (List.range count).map value

section Tabulate

variable {α : Type} {count index : Nat} {value other : Nat → α}

@[simp] theorem length_tabulate : (tabulate count value).length = count := by
  simp [tabulate]

theorem tabulate_congr (same : ∀ index < count, value index = other index) :
    tabulate count value = tabulate count other :=
  List.map_congr_left fun index member => same index (List.mem_range.1 member)

theorem tabulate_const (constant : α) :
    tabulate count (fun _ => constant) = List.replicate count constant := by
  simp [tabulate]

theorem read_tabulate (below : index < count) :
    Guarded.read (tabulate count value) index = .ok (value index) :=
  Guarded.read_eq_ok (by simp [tabulate, List.getElem?_range below])

theorem write_tabulate (below : index < count) (item : α) :
    Guarded.write (tabulate count value) index item =
      .ok (tabulate count (Function.update value index item)) := by
  rw [Guarded.write_eq_ok (by simpa using below)]
  congr 1
  apply List.ext_getElem
  · simp
  · intro position inside _
    simp [tabulate, List.getElem_set, Function.update_apply, eq_comm]

end Tabulate

end Workgroup

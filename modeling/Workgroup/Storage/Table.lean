/-!
Contract: append-only storage addressed by handles.

A handle is the position at which an entry was appended.  Appending hands out
the next position and moves nothing, so a handle keeps meaning the same entry
until the table is cut below it.  Looking up a handle that was never handed
out yields `none`; nothing in this library indexes a table any other way.

Owns:
- the table type, its look-ups and its edits;
- one law per edit, stated through look-up and size.
-/

namespace Workgroup

/-- Entries in the order in which they were appended. -/
@[ext] structure Table (α : Type) where
  entries : List α
deriving DecidableEq, Repr

namespace Table

variable {α β : Type}

/-- The table without entries. -/
def empty : Table α := ⟨[]⟩

instance : Inhabited (Table α) := ⟨empty⟩

/-- The number of entries, which is also the next handle to be handed out. -/
def size (table : Table α) : Nat := table.entries.length

def isEmpty (table : Table α) : Bool := table.entries.isEmpty

/-- The entry behind a handle. -/
def get? (table : Table α) (handle : Nat) : Option α := table.entries[handle]?

/-- Whether a handle refers to an entry. -/
def contains (table : Table α) (handle : Nat) : Bool := decide (handle < table.size)

/-- Handles in ascending order. -/
def handles (table : Table α) : List Nat := List.range table.size

/-- Appends an entry; its handle is the old size. -/
def append (table : Table α) (entry : α) : Table α := ⟨table.entries ++ [entry]⟩

/-- Overwrites the entry behind a handle; a missing handle changes nothing. -/
def set (table : Table α) (handle : Nat) (entry : α) : Table α :=
  ⟨table.entries.set handle entry⟩

/-- Changes the entry behind a handle; a missing handle changes nothing. -/
def modify (table : Table α) (handle : Nat) (change : α → α) : Table α :=
  ⟨table.entries.modify handle change⟩

/-- Overwrites an entry, or refuses a missing handle. -/
def set? (table : Table α) (handle : Nat) (entry : α) : Option (Table α) :=
  if table.contains handle then some (table.set handle entry) else none

/-- Keeps the first `length` entries. -/
def truncate (table : Table α) (length : Nat) : Table α := ⟨table.entries.take length⟩

/-- Changes every entry. -/
def map (table : Table α) (change : α → β) : Table β := ⟨table.entries.map change⟩

/-- Changes every entry, knowing its handle. -/
def mapWithHandle (table : Table α) (change : Nat → α → β) : Table β :=
  ⟨table.entries.mapIdx change⟩

/-! ## Laws of the edits -/

@[simp] theorem get?_empty (handle : Nat) : (empty : Table α).get? handle = none := rfl

@[simp] theorem size_empty : (empty : Table α).size = 0 := rfl

@[simp] theorem size_append (table : Table α) (entry : α) :
    (table.append entry).size = table.size + 1 := by
  simp [size, append]

theorem get?_append_of_lt {table : Table α} {handle : Nat} (entry : α)
    (present : handle < table.size) :
    (table.append entry).get? handle = table.get? handle := by
  simp only [get?, append]
  exact List.getElem?_append_left present

@[simp] theorem get?_append_size (table : Table α) (entry : α) :
    (table.append entry).get? table.size = some entry := by
  simp [get?, append, size]

/-- The look-up after an append, for any handle. -/
theorem get?_append (table : Table α) (entry : α) (handle : Nat) :
    (table.append entry).get? handle =
      if handle = table.size then some entry else table.get? handle := by
  by_cases same : handle = table.size
  · rw [if_pos same, same]
    exact get?_append_size table entry
  · rw [if_neg same]
    by_cases below : handle < table.size
    · exact get?_append_of_lt entry below
    · simp only [get?, append, size] at *
      rw [List.getElem?_eq_none (by simp; omega), List.getElem?_eq_none (by omega)]

@[simp] theorem size_set (table : Table α) (handle : Nat) (entry : α) :
    (table.set handle entry).size = table.size := by
  simp [size, set]

/-- The look-up after an entry is overwritten. -/
theorem get?_set (table : Table α) (handle other : Nat) (entry : α)
    (present : handle < table.size) :
    (table.set handle entry).get? other =
      if handle = other then some entry else table.get? other := by
  unfold get? set
  unfold size at present
  by_cases same : handle = other
  · subst same
    rw [if_pos rfl]
    exact List.getElem?_set_self present
  · rw [if_neg same]
    exact List.getElem?_set_ne same

/-- Overwriting an entry with itself changes nothing. -/
theorem set_eq_self {table : Table α} {handle : Nat} {entry : α}
    (stored : table.get? handle = some entry) : table.set handle entry = table := by
  unfold get? at stored
  obtain ⟨below, isEntry⟩ := List.getElem?_eq_some_iff.1 stored
  apply Table.ext
  unfold set
  rw [← isEntry]
  exact List.set_getElem_self below

@[simp] theorem size_modify (table : Table α) (handle : Nat) (change : α → α) :
    (table.modify handle change).size = table.size := by
  simp [size, modify]

@[simp] theorem size_map (table : Table α) (change : α → β) :
    (table.map change).size = table.size := by
  simp [size, map]

@[simp] theorem get?_map (table : Table α) (change : α → β) (handle : Nat) :
    (table.map change).get? handle = (table.get? handle).map change := by
  simp [get?, map]

theorem get?_modify (table : Table α) (handle : Nat) (change : α → α) (other : Nat) :
    (table.modify handle change).get? other =
      (table.get? other).map (if handle = other then change else id) := by
  simp only [get?, modify, List.getElem?_modify]
  split <;> simp_all

/-- Cutting at the old size takes back an append. -/
@[simp] theorem truncate_append (table : Table α) (entry : α) :
    (table.append entry).truncate table.size = table := by
  simp [truncate, append, size]

theorem contains_iff {table : Table α} {handle : Nat} :
    table.contains handle = true ↔ handle < table.size := by
  simp [contains]

theorem get?_isSome_iff {table : Table α} {handle : Nat} :
    (table.get? handle).isSome = true ↔ handle < table.size := by
  simp [get?, size]

theorem get?_eq_none_iff {table : Table α} {handle : Nat} :
    table.get? handle = none ↔ table.size ≤ handle := by
  simp [get?, size]

end Table

end Workgroup

/-!
Contract: the closed vocabularies of instructions and their spellings.

Owns:
- scalar types, binary operators, comparisons and work-item queries;
- the word that spells each of them and the reading of such a word.

Each reading is the inverse of its spelling: a word is read as a value exactly
if it is the word that spells it.
-/

namespace Workgroup

/-- The first of the listed values that a word spells. -/
def spelledBy? {α : Type} (all : List α) (spell : α → String) (word : String) : Option α :=
  all.find? fun value => spell value == word

/-- A word that reads as a value spells it. -/
theorem eq_spell_of_spelledBy? {α : Type} {all : List α} {spell : α → String} {word : String}
    {value : α} (found : spelledBy? all spell word = some value) : word = spell value := by
  have spelled := List.find?_some found
  exact (eq_of_beq spelled).symm

/-- The types of arguments and of merged values. -/
inductive ScalarType where
  | bool
  | i32
  | u32
  | f32
  /-- An opaque pointer into a buffer. -/
  | ptr
deriving DecidableEq, Repr

namespace ScalarType

def all : List ScalarType := [.bool, .i32, .u32, .f32, .ptr]

def name : ScalarType → String
  | .bool => "bool"
  | .i32 => "i32"
  | .u32 => "u32"
  | .f32 => "f32"
  | .ptr => "ptr"

def ofName? (word : String) : Option ScalarType := spelledBy? all name word

theorem ofName?_name (type : ScalarType) : ofName? type.name = some type := by
  cases type <;> decide

theorem ofName?_eq_some_iff {word : String} {type : ScalarType} :
    ofName? word = some type ↔ word = type.name :=
  ⟨eq_spell_of_spelledBy?,
    fun same => same ▸ ofName?_name type⟩

end ScalarType

/-- Arithmetic and bitwise operators on two operands. -/
inductive BinaryOp where
  | add
  | subtract
  | multiply
  | divide
  | modulo
  | and
  | or
  | xor
  | shiftLeft
  | shiftRight
deriving DecidableEq, Repr

namespace BinaryOp

def all : List BinaryOp :=
  [.add, .subtract, .multiply, .divide, .modulo, .and, .or, .xor, .shiftLeft, .shiftRight]

def mnemonic : BinaryOp → String
  | .add => "add"
  | .subtract => "sub"
  | .multiply => "mul"
  | .divide => "div"
  | .modulo => "rem"
  | .and => "and"
  | .or => "or"
  | .xor => "xor"
  | .shiftLeft => "shl"
  | .shiftRight => "shr"

def ofMnemonic? (word : String) : Option BinaryOp := spelledBy? all mnemonic word

theorem ofMnemonic?_mnemonic (op : BinaryOp) : ofMnemonic? op.mnemonic = some op := by
  cases op <;> decide

theorem ofMnemonic?_eq_some_iff {word : String} {op : BinaryOp} :
    ofMnemonic? word = some op ↔ word = op.mnemonic :=
  ⟨eq_spell_of_spelledBy?,
    fun same => same ▸ ofMnemonic?_mnemonic op⟩

end BinaryOp

/-- Comparison predicates; their result is a truth value. -/
inductive CompareOp where
  | equal
  | notEqual
  | less
  | lessEqual
  | greater
  | greaterEqual
deriving DecidableEq, Repr

namespace CompareOp

def all : List CompareOp := [.equal, .notEqual, .less, .lessEqual, .greater, .greaterEqual]

def mnemonic : CompareOp → String
  | .equal => "eq"
  | .notEqual => "ne"
  | .less => "lt"
  | .lessEqual => "le"
  | .greater => "gt"
  | .greaterEqual => "ge"

def ofMnemonic? (word : String) : Option CompareOp := spelledBy? all mnemonic word

theorem ofMnemonic?_mnemonic (op : CompareOp) : ofMnemonic? op.mnemonic = some op := by
  cases op <;> decide

theorem ofMnemonic?_eq_some_iff {word : String} {op : CompareOp} :
    ofMnemonic? word = some op ↔ word = op.mnemonic :=
  ⟨eq_spell_of_spelledBy?,
    fun same => same ▸ ofMnemonic?_mnemonic op⟩

end CompareOp

/-- Queries for the place of the running work-item.  Local and global
identifiers differ inside a group; the group's identifier and its size do not. -/
inductive WorkItemQuery where
  | localId
  | globalId
  | groupId
  | localSize
deriving DecidableEq, Repr

namespace WorkItemQuery

def all : List WorkItemQuery := [.localId, .globalId, .groupId, .localSize]

def mnemonic : WorkItemQuery → String
  | .localId => "local_id"
  | .globalId => "global_id"
  | .groupId => "group_id"
  | .localSize => "local_size"

def ofMnemonic? (word : String) : Option WorkItemQuery := spelledBy? all mnemonic word

theorem ofMnemonic?_mnemonic (query : WorkItemQuery) :
    ofMnemonic? query.mnemonic = some query := by
  cases query <;> decide

theorem ofMnemonic?_eq_some_iff {word : String} {query : WorkItemQuery} :
    ofMnemonic? word = some query ↔ word = query.mnemonic :=
  ⟨eq_spell_of_spelledBy?,
    fun same => same ▸ ofMnemonic?_mnemonic query⟩

end WorkItemQuery

end Workgroup

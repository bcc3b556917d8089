import Workgroup.Fault
import Workgroup.Function.Basic

/-!
Contract: building functions and editing them in place.

Every addition appends to the instruction storage and puts the new handle
into one block, so no existing handle changes its meaning.  Cutting the
storage back takes additions out again, from the blocks and from the result
names as well.

Owns:
- appending arguments, blocks and instructions;
- insertion points, their check and insertion;
- cutting the storage back;
- direct edits of block lists, stored instructions and names.
-/

namespace Workgroup

/-- A place inside a block. -/
inductive InsertPoint where
  /-- Right before a placed instruction. -/
  | before (block : BlockId) (instruction : InstId)
  /-- After the last instruction. -/
  | atEnd (block : BlockId)
deriving DecidableEq, Repr

/-- The block the place lies in. -/
def InsertPoint.block : InsertPoint → BlockId
  | .before block _ => block
  | .atEnd block => block

namespace Function

/-! ## Building -/

/-- Declares one more argument; its position is the old number of arguments. -/
def addArgument (function : Function) (name : String) (type : ScalarType) : Function :=
  { function with arguments := function.arguments ++ [⟨name, type⟩] }

/-- Appends an empty block; its handle is the old number of blocks. -/
def addBlock (function : Function) (label : Option String) : Function :=
  { function with blocks := function.blocks.append ⟨label, []⟩ }

/-- Puts a handle at the end of a block. -/
def place (function : Function) (block : BlockId) (handle : InstId) : Function :=
  { function with
    blocks := function.blocks.modify block fun body =>
      { body with instructions := body.instructions ++ [handle] } }

/-- Stores an instruction and puts it at the end of a block; its handle is the
old size of the storage. -/
def append (function : Function) (block : BlockId) (instruction : Instruction) : Function :=
  { function with instructions := function.instructions.append instruction }.place block
    function.instructions.size

/-- Records the name of a result, replacing an earlier one. -/
def nameResult (function : Function) (handle : InstId) (name : String) : Function :=
  { function with valueNames := function.valueNames.insert handle name }

/-- Appends an instruction and names its result. -/
def appendNamed (function : Function) (block : BlockId) (name : String)
    (instruction : Instruction) : Function :=
  (function.append block instruction).nameResult function.instructions.size name

/-- Appends an instruction to an existing block, under a name if one is given. -/
def append? (function : Function) (block : BlockId) (instruction : Instruction)
    (name : Option String) : Option Function :=
  if function.blocks.contains block then
    match name with
    | none => some (function.append block instruction)
    | some name => some (function.appendNamed block name instruction)
  else none

/-- Empties the list of a block. -/
def clearBlock (function : Function) (block : BlockId) : Function :=
  { function with
    blocks := function.blocks.modify block fun body => { body with instructions := [] } }

/-- Overwrites a stored instruction, or refuses a missing handle. -/
def setInstruction? (function : Function) (handle : InstId) (instruction : Instruction) :
    Option Function :=
  (function.instructions.set? handle instruction).map fun instructions =>
    { function with instructions := instructions }

/-! ## Insertion points -/

/-- The place after the leading phis of a block.  A handle that leads nowhere
is not a phi. -/
def firstNonPhi (function : Function) (block : BlockId) : InsertPoint :=
  match (function.placed block).find? fun handle =>
      !(function.instructions.get? handle).any Instruction.isPhi with
  | some handle => .before block handle
  | none => .atEnd block

/-- The place right before the terminator of a block. -/
def beforeTerminator? (function : Function) (block : BlockId) : Option InsertPoint :=
  (function.terminator? block).map (.before block)

/-- The position of a place in the list of its block.  The first of repeated
handles counts. -/
def position (function : Function) (point : InsertPoint) : Except Fault Nat :=
  match function.blocks.get? point.block with
  | none => .error (.badHandle .block point.block function.blocks.size)
  | some body =>
      match point with
      | .atEnd _ => .ok body.instructions.length
      | .before block handle =>
          match body.instructions.findIdx? (· == handle) with
          | some index => .ok index
          | none => .error (.notInBlock handle (function.blockName block))

/-- Stores an instruction and puts its handle, the old size of the storage,
at a position of a block. -/
def insertAt (function : Function) (block : BlockId) (index : Nat)
    (instruction : Instruction) : Function :=
  { function with
    instructions := function.instructions.append instruction
    blocks := function.blocks.modify block fun body =>
      { body with
        instructions := body.instructions.insertIdx index function.instructions.size } }

/-- Inserts an instruction at a place and returns its handle. -/
def insert (function : Function) (point : InsertPoint) (instruction : Instruction) :
    Except Fault (Function × InstId) :=
  match function.position point with
  | .error fault => .error fault
  | .ok index =>
      .ok (function.insertAt point.block index instruction, function.instructions.size)

/-- Drops every instruction stored from a handle on, from the blocks, the
result names and the storage alike. -/
def truncateInstructions (function : Function) (length : Nat) : Function :=
  { function with
    blocks := function.blocks.map fun body =>
      { body with instructions := body.instructions.filter (· < length) }
    valueNames := function.valueNames.filterKeys (· < length)
    instructions := function.instructions.truncate length }

end Function

end Workgroup

import Workgroup.Instruction
import Workgroup.Storage.IndexMap
import Workgroup.Storage.Table

/-!
Contract: functions as blocks that order handles into one instruction storage.

A block owns the order of its instructions and nothing else; the instructions
live in the storage of the function.  No invariant ties the two together, so
every question below has an answer on any function: a handle that leads
nowhere contributes nothing.

Owns:
- arguments, blocks, functions and modules;
- the questions about blocks that the analyses and the passes ask.
-/

namespace Workgroup

/-- Whether the host launches a function or other functions call it. -/
inductive FunctionKind where
  | kernel
  | helper
deriving DecidableEq, Repr

namespace FunctionKind

def all : List FunctionKind := [.kernel, .helper]

/-- The word a signature begins with. -/
def keyword : FunctionKind → String
  | .kernel => "kernel"
  | .helper => "func"

def ofKeyword? (word : String) : Option FunctionKind := spelledBy? all keyword word

theorem ofKeyword?_keyword (kind : FunctionKind) : ofKeyword? kind.keyword = some kind := by
  cases kind <;> decide

theorem ofKeyword?_eq_some_iff {word : String} {kind : FunctionKind} :
    ofKeyword? word = some kind ↔ word = kind.keyword :=
  ⟨eq_spell_of_spelledBy?, fun same => same ▸ ofKeyword?_keyword kind⟩

end FunctionKind

structure Argument where
  name : String
  type : ScalarType
deriving DecidableEq, Repr

/-- Handles in execution order, under an optional label. -/
structure Block where
  label : Option String
  instructions : List InstId
deriving DecidableEq, Repr

/-- A function; one without blocks is a declaration, and otherwise the first
block is the entry. -/
structure Function where
  name : String
  kind : FunctionKind
  arguments : List Argument
  blocks : Table Block
  instructions : Table Instruction
  /-- The names of instruction results. -/
  valueNames : IndexMap String
deriving DecidableEq

namespace Function

/-- A function without arguments and blocks. -/
def declare (name : String) (kind : FunctionKind) : Function where
  name := name
  kind := kind
  arguments := []
  blocks := .empty
  instructions := .empty
  valueNames := .empty

instance : Inhabited Function := ⟨declare "" .helper⟩

def isKernel (function : Function) : Bool := function.kind == .kernel

/-- Whether the function has no body. -/
def isDeclaration (function : Function) : Bool := function.blocks.isEmpty

/-- The first block. -/
def entryBlock? (function : Function) : Option BlockId :=
  if function.blocks.isEmpty then none else some 0

/-- The label of a block, or a name made from its handle. -/
def blockName (function : Function) (block : BlockId) : String :=
  ((function.blocks.get? block).bind Block.label).getD s!"bb{block}"

/-- The first block of a label. -/
def blockLabelled? (function : Function) (label : String) : Option BlockId :=
  function.blocks.entries.findIdx? fun block => block.label == some label

/-- The argument of a name, or else the first result of that name. -/
def valueNamed? (function : Function) (name : String) : Option Value :=
  match function.arguments.findIdx? fun argument => argument.name == name with
  | some index => some (.argument index)
  | none =>
      (function.valueNames.entries.find? fun entry => entry.2 == name).map fun entry =>
        .result entry.1

/-- The handles placed in a block; a missing block holds none. -/
def placed (function : Function) (block : BlockId) : List InstId :=
  ((function.blocks.get? block).map Block.instructions).getD []

/-- The last handle of a block, if a terminator is stored behind it. -/
def terminator? (function : Function) (block : BlockId) : Option InstId :=
  (function.placed block).getLast?.filter fun last =>
    (function.instructions.get? last).any Instruction.isTerminator

/-- The terminator of a block as an instruction. -/
def terminatorInstruction? (function : Function) (block : BlockId) : Option Instruction :=
  (function.terminator? block).bind function.instructions.get?

/-- The blocks the terminator of a block names, in operand order. -/
def successors (function : Function) (block : BlockId) : List BlockId :=
  ((function.terminatorInstruction? block).map Instruction.successors).getD []

/-- Whether a barrier is placed in the block. -/
def containsBarrier (function : Function) (block : BlockId) : Bool :=
  (function.placed block).any fun handle =>
    (function.instructions.get? handle).any Instruction.isBarrier

/-- All placed handles, block by block. -/
def allPlaced (function : Function) : List InstId :=
  function.blocks.entries.flatMap Block.instructions

/-- The number of placed handles. -/
def instructionCount (function : Function) : Nat := function.allPlaced.length

/-- The number of barriers placed in the blocks. -/
def barrierCount (function : Function) : Nat :=
  function.allPlaced.countP fun handle =>
    (function.instructions.get? handle).any Instruction.isBarrier

end Function

/-- The functions of a compilation unit, in order of appearance. -/
structure Module where
  functions : Table Function
deriving DecidableEq

namespace Module

def empty : Module := ⟨.empty⟩

instance : Inhabited Module := ⟨empty⟩

/-- The first function of a name. -/
def functionNamed? (module : Module) (name : String) : Option FuncId :=
  module.functions.entries.findIdx? fun function => function.name == name

/-- The handles of the kernels, in ascending order. -/
def kernels (module : Module) : List FuncId :=
  module.functions.handles.filter fun handle =>
    (module.functions.get? handle).any Function.isKernel

/-- The number of barriers placed in all functions. -/
def barrierCount (module : Module) : Nat :=
  module.functions.entries.foldl (fun count function => count + function.barrierCount) 0

end Module

end Workgroup

import Workgroup.Fault
import Workgroup.Function.Basic

/-!
Contract: collecting the structural faults of a function.

Blocks are checked in order, and the placed handles of a block in order; one
handle can have several faults.  The blocks that a phi takes values from are
not checked.

Owns:
- the faults of an operand, a target and a placed handle;
- `Function.faults`.
-/

namespace Workgroup.Function

/-- A target outside the function. -/
def targetFault? (function : Function) (target : BlockId) : Option Fault :=
  if function.blocks.contains target then none
  else some (.badHandle .block target function.blocks.size)

/-- An operand that refers to nothing. -/
def operandFault? (function : Function) : Value → Option Fault
  | .result instruction =>
      if function.instructions.contains instruction then none
      else some (.badHandle .instruction instruction function.instructions.size)
  | .argument index =>
      if index < function.arguments.length then none
      else some (.badArgument index function.arguments.length)
  | .constant _ => none

/-- The faults of an instruction, given whether another kind of instruction
stands before it and whether it is the last of its block. -/
def instructionFaults (function : Function) (block : BlockId) (instruction : Instruction)
    (afterNonPhi isLast : Bool) : List Fault :=
  (if instruction.isPhi && afterNonPhi then [.misplacedPhi (function.blockName block)] else []) ++
    (if instruction.isTerminator && !isLast then
      [.misplacedTerminator (function.blockName block)] else []) ++
    instruction.successors.filterMap function.targetFault? ++
    instruction.operands.filterMap function.operandFault?

/-- The faults of the handles of a block from some position on, given whether
an instruction that is not a phi stands before them. -/
def placementFaults (function : Function) (block : BlockId) : Bool → List InstId → List Fault
  | _, [] => []
  | afterNonPhi, handle :: rest =>
      match function.instructions.get? handle with
      | none =>
          .badHandle .instruction handle function.instructions.size ::
            function.placementFaults block afterNonPhi rest
      | some instruction =>
          function.instructionFaults block instruction afterNonPhi rest.isEmpty ++
            function.placementFaults block (afterNonPhi || !instruction.isPhi) rest

/-- The faults of a block. -/
def blockFaults (function : Function) (block : BlockId) : List Fault :=
  (if (function.terminator? block).isNone then
    [.missingTerminator (function.blockName block)] else []) ++
    function.placementFaults block false (function.placed block)

/-- All structural faults, block by block. -/
def faults (function : Function) : List Fault :=
  function.blocks.handles.flatMap function.blockFaults

end Workgroup.Function

import Workgroup.Instruction

/-!
Contract: the ways in which a function can be structurally wrong.

One cause per constructor; `Fault.message` is the only place that words them.
Insertion reports them one at a time, validation collects them.
-/

namespace Workgroup

/-- The two storages whose handles a fault can name. -/
inductive HandleKind where
  | block
  | instruction
deriving DecidableEq, Repr

def HandleKind.name : HandleKind → String
  | .block => "block"
  | .instruction => "instruction"

/-- A structural defect.  Blocks are named by their display label. -/
inductive Fault where
  /-- A handle outside its storage of the given size. -/
  | badHandle (kind : HandleKind) (index size : Nat)
  /-- An insertion point before an instruction that the block does not hold. -/
  | notInBlock (instruction : InstId) (block : String)
  /-- A block that does not end with a terminator. -/
  | missingTerminator (block : String)
  /-- A terminator that is not the last instruction of its block. -/
  | misplacedTerminator (block : String)
  /-- A phi that follows another kind of instruction. -/
  | misplacedPhi (block : String)
  /-- An argument position that the function does not declare. -/
  | badArgument (index count : Nat)
deriving DecidableEq, Repr

def Fault.message : Fault → String
  | .badHandle kind index size =>
      s!"{kind.name} handle index {index} out of bounds (arena size: {size})"
  | .notInBlock instruction block => s!"instruction %{instruction} is not placed in block '{block}'"
  | .missingTerminator block => s!"block '{block}' has no terminator"
  | .misplacedTerminator block =>
      s!"block '{block}' has a terminator before its last instruction"
  | .misplacedPhi block => s!"block '{block}' has a phi after a non-phi instruction"
  | .badArgument index count => s!"argument index {index} out of range ({count} arguments)"

end Workgroup

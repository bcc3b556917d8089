import Workgroup.Function.Edit
import Workgroup.Program
import Workgroup.Text.InstructionReader

/-!
Contract: reading programs from text.

A function is a signature line, body lines and a line with a closing brace.
Its body is read twice: the outline creates the blocks, one place per
instruction and the result names; then the instructions and the facts are
read, in this order, with all names known.

Owns:
- the outline of a body and its completion;
- the assembly of functions into a program;
- `Program.parse`.
-/

namespace Workgroup

open Text

/-- What the first reading of a body has found. -/
structure Outline where
  /-- Blocks, result names and a place holder per instruction. -/
  function : Function
  /-- The block that the last label opened. -/
  current : Option BlockId
  /-- Instruction lines, in the order of their handles. -/
  instructionLines : List Line
  /-- Lines of facts. -/
  factLines : List Line
deriving DecidableEq

namespace Outline

def start (function : Function) : Outline := ⟨function, none, [], []⟩

/-- Opens a block. -/
def addLabel (outline : Outline) (line : Nat) (label : String) : Except ParseError Outline :=
  if (outline.function.blockLabelled? label).isSome then
    .error (.onLine line (.redefinition label))
  else
    .ok { outline with
      function := outline.function.addBlock (some label)
      current := some outline.function.blocks.size }

/-- The result that an instruction line names. -/
def resultName? : List Token → Option String
  | .valueName name :: .mark .equals :: _ => some name
  | _ => none

/-- Makes a place for an instruction in the current block. -/
def addInstruction (outline : Outline) (line : Line) : Except ParseError Outline :=
  match outline.current with
  | none => .error (.onLine line.number .outsideBlock)
  | some block =>
      let function := outline.function
      match resultName? line.tokens with
      | none =>
          .ok { outline with
            function := function.append block .unreachable
            instructionLines := outline.instructionLines ++ [line] }
      | some name =>
          if (function.valueNamed? name).isSome then
            .error (.onLine line.number (.redefinition ("%" ++ name)))
          else
            .ok { outline with
              function := function.appendNamed block name .unreachable
              instructionLines := outline.instructionLines ++ [line] }

/-- Takes up one line of a body. -/
def add (outline : Outline) (line : Line) : Except ParseError Outline :=
  match line.tokens with
  | [.word label, .mark .colon] => outline.addLabel line.number label
  | .word name :: _ =>
      if name = "uniform" then .ok { outline with factLines := outline.factLines ++ [line] }
      else outline.addInstruction line
  | _ => outline.addInstruction line

/-- The function and the facts of a body whose outline is complete. -/
def complete (outline : Outline) : Except ParseError (Function × Facts) := do
  let instructions ← outline.instructionLines.mapM
    (Reader.readLine (Reader.instruction outline.function))
  let facts ← outline.factLines.mapM (Reader.readLine (Reader.factLine outline.function))
  return ({ outline.function with instructions := ⟨instructions⟩ },
    facts.flatten.foldl Facts.mark .empty)

end Outline

/-- Reads the body of a function. -/
def Function.readBody (signature : Function) (body : List Line) :
    Except ParseError (Function × Facts) := do
  let outline ← body.foldlM Outline.add (Outline.start signature)
  outline.complete

/-- The functions that are complete, and the one whose body is being read. -/
structure Assembly where
  program : Program
  /-- A signature and the body lines behind it, so far. -/
  unfinished : Option (Function × List Line)
deriving DecidableEq

namespace Assembly

def start : Assembly := ⟨.empty, none⟩

/-- Appends a function; facts are kept only if there are any. -/
def addFunction (assembly : Assembly) (function : Function) (facts : Facts) : Assembly where
  program :=
    { module := ⟨assembly.program.module.functions.append function⟩
      facts :=
        if facts.isEmpty then assembly.program.facts
        else assembly.program.facts.insert assembly.program.module.functions.size facts }
  unfinished := none

/-- Takes up a signature line. -/
def addSignature (assembly : Assembly) (line : Line) : Except ParseError Assembly := do
  let (function, closed) ← Reader.readLine Reader.signature line
  if (assembly.program.module.functionNamed? function.name).isSome then
    throw (.onLine line.number (.duplicateFunction function.name))
  if closed then return assembly.addFunction function .empty
  return { assembly with unfinished := some (function, []) }

/-- Takes up one line of a program. -/
def add (assembly : Assembly) (line : Line) : Except ParseError Assembly :=
  match assembly.unfinished with
  | none => assembly.addSignature line
  | some (signature, body) =>
      if line.tokens = [.mark .closeBrace] then do
        let (function, facts) ← signature.readBody body
        return assembly.addFunction function facts
      else .ok { assembly with unfinished := some (signature, body ++ [line]) }

/-- The program, unless a function is not closed. -/
def finish (assembly : Assembly) : Except ParseError Program :=
  match assembly.unfinished with
  | none => .ok assembly.program
  | some (signature, _) => .error (.unexpectedEnd signature.name)

end Assembly

namespace Program

/-- Reads a program from the tokens of its lines. -/
def ofLines (lines : List Line) : Except ParseError Program := do
  let assembly ← lines.foldlM Assembly.add Assembly.start
  assembly.finish

/-- Reads a program.  A line that cannot be tokenized refuses the whole text
before anything else is looked at. -/
def parse (source : String) : Except ParseError Program := do
  let lines ← tokenizeLines 1 (splitLines source.toList)
  ofLines lines

end Program

end Workgroup

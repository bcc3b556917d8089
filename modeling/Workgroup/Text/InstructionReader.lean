import Workgroup.Function.Basic
import Workgroup.Text.Reader
import Workgroup.Uniformity

/-!
Contract: reading signatures, instructions and lists of facts.

Names are resolved in a function whose labels and result names are already
known, so that an operand may name a value that is defined further down.

Owns:
- operands, targets, types and the operand lists of every opcode;
- instruction lines, signature lines and lines of facts.
-/

namespace Workgroup.Text.Reader

open Workgroup (Function Value BlockId Instruction Opcode Facts Fact)

/-- A named value, a number of 32 bits or a truth value. -/
def operand (scope : Function) : Reader Value
  | .valueName name :: rest =>
      match scope.valueNamed? name with
      | some value => .ok (value, rest)
      | none => .error (.undefinedValue name)
  | .number amount :: rest =>
      match int32? amount with
      | some value => .ok (.constant (.int value), rest)
      | none => .error (.badInteger (toString amount))
  | .word name :: rest =>
      if name = "true" then .ok (.constant (.bool true), rest)
      else if name = "false" then .ok (.constant (.bool false), rest)
      else refuse .operand (.word name :: rest)
  | tokens => refuse .operand tokens

/-- The block of a label. -/
def target (scope : Function) : Reader BlockId := do
  let label ← word .blockLabel
  match scope.blockLabelled? label with
  | some block => return block
  | none => fail (.undefinedBlock label)

def scalarType : Reader ScalarType := do
  let name ← word .typeName
  match ScalarType.ofName? name with
  | some type => return type
  | none => fail (.unknownType name)

def comparison : Reader CompareOp := do
  let name ← word .comparison
  match CompareOp.ofMnemonic? name with
  | some op => return op
  | none => fail (.unknownOpcode ("cmp " ++ name))

/-- Two operands with a comma between them. -/
def operandPair (scope : Function) : Reader (Value × Value) := do
  let left ← operand scope
  expect .comma
  let right ← operand scope
  return (left, right)

/-- A value and the predecessor it comes from, in brackets. -/
def incoming (scope : Function) : Reader (Value × BlockId) := do
  expect .openBracket
  let value ← operand scope
  expect .comma
  let block ← target scope
  expect .closeBracket
  return (value, block)

/-- A case value and the block it leads to. -/
def switchCase (scope : Function) : Reader (Int32 × BlockId) := do
  let value ← number .caseValue int32?
  expect .colon
  let block ← target scope
  return (value, block)

/-- What follows an opcode. -/
def operands (scope : Function) : Opcode → Reader Instruction
  | .phi => do
      let type ← scalarType
      let entries ← items atEnd fun _ => incoming scope
      return .phi type entries
  | .binary op => do
      let (left, right) ← operandPair scope
      return .binary op left right
  | .compare => do
      let op ← comparison
      let (left, right) ← operandPair scope
      return .compare op left right
  | .select => do
      let condition ← operand scope
      expect .comma
      let (accept, reject) ← operandPair scope
      return .select condition accept reject
  | .workItem query => do
      let dimension ← number .dimension uint32?
      return .workItem query dimension
  | .load => do
      let pointer ← operand scope
      return .load pointer
  | .store => do
      let (pointer, value) ← operandPair scope
      return .store pointer value
  | .call => do
      let callee ← functionName
      expect .openParen
      let arguments ← items (accept .closeParen) fun _ => operand scope
      return .call callee arguments
  | .barrier => return .barrier
  | .branch => do
      let block ← target scope
      return .branch block
  | .condBranch => do
      let condition ← operand scope
      expect .comma
      let accepted ← target scope
      expect .comma
      let rejected ← target scope
      return .condBranch condition accepted rejected
  | .switch => do
      let selector ← operand scope
      expect .comma
      let fallback ← target scope
      expect .openBracket
      let cases ← items (accept .closeBracket) fun _ => switchCase scope
      return .switch selector fallback cases
  | .ret => do
      if ← atEnd then
        return .ret none
      let value ← operand scope
      return .ret (some value)
  | .unreachable => return .unreachable

/-- An opcode with its operands, up to the end of the line.  A line that names
a result must have one. -/
def operation (scope : Function) (named : Bool) : Reader Instruction := do
  let mnemonic ← word .opcode
  match Opcode.ofMnemonic? mnemonic with
  | none => fail (.unknownOpcode mnemonic)
  | some opcode => do
      let instruction ← operands scope opcode
      finish
      if named && !opcode.hasResult then
        fail (.noResult mnemonic)
      return instruction

/-- An instruction line. -/
def instruction (scope : Function) : Reader Instruction
  | .valueName _ :: rest => (do expect .equals; operation scope true : Reader Instruction) rest
  | tokens => operation scope false tokens

/-- A block or a value in a list of facts. -/
def fact (scope : Function) : Reader Fact
  | .word name :: rest => (Fact.block <$> target scope) (.word name :: rest)
  | .valueName name :: rest => (Fact.value <$> operand scope) (.valueName name :: rest)
  | tokens => refuse .fact tokens

/-- A line of facts: a keyword, then blocks and values with commas between them. -/
def factLine (scope : Function) : Reader (List Fact) := do
  let _ ← word .fact
  items atEnd fun _ => fact scope

def functionKind : Reader FunctionKind
  | .word name :: rest =>
      match FunctionKind.ofKeyword? name with
      | some kind => .ok (kind, rest)
      | none => refuse .functionKeyword (.word name :: rest)
  | tokens => refuse .functionKeyword tokens

/-- An argument whose name differs from those before it. -/
def argument (before : List Argument) : Reader Argument := do
  let name ← valueName .argumentName
  if before.any fun argument => argument.name == name then
    fail (.redefinition ("%" ++ name))
  expect .colon
  let type ← scalarType
  return ⟨name, type⟩

/-- A signature line and whether it also closes the body. -/
def signature : Reader (Function × Bool) := do
  let kind ← functionKind
  let name ← functionName
  expect .openParen
  let arguments ← items (accept .closeParen) argument
  expect .openBrace
  let closed ← accept .closeBrace
  finish
  return ({ Function.declare name kind with arguments := arguments }, closed)

end Workgroup.Text.Reader

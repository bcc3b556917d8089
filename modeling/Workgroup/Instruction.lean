import Workgroup.Opcode
import Workgroup.Storage.OrderedSet

/-!
Contract: instructions and the values they read.

Owns:
- handles of functions, blocks and instructions;
- literals and values, with the order in which facts list values;
- the instruction set and the questions asked of one instruction alone.

Nothing here looks at a function: a handle inside an instruction may point
anywhere or nowhere.
-/

namespace Workgroup

/-- The handle of a function in its module. -/
abbrev FuncId := Nat

/-- The handle of a block in its function. -/
abbrev BlockId := Nat

/-- The handle of an instruction in its function's storage. -/
abbrev InstId := Nat

/-- A constant operand. -/
inductive Literal where
  | bool (value : Bool)
  | int (value : Int32)
deriving DecidableEq, Repr

/-- What an instruction reads: a result, an argument or a constant. -/
inductive Value where
  /-- The result of an instruction of the same function. -/
  | result (instruction : InstId)
  /-- The argument at a zero-based position. -/
  | argument (index : Nat)
  | constant (literal : Literal)
deriving DecidableEq, Repr

namespace Value

/-- The instruction that defines the value. -/
def definition? : Value → Option InstId
  | .result instruction => some instruction
  | .argument _ => none
  | .constant _ => none

def isConstant : Value → Bool
  | .constant _ => true
  | .result _ => false
  | .argument _ => false

/-- Facts list arguments first, then results, integers and truth values, each
group in ascending order. -/
def rank : Value → Nat × Nat
  | .argument index => (0, index)
  | .result instruction => (1, instruction)
  | .constant (.int value) => (2, (value.toInt - Int32.minValue.toInt).toNat)
  | .constant (.bool value) => (3, value.toNat)

theorem rank_injective {left right : Value} (same : rank left = rank right) : left = right := by
  cases left with
  | result instruction =>
      cases right with
      | constant literal => cases literal <;> simp [rank] at same
      | _ => simp_all [rank]
  | argument index =>
      cases right with
      | constant literal => cases literal <;> simp [rank] at same
      | _ => simp_all [rank]
  | constant literal =>
      cases right with
      | constant other =>
          cases literal with
          | bool value =>
              cases other with
              | bool otherValue => cases value <;> cases otherValue <;> simp_all [rank]
              | int otherValue => simp [rank] at same
          | int value =>
              cases other with
              | bool otherValue => simp [rank] at same
              | int otherValue =>
                  have lower := value.le_toInt
                  have otherLower := otherValue.le_toInt
                  have least : Int32.minValue.toInt = -2147483648 := rfl
                  simp only [rank, Prod.mk.injEq, true_and] at same
                  exact congrArg (Value.constant ∘ Literal.int) (Int32.toInt_inj.1 (by omega))
      | _ => cases literal <;> simp [rank] at same

instance : Ranked Value where
  rank := rank
  rank_injective := rank_injective

end Value

/-- An instruction.  A well-formed block begins with its phis and ends with
its only terminator. -/
inductive Instruction where
  /-- Merges one value per predecessor at the start of a block. -/
  | phi (type : ScalarType) (incoming : List (Value × BlockId))
  | binary (op : BinaryOp) (left right : Value)
  | compare (op : CompareOp) (left right : Value)
  | select (condition accept reject : Value)
  /-- The place of the running work-item along a dimension. -/
  | workItem (query : WorkItemQuery) (dimension : UInt32)
  | load (pointer : Value)
  | store (pointer value : Value)
  | call (callee : String) (arguments : List Value)
  /-- Every work-item of the group reaches it equally often. -/
  | barrier
  | branch (target : BlockId)
  | condBranch (condition : Value) (accept reject : BlockId)
  | switch (selector : Value) (fallback : BlockId) (cases : List (Int32 × BlockId))
  | ret (value : Option Value)
  | unreachable
deriving DecidableEq, Repr

namespace Instruction

/-- What the instruction does. -/
def opcode : Instruction → Opcode
  | .phi _ _ => .phi
  | .binary op _ _ => .binary op
  | .compare _ _ _ => .compare
  | .select _ _ _ => .select
  | .workItem query _ => .workItem query
  | .load _ => .load
  | .store _ _ => .store
  | .call _ _ => .call
  | .barrier => .barrier
  | .branch _ => .branch
  | .condBranch _ _ _ => .condBranch
  | .switch _ _ _ => .switch
  | .ret _ => .ret
  | .unreachable => .unreachable

/-- Whether the instruction ends a block. -/
def isTerminator (instruction : Instruction) : Bool := instruction.opcode.isTerminator

/-- Whether the instruction defines a value. -/
def hasResult (instruction : Instruction) : Bool := instruction.opcode.hasResult

def isPhi : Instruction → Bool
  | .phi _ _ => true
  | _ => false

def isBarrier : Instruction → Bool
  | .barrier => true
  | _ => false

/-- The condition of a two-way branch; every other instruction has none. -/
def branchCondition? : Instruction → Option Value
  | .condBranch condition _ _ => some condition
  | _ => none

/-- The blocks a terminator names, in operand order and with repetitions. -/
def successors : Instruction → List BlockId
  | .branch target => [target]
  | .condBranch _ accept reject => [accept, reject]
  | .switch _ fallback cases => fallback :: cases.map Prod.snd
  | _ => []

/-- The values the instruction reads, in operand order. -/
def operands : Instruction → List Value
  | .phi _ incoming => incoming.map Prod.fst
  | .binary _ left right => [left, right]
  | .compare _ left right => [left, right]
  | .select condition accept reject => [condition, accept, reject]
  | .workItem _ _ => []
  | .load pointer => [pointer]
  | .store pointer value => [pointer, value]
  | .call _ arguments => arguments
  | .barrier => []
  | .branch _ => []
  | .condBranch condition _ _ => [condition]
  | .switch selector _ _ => [selector]
  | .ret value => value.toList
  | .unreachable => []

/-- The blocks a phi takes values from, in operand order. -/
def incomingBlocks : Instruction → List BlockId
  | .phi _ incoming => incoming.map Prod.snd
  | _ => []

end Instruction

end Workgroup

import Workgroup.Scalar

/-!
Contract: the operations of instructions and the words that name them.

Each word names one operation; the two-operand operators and the work-item
queries are operations under their own mnemonics.
-/

namespace Workgroup

/-- What an instruction does, without its operands. -/
inductive Opcode where
  | phi
  | binary (op : BinaryOp)
  | compare
  | select
  | workItem (query : WorkItemQuery)
  | load
  | store
  | call
  | barrier
  | branch
  | condBranch
  | switch
  | ret
  | unreachable
deriving DecidableEq, Repr

namespace Opcode

def all : List Opcode :=
  [.phi, .compare, .select, .load, .store, .call, .barrier, .branch, .condBranch, .switch, .ret,
    .unreachable] ++ BinaryOp.all.map .binary ++ WorkItemQuery.all.map .workItem

def mnemonic : Opcode → String
  | .phi => "phi"
  | .binary op => op.mnemonic
  | .compare => "cmp"
  | .select => "select"
  | .workItem query => query.mnemonic
  | .load => "load"
  | .store => "store"
  | .call => "call"
  | .barrier => "barrier"
  | .branch => "br"
  | .condBranch => "condbr"
  | .switch => "switch"
  | .ret => "ret"
  | .unreachable => "unreachable"

def ofMnemonic? (word : String) : Option Opcode := spelledBy? all mnemonic word

theorem ofMnemonic?_mnemonic (opcode : Opcode) : ofMnemonic? opcode.mnemonic = some opcode := by
  cases opcode with
  | binary op => cases op <;> decide
  | workItem query => cases query <;> decide
  | _ => decide

theorem ofMnemonic?_eq_some_iff {word : String} {opcode : Opcode} :
    ofMnemonic? word = some opcode ↔ word = opcode.mnemonic :=
  ⟨eq_spell_of_spelledBy?, fun same => same ▸ ofMnemonic?_mnemonic opcode⟩

/-- Whether the operation defines a value. -/
def hasResult : Opcode → Bool
  | .phi | .binary _ | .compare | .select | .workItem _ | .load | .call => true
  | .store | .barrier | .branch | .condBranch | .switch | .ret | .unreachable => false

/-- Whether the operation ends a block. -/
def isTerminator : Opcode → Bool
  | .branch | .condBranch | .switch | .ret | .unreachable => true
  | .phi | .binary _ | .compare | .select | .workItem _ | .load | .store | .call | .barrier =>
      false

end Opcode

end Workgroup

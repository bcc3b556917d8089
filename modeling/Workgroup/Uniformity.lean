import Workgroup.Instruction
import Workgroup.Storage.IndexMap

/-!
Contract: uniformity facts and the oracles that answer for them.

A block is uniform when either every work-item of a group reaches it or none
does; a value is uniform when every work-item computes the same result.  This
library never derives such facts: they come with the text or from outside.

Owns:
- the facts of one function and the table of facts of a module;
- oracles, which may keep a state of their own between queries.
-/

namespace Workgroup

/-- What is known to be uniform in one function. -/
structure Facts where
  blocks : OrderedSet BlockId
  values : OrderedSet Value
deriving DecidableEq

/-- One entry of a list of facts. -/
inductive Fact where
  | block (block : BlockId)
  | value (value : Value)
deriving DecidableEq, Repr

namespace Facts

def empty : Facts := ⟨.empty, .empty⟩

instance : Inhabited Facts := ⟨empty⟩

def isEmpty (facts : Facts) : Bool := facts.blocks.isEmpty && facts.values.isEmpty

def markBlock (facts : Facts) (block : BlockId) : Facts :=
  { facts with blocks := facts.blocks.insert block }

def markValue (facts : Facts) (value : Value) : Facts :=
  { facts with values := facts.values.insert value }

def mark (facts : Facts) : Fact → Facts
  | .block block => facts.markBlock block
  | .value value => facts.markValue value

def isUniformBlock (facts : Facts) (block : BlockId) : Bool := facts.blocks.contains block

/-- Constants are uniform without being marked. -/
def isUniformValue (facts : Facts) (value : Value) : Bool :=
  value.isConstant || facts.values.contains value

end Facts

/-- The facts of the functions of a module; functions without any may be absent. -/
abbrev FactTable := IndexMap Facts

namespace FactTable

/-- The facts of a function, empty if it is absent. -/
def factsOf (table : FactTable) (function : FuncId) : Facts :=
  (IndexMap.get? table function).getD .empty

def isUniformBlock (table : FactTable) (function : FuncId) (block : BlockId) : Bool :=
  (factsOf table function).isUniformBlock block

def isUniformValue (table : FactTable) (function : FuncId) (value : Value) : Bool :=
  (factsOf table function).isUniformValue value

end FactTable

/-- Answers uniformity queries.  Each query may also change the notes `σ` that
the run carries along, so an oracle can count or record what it is asked. -/
structure Oracle (σ : Type) where
  block : FuncId → BlockId → σ → Bool × σ
  value : FuncId → Value → σ → Bool × σ

namespace Oracle

variable {σ : Type}

/-- An oracle whose answers depend on the query alone. -/
def pure (block : FuncId → BlockId → Bool) (value : FuncId → Value → Bool) : Oracle σ where
  block function queried notes := (block function queried, notes)
  value function queried notes := (value function queried, notes)

/-- The oracle of a table of facts. -/
def ofFacts (table : FactTable) : Oracle σ := pure table.isUniformBlock table.isUniformValue

/-- Nothing is uniform, not even a constant. -/
def nothing : Oracle σ := pure (fun _ _ => false) (fun _ _ => false)

end Oracle

end Workgroup

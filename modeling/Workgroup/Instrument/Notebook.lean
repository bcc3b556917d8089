import Workgroup.Barrier.Placement

/-!
Contract: watching a run of passes.

A notebook is the state of a run in which every query, decision and probe is
written down in order.  Instruments that count keep their numbers in its
counters, each instrument in a counter of its own.

Owns:
- observations, notebooks and their counters;
- the oracle that affirms and records every query;
- the sink that collects decisions.
-/

namespace Workgroup

/-- What a probe sees of a loop. -/
structure LoopSight where
  /-- The name of the probe. -/
  probe : String
  function : FuncId
  header : BlockId
  /-- The number of loops of the function. -/
  loops : Nat
  exiting : List BlockId
  latches : List BlockId
  uniqueHeader : Option BlockId
  /-- The immediate dominator of the header. -/
  idom : Option BlockId
  /-- Whether the header is uniform. -/
  uniform : Bool
deriving DecidableEq, Repr

/-- One entry of a notebook. -/
inductive Observation where
  | askedBlock (function : FuncId) (block : BlockId)
  | askedValue (function : FuncId) (value : Value)
  | decided (function : String) (decision : BarrierDecision)
  | probed (sight : LoopSight)
  /-- What was left of a countdown before it was run. -/
  | counted (left : Nat)
deriving DecidableEq, Repr

structure Notebook where
  observations : List Observation
  counters : List Nat
deriving DecidableEq, Repr

namespace Notebook

def empty : Notebook := ⟨[], []⟩

instance : Inhabited Notebook := ⟨empty⟩

/-- Writes an observation behind the others. -/
def observe (notebook : Notebook) (observation : Observation) : Notebook :=
  { notebook with observations := notebook.observations ++ [observation] }

/-- The number in a counter; a missing counter stands at zero. -/
def counter (notebook : Notebook) (slot : Nat) : Nat := notebook.counters[slot]?.getD 0

def setCounter (notebook : Notebook) (slot value : Nat) : Notebook :=
  { notebook with counters := notebook.counters.set slot value }

/-- Opens one more counter; its slot is the old number of counters. -/
def openCounter (notebook : Notebook) (value : Nat) : Notebook :=
  { notebook with counters := notebook.counters ++ [value] }

end Notebook

/-- Affirms every query and writes it down. -/
def Oracle.recording : Oracle Notebook where
  block function block notebook := (true, notebook.observe (.askedBlock function block))
  value function value notebook := (true, notebook.observe (.askedValue function value))

/-- Writes decisions into the notebook. -/
def DecisionSink.collect : DecisionSink Notebook := fun function decision journal =>
  journal.setNotes (journal.notes.observe (.decided function decision))

/-- Where the answers to uniformity queries come from. -/
inductive OracleChoice where
  | facts
  /-- No oracle is supplied. -/
  | missing
  /-- An oracle that denies everything is supplied. -/
  | stale
  /-- An oracle that affirms and records everything is supplied. -/
  | recording
deriving DecidableEq, Repr

namespace OracleChoice

/-- The oracle of a choice over a table of facts. -/
def oracle? (choice : OracleChoice) (table : FactTable) : Option (Oracle Notebook) :=
  match choice with
  | .facts => some (.ofFacts table)
  | .missing => none
  | .stale => some .nothing
  | .recording => some .recording

/-- The analyses with which a run begins. -/
def analyses (choice : OracleChoice) (table : FactTable) : Analyses Notebook :=
  ⟨choice.oracle? table, []⟩

end OracleChoice

end Workgroup

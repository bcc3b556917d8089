/-!
Contract: which analyses a pass needs and which it keeps valid.

Owns:
- the kinds of analyses and the two ways to depend on one;
- the list of dependencies that a pass declares.
-/

namespace Workgroup

/-- Analyses that a pass can depend on. -/
inductive AnalysisKind where
  /-- The dominator tree and the graph it belongs to. -/
  | dominators
  /-- The forest of natural loops. -/
  | loops
  /-- Facts supplied from outside. -/
  | uniformity
deriving DecidableEq, Repr

namespace AnalysisKind

def all : List AnalysisKind := [.dominators, .loops, .uniformity]

def name : AnalysisKind → String
  | .dominators => "dominators"
  | .loops => "loops"
  | .uniformity => "uniformity"

end AnalysisKind

/-- How a pass relates to an analysis. -/
inductive Dependency where
  /-- Available before the pass runs. -/
  | required
  /-- Still valid after the pass changed a function. -/
  | preserved
deriving DecidableEq, Repr

/-- What a pass declares, in order of declaration and without repetitions. -/
structure AnalysisUsage where
  entries : List (AnalysisKind × Dependency)
deriving DecidableEq, Repr

namespace AnalysisUsage

def empty : AnalysisUsage := ⟨[]⟩

/-- Declares a dependency; a second declaration changes nothing. -/
def declare (usage : AnalysisUsage) (kind : AnalysisKind) (dependency : Dependency) :
    AnalysisUsage :=
  if usage.entries.contains (kind, dependency) then usage
  else ⟨usage.entries ++ [(kind, dependency)]⟩

def require (usage : AnalysisUsage) (kind : AnalysisKind) : AnalysisUsage :=
  usage.declare kind .required

def preserve (usage : AnalysisUsage) (kind : AnalysisKind) : AnalysisUsage :=
  usage.declare kind .preserved

def requires (usage : AnalysisUsage) (kind : AnalysisKind) : Bool :=
  usage.entries.contains (kind, .required)

def preserves (usage : AnalysisUsage) (kind : AnalysisKind) : Bool :=
  usage.entries.contains (kind, .preserved)

/-- The required analyses, in order of declaration. -/
def required (usage : AnalysisUsage) : List AnalysisKind :=
  (usage.entries.filter fun entry => entry.2 == .required).map Prod.fst

end AnalysisUsage

end Workgroup

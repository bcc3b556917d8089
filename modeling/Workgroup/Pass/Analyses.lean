import Workgroup.Pass.AnalysisUsage
import Workgroup.Uniformity

/-!
Contract: the analyses that the passes of one run share.

Control-flow analyses are recomputed at need and always available.
Uniformity comes from outside and cannot be recomputed: once a pass that does
not preserve it has changed a function, it is stale there for the rest of the
run, and the function's queries go to an oracle that denies everything.

Owns:
- the state of the analyses, availability and invalidation.
-/

namespace Workgroup

/-- The supplied oracle, if any, and what has become stale since. -/
structure Analyses (σ : Type) where
  oracle : Option (Oracle σ)
  stale : List (FuncId × AnalysisKind)

namespace Analyses

variable {σ : Type}

/-- No oracle is supplied. -/
def unsupplied : Analyses σ := ⟨none, []⟩

/-- An oracle is supplied and nothing is stale. -/
def supplied (oracle : Oracle σ) : Analyses σ := ⟨some oracle, []⟩

/-- Whether a pass working on a function can be handed an analysis. -/
def isAvailable (analyses : Analyses σ) (function : FuncId) : AnalysisKind → Bool
  | .dominators => true
  | .loops => true
  | .uniformity => analyses.oracle.isSome && !analyses.stale.contains (function, .uniformity)

/-- The oracle for a function; it denies everything if uniformity is not
available there. -/
def oracleFor (analyses : Analyses σ) (function : FuncId) : Oracle σ :=
  if analyses.isAvailable function .uniformity then analyses.oracle.getD .nothing else .nothing

/-- Records that a pass changed a function. -/
def invalidate (analyses : Analyses σ) (function : FuncId) (usage : AnalysisUsage) :
    Analyses σ :=
  { analyses with
    stale := analyses.stale ++
      (AnalysisKind.all.filter fun kind => !usage.preserves kind).map fun kind => (function, kind) }

end Analyses

end Workgroup

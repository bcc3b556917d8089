/-!
Contract: what is decided about the barriers of one loop.

A decision names the loop by the label of its header.  All wordings are in
this module.
-/

namespace Workgroup

/-- Why a loop is left alone, or that it was given barriers. -/
inductive BarrierDecision where
  /-- The function is not selected. -/
  | notKernel
  | alreadySynchronized (header : String)
  | notInnermost (header : String) (subLoops : Nat)
  | noUniqueExit (header : String) (exiting : Nat)
  | noUniqueHeader (header : String)
  | headerNotUniform (header : String)
  /-- The exiting block does not end with a two-way branch. -/
  | exitNotConditional (header exiting : String)
  | conditionNotUniform (header condition : String)
  | inserted (header exiting : String)
deriving DecidableEq, Repr

def BarrierDecision.message : BarrierDecision → String
  | .notKernel => "not a kernel to process"
  | .alreadySynchronized header => s!"loop '{header}' already contains a barrier"
  | .notInnermost header subLoops => s!"loop '{header}' has {subLoops} sub-loop(s)"
  | .noUniqueExit header exiting => s!"loop '{header}' has {exiting} exiting blocks"
  | .noUniqueHeader header => s!"loop '{header}' has no unique header"
  | .headerNotUniform header => s!"loop entry '{header}' is not uniform"
  | .exitNotConditional header exiting =>
      s!"loop '{header}' exits from '{exiting}' without a conditional branch"
  | .conditionNotUniform header condition => s!"loop '{header}' condition {condition} is not uniform"
  | .inserted header exiting =>
      s!"added barriers to loop '{header}' (header and before the exit in '{exiting}')"

end Workgroup

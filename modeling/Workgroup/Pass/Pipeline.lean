import Workgroup.Pass.LoopPass

/-!
Contract: running stages over a module until nothing changes.

A stage is a pass over the whole module or a group of loop passes.  A round
runs every stage once, each on what the one before left.  Rounds go on until
one of them reports no change or the limit is reached; there is always a first
round.

Owns:
- module passes and the run of a group of loop passes over a module;
- stages, rounds and pipelines.
-/

namespace Workgroup

/-- What the stages of a run hand on. -/
structure PassState (σ : Type) where
  module : Module
  analyses : Analyses σ
  journal : Journal σ

/-- What a stage answers. -/
@[ext] structure PassOutcome (σ : Type) where
  /-- Whether the stage reports a change. -/
  changed : Bool
  state : PassState σ

/-- A transformation of a whole module. -/
structure ModulePass (σ : Type) where
  name : String
  run : PassState σ → PassOutcome σ

namespace PassState

variable {σ : Type}

/-- Runs loop passes over one function; a declaration is left alone. -/
def runOnFunction (passes : List (LoopPass σ)) (outcome : PassOutcome σ) (handle : FuncId) :
    PassOutcome σ :=
  match outcome.state.module.functions.get? handle with
  | none => outcome
  | some function =>
      if function.isDeclaration then outcome
      else
        let run := function.runLoopPasses handle passes outcome.state.analyses outcome.state.journal
        { changed := outcome.changed || run.changed
          state :=
            { module := ⟨outcome.state.module.functions.set handle run.function⟩
              analyses := run.analyses
              journal := run.journal } }

/-- Runs loop passes over every function, in ascending order. -/
def runLoopPasses (state : PassState σ) (passes : List (LoopPass σ)) : PassOutcome σ :=
  state.module.functions.handles.foldl (runOnFunction passes) ⟨false, state⟩

end PassState

/-- One stage of a pipeline. -/
inductive Stage (σ : Type) where
  /-- Loop passes that share one walk over the loops. -/
  | loops (passes : List (LoopPass σ))
  | module (pass : ModulePass σ)

namespace Stage

variable {σ : Type}

def name : Stage σ → String
  | .loops _ => "loop-pass-manager"
  | .module pass => pass.name

def run (stage : Stage σ) (state : PassState σ) : PassOutcome σ :=
  match stage with
  | .loops passes => state.runLoopPasses passes
  | .module pass => pass.run state

end Stage

/-- Stages and a limit on the number of rounds. -/
structure Pipeline (σ : Type) where
  stages : List (Stage σ)
  maxRounds : Nat

namespace Pipeline

variable {σ : Type}

/-- The limit of a pipeline that is given none. -/
def defaultRounds : Nat := 10

def names (pipeline : Pipeline σ) : List String := pipeline.stages.map Stage.name

/-- Runs one stage of a round and writes down a change that it reports. -/
def step (round : Nat) (outcome : PassOutcome σ) (stage : Stage σ) : PassOutcome σ :=
  let next := stage.run outcome.state
  if next.changed then
    ⟨true, { next.state with journal := next.state.journal.write (.roundChanged round stage.name) }⟩
  else ⟨outcome.changed, next.state⟩

/-- Runs every stage once. -/
def runRound (stages : List (Stage σ)) (round : Nat) (state : PassState σ) : PassOutcome σ :=
  stages.foldl (step round) ⟨false, state⟩

/-- Runs rounds, numbered from some number on, until one reports no change or
as many have run as are left. -/
def runRounds (stages : List (Stage σ)) : Nat → Nat → PassState σ → PassOutcome σ
  | 0, _, state => ⟨false, state⟩
  | left + 1, round, state =>
      let outcome := runRound stages round state
      if outcome.changed then ⟨true, (runRounds stages left (round + 1) outcome.state).state⟩
      else outcome

/-- Runs the pipeline.  A limit of zero counts as one. -/
def run (pipeline : Pipeline σ) (state : PassState σ) : PassOutcome σ :=
  runRounds pipeline.stages (max 1 pipeline.maxRounds) 0 state

end Pipeline

end Workgroup

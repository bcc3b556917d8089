import Workgroup.Barrier.Placement
import Workgroup.Pass.Pipeline
import Workgroup.Validation

/-!
Contract: passes under names, and pipelines assembled from names.

A name is registered once.  A pipeline is assembled from registered names
only; loop passes that stand next to each other share one walk over the loops.

Owns:
- the options common to all passes;
- the validation pass;
- registries, their built-in passes and the assembly of pipelines.
-/

namespace Workgroup

/-- The options that every pass of a pipeline is built from. -/
structure PassOptions where
  /-- Changes only the kernel of this name. -/
  kernelName : Option String
  /-- Writes decisions about barriers into the log. -/
  traceBarriers : Bool
  maxRounds : Nat
deriving DecidableEq, Repr

def PassOptions.standard : PassOptions := ⟨none, false, Pipeline.defaultRounds⟩

/-- Writes the structural faults of a module into the log and changes nothing. -/
def ModulePass.verify {σ : Type} : ModulePass σ where
  name := "verify"
  run state :=
    ⟨false, { state with
      journal := state.journal.writeAll (state.module.functions.entries.flatMap fun function =>
        function.faults.map fun fault => .faultFound function.name fault) }⟩

/-- The barrier pass that the options ask for. -/
def BarrierPass.ofOptions {σ : Type} (options : PassOptions) : BarrierPass σ :=
  plain ⟨options.kernelName⟩ (if options.traceBarriers then some .log else none)

/-- How a registered pass is built. -/
inductive PassBuilder (σ : Type) where
  | module (build : PassOptions → ModulePass σ)
  | loop (build : PassOptions → LoopPass σ)

structure RegisteredPass (σ : Type) where
  name : String
  description : String
  builder : PassBuilder σ

/-- Why a pass is not registered or a pipeline not assembled. -/
inductive PipelineError where
  | unknownPass (name : String)
  | duplicatePass (name : String)
deriving DecidableEq, Repr

def PipelineError.message : PipelineError → String
  | .unknownPass name => s!"unknown pass '{name}'"
  | .duplicatePass name => s!"pass '{name}' is already registered"

/-- A pass that is built but not yet grouped. -/
inductive Component (σ : Type) where
  | module (pass : ModulePass σ)
  | loop (pass : LoopPass σ)

def PassBuilder.build {σ : Type} (builder : PassBuilder σ) (options : PassOptions) : Component σ :=
  match builder with
  | .module build => .module (build options)
  | .loop build => .loop (build options)

/-- Puts loop passes that stand next to each other into one stage. -/
def Component.group {σ : Type} : List (Component σ) → List (Stage σ)
  | [] => []
  | .module pass :: rest => .module pass :: group rest
  | .loop pass :: rest =>
      match group rest with
      | .loops passes :: stages => .loops (pass :: passes) :: stages
      | stages => .loops [pass] :: stages

/-- The registered passes, in order of registration. -/
structure Registry (σ : Type) where
  passes : List (RegisteredPass σ)

namespace Registry

variable {σ : Type}

def empty : Registry σ := ⟨[]⟩

/-- Builds the barrier pass, under whatever name it is registered. -/
def barrierBuilder : PassBuilder σ := .loop fun options => (BarrierPass.ofOptions options).toLoopPass

/-- Builds the validation pass, under whatever name it is registered. -/
def verifyBuilder : PassBuilder σ := .module fun _ => .verify

/-- The registry of the built-in passes. -/
def builtin : Registry σ where
  passes :=
    [⟨BarrierPass.name, BarrierPass.description, barrierBuilder⟩,
      ⟨"verify", "Checks structural IR invariants", verifyBuilder⟩]

def find? (registry : Registry σ) (name : String) : Option (RegisteredPass σ) :=
  registry.passes.find? fun pass => pass.name == name

/-- Registers a pass under a new name. -/
def register (registry : Registry σ) (pass : RegisteredPass σ) :
    Except PipelineError (Registry σ) :=
  if (registry.find? pass.name).isSome then .error (.duplicatePass pass.name)
  else .ok ⟨registry.passes ++ [pass]⟩

/-- Builds the pass of a name. -/
def component (registry : Registry σ) (options : PassOptions) (name : String) :
    Except PipelineError (Component σ) :=
  match registry.find? name with
  | none => .error (.unknownPass name)
  | some pass => .ok (pass.builder.build options)

/-- Assembles the named passes, in order. -/
def assemble (registry : Registry σ) (names : List String) (options : PassOptions) :
    Except PipelineError (Pipeline σ) :=
  match names.mapM (registry.component options) with
  | .error failure => .error failure
  | .ok components => .ok ⟨Component.group components, options.maxRounds⟩

/-- Assembles the named passes and writes their names into the log. -/
def build (registry : Registry σ) (names : List String) (options : PassOptions)
    (journal : Journal σ) : Except PipelineError (Pipeline σ × Journal σ) :=
  match registry.assemble names options with
  | .error failure => .error failure
  | .ok pipeline => .ok (pipeline, journal.write (.pipelineBuilt pipeline.names))

end Registry

end Workgroup

import Workgroup.CommandLine.Options
import Workgroup.Pass.Registry
import Workgroup.Text.Parser

/-!
Contract: what the command answers.

The answer is a value: exit code, output, messages and at most one file to be
written.  Reading the input and writing the file are left to the caller.

Owns:
- the log lines that a user sees;
- the answer of a request, given the text of the input file.
-/

namespace Workgroup.CommandLine

/-- The name under which the messages of an entry are shown; entries without
one are never shown. -/
def logTarget? : LogEntry → Option String
  | .faultFound _ _ => some "lockstep_opt::validation"
  | .skipped _ _ _ => some "lockstep_opt::loop_pass"
  | .notPlaced _ _ => some "lockstep_opt::loop_barriers"
  | .decided _ _ => some "lockstep::loop_barriers"
  | .loopsFound _ _ _ | .pipelineBuilt _ | .roundChanged _ _ | .loopChanged _ _ _ => none

/-- The level of an entry in capitals, right-aligned to five characters. -/
def levelTag : LogLevel → String
  | .trace => "TRACE"
  | .debug => "DEBUG"
  | .warn => " WARN"

/-- The lines that show a log. -/
def logLines (log : List LogEntry) : List String :=
  log.filterMap fun entry =>
    (logTarget? entry).map fun target => s!"{levelTag entry.level} {target}: {entry.message}\n"

/-- What the command leaves behind. -/
structure Answer where
  /-- Zero for success, one for a failed run, two for a refused command line. -/
  code : Nat
  output : String
  messages : String
  /-- A file to be written and its contents. -/
  save : Option (String × String)
deriving DecidableEq, Repr

namespace Answer

def success (output messages : String) : Answer := ⟨0, output, messages, none⟩

/-- A run that fails after some messages. -/
def failure (messages cause : String) : Answer :=
  ⟨1, "", messages ++ s!"Error: {cause}\n", none⟩

def refusal : Answer := ⟨2, "", "error: the command line is not accepted\n", none⟩

end Answer

def versionText : String := "lockstep 0.1.0\n"

/-- One line per built-in pass: the name, filled up to 24 characters, and the
description. -/
def passList : String :=
  String.join ((Registry.builtin : Registry Unit).passes.map fun pass =>
    pass.name ++ String.ofList (List.replicate (24 - pass.name.length) ' ') ++ " " ++
      pass.description ++ "\n")

namespace Invocation

/-- The names of the passes to run. -/
def passNames (invocation : Invocation) : List String :=
  invocation.passes.getD [BarrierPass.name]

def passOptions (invocation : Invocation) : PassOptions where
  kernelName := invocation.kernel
  traceBarriers := invocation.has .traceBarriers
  maxRounds := invocation.maxRounds.getD Pipeline.defaultRounds

/-- Runs a pipeline over a program and answers with the result. -/
def runPipeline (invocation : Invocation) (program : Program) (messages : String)
    (pipeline : Pipeline Unit) (journal : Journal Unit) : Answer :=
  let outcome := pipeline.run ⟨program.module, .supplied (.ofFacts program.facts), journal⟩
  let result : Program := { program with module := outcome.state.module }
  let inserted := result.module.barrierCount - program.module.barrierCount
  let shown := messages ++ String.join (logLines outcome.state.journal.log)
  if invocation.has .dryRun then .success "" (shown ++ s!"{inserted} barrier(s) inserted\n")
  else
    match invocation.output with
    | some path => ⟨0, "", shown, some (path, result.render)⟩
    | none => .success result.render shown

/-- Runs over the text of the input file, which is missing if the file cannot
be read. -/
def run (invocation : Invocation) (source : Option String) : Answer :=
  if invocation.has .listPasses then .success passList ""
  else
    match source with
    | none => .failure "" "the input file cannot be read"
    | some text =>
        match Program.parse text with
        | .error defect => .failure "" defect.message
        | .ok program =>
            let messages :=
              if invocation.has .emitText then program.render ++ "\n" else ""
            match Registry.builtin.build invocation.passNames invocation.passOptions
                (.start ()) with
            | .error cause => .failure messages cause.message
            | .ok (pipeline, journal) =>
                invocation.runPipeline program messages pipeline journal

end Invocation

namespace Request

/-- The input file that a request reads. -/
def input? : Request → Option String
  | .version => none
  | .run invocation => if invocation.has .listPasses then none else invocation.input

/-- Answers a request, given the text of its input file. -/
def answer (request : Request) (source : Option String) : Answer :=
  match request with
  | .version => .success versionText ""
  | .run invocation => invocation.run source

end Request

end Workgroup.CommandLine

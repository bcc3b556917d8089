import Workgroup.Text.Pieces

/-!
Contract: reading the arguments of the command.

Arguments are read from left to right.  The first one that cannot be accepted
refuses the whole command line, and a request for the version answers at
once.  Two hyphens end the options.

Owns:
- flags, settings and the shape of one argument;
- invocations and requests;
- `Request.parse?`.
-/

namespace Workgroup.CommandLine

/-- Options without a value; each may be given once. -/
inductive Flag where
  | traceBarriers
  | emitText
  | dryRun
  | listPasses
deriving DecidableEq, Repr

/-- Options with a value. -/
inductive Setting where
  | passes
  | kernel
  | maxRounds
  | output
deriving DecidableEq, Repr

/-- What one argument is. -/
inductive Item where
  | flag (flag : Flag)
  | version
  /-- A setting, possibly with its value in the same argument. -/
  | setting (setting : Setting) (attached : Option String)
  | positional (value : String)
  /-- Only positional arguments follow. -/
  | separator
  | unknown
deriving DecidableEq, Repr

namespace Item

/-- An option of a long name, with the text behind an equals sign. -/
def long (name : String) (attached : Option String) : Item :=
  let flag (item : Item) : Item := if attached.isNone then item else .unknown
  if name = "passes" then .setting .passes attached
  else if name = "kernel" then .setting .kernel attached
  else if name = "max-iterations" then .setting .maxRounds attached
  else if name = "output" then .setting .output attached
  else if name = "trace-loop-barriers" then flag (.flag .traceBarriers)
  else if name = "emit-ir" then flag (.flag .emitText)
  else if name = "dry-run" then flag (.flag .dryRun)
  else if name = "list-passes" then flag (.flag .listPasses)
  else if name = "version" then flag .version
  else .unknown

/-- The text before the first equals sign and the text behind it. -/
def splitAtEquals (text : List Char) : List Char × Option (List Char) :=
  match text.dropWhile (· != '=') with
  | [] => (text, none)
  | _ :: value => (text.takeWhile (· != '='), some value)

/-- Short options; the value of a setting may follow at once or behind an
equals sign. -/
def short : List Char → Item
  | 'V' :: _ => .version
  | ['o'] => .setting .output none
  | 'o' :: '=' :: value => .setting .output (some (String.ofList value))
  | 'o' :: value => .setting .output (some (String.ofList value))
  | _ => .unknown

def classify (argument : String) : Item :=
  match argument.toList with
  | ['-', '-'] => .separator
  | '-' :: '-' :: option =>
      let (name, value) := splitAtEquals option
      long (String.ofList name) (value.map String.ofList)
  | '-' :: first :: rest => short (first :: rest)
  | _ => .positional argument

end Item

/-- What a run is asked to do. -/
structure Invocation where
  input : Option String
  /-- Pass names, if any are given. -/
  passes : Option (List String)
  kernel : Option String
  maxRounds : Option Nat
  output : Option String
  flags : List Flag
deriving DecidableEq, Repr

/-- The largest limit on rounds that is accepted. -/
def maxRoundsBound : Nat := UInt64.size

/-- A number without sign or with a plus sign. -/
def readRounds? (text : String) : Option Nat :=
  let digits :=
    match text.toList with
    | '+' :: rest => rest
    | rest => rest
  if digits.isEmpty || !digits.all Char.isDigit then none
  else
    let rounds := Nat.ofDigitChars 10 digits 0
    if rounds < maxRoundsBound then some rounds else none

namespace Invocation

def empty : Invocation := ⟨none, none, none, none, none, []⟩

def has (invocation : Invocation) (flag : Flag) : Bool := invocation.flags.contains flag

def raise? (invocation : Invocation) (flag : Flag) : Option Invocation :=
  if invocation.has flag then none
  else some { invocation with flags := invocation.flags ++ [flag] }

/-- Sets the input file, which is given once and is not empty. -/
def place? (invocation : Invocation) (path : String) : Option Invocation :=
  if invocation.input.isSome || path.isEmpty then none
  else some { invocation with input := some path }

/-- Gives a setting a value.  Pass names add up; the other settings are given
once. -/
def assign? (invocation : Invocation) (setting : Setting) (value : String) : Option Invocation :=
  match setting with
  | .passes =>
      some { invocation with
        passes := some (invocation.passes.getD [] ++
          (Text.pieces ',' value.toList).map String.ofList) }
  | .kernel =>
      if invocation.kernel.isSome then none else some { invocation with kernel := some value }
  | .maxRounds =>
      if invocation.maxRounds.isSome then none
      else (readRounds? value).map fun rounds => { invocation with maxRounds := some rounds }
  | .output =>
      if invocation.output.isSome || value.isEmpty then none
      else some { invocation with output := some value }

/-- Whether nothing that a run needs is missing. -/
def isComplete (invocation : Invocation) : Bool :=
  invocation.input.isSome || invocation.has .listPasses

end Invocation

/-- What a command line asks for. -/
inductive Request where
  | version
  | run (invocation : Invocation)
deriving DecidableEq, Repr

namespace Request

/-- Whether an argument can be the value of the setting before it. -/
def isValue (argument : String) : Bool :=
  match argument.toList with
  | '-' :: _ :: _ => false
  | _ => true

def finish? (invocation : Invocation) : Option Request :=
  if invocation.isComplete then some (.run invocation) else none

/-- Reads the arguments that are left, after those already read. -/
def readFrom? : List String → Invocation → Option Request
  | [], invocation => finish? invocation
  | argument :: rest, invocation =>
      match Item.classify argument with
      | .version => some .version
      | .flag flag => (invocation.raise? flag).bind (readFrom? rest)
      | .setting setting (some value) => (invocation.assign? setting value).bind (readFrom? rest)
      | .setting setting none =>
          match rest with
          | [] => none
          | value :: rest =>
              if isValue value then (invocation.assign? setting value).bind (readFrom? rest)
              else none
      | .positional value => (invocation.place? value).bind (readFrom? rest)
      | .separator => (rest.foldlM Invocation.place? invocation).bind finish?
      | .unknown => none

/-- The request of a command line; none if it is refused. -/
def parse? (arguments : List String) : Option Request := readFrom? arguments .empty

end Request

end Workgroup.CommandLine

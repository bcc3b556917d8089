import Workgroup.CommandLine.Run

/-!
Contract: the command.  It reads the input file, asks for the answer, writes
what the answer says and exits with its code.
-/

open Workgroup.CommandLine

/-- The text of a file, unless it cannot be read. -/
def readText? (path : String) : IO (Option String) := do
  try
    return some (← IO.FS.readFile path)
  catch _ =>
    return none

/-- Writes the file of an answer, or turns the answer into a failure. -/
def save (answer : Answer) : IO Answer := do
  match answer.save with
  | none => return answer
  | some (path, text) =>
      try
        IO.FS.writeFile path text
        return answer
      catch _ =>
        return .failure answer.messages "the output file cannot be written"

def main (arguments : List String) : IO UInt32 := do
  let answer ←
    match Request.parse? arguments with
    | none => pure .refusal
    | some request => do
        let source ←
          match request.input? with
          | some path => readText? path
          | none => pure none
        save (request.answer source)
  IO.eprint answer.messages
  IO.print answer.output
  return UInt32.ofNat answer.code

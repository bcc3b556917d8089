import Workgroup.CommandLine.Run

/-!
Contract: running the command over a folder held in memory.

A folder holds files and no folders.  Paths are relative to it; single dots
name the folder itself, and a path that leads anywhere else is not found.
-/

namespace Workgroup.CommandLine

/-- Files by name. -/
structure Folder where
  files : List (String × String)
deriving DecidableEq, Repr

namespace Folder

/-- The file that a path names, whether or not it is there. -/
def fileName? (path : String) : Option String :=
  let pieces := Text.pieces '/' path.toList
  let isHere (piece : List Char) : Bool := piece.isEmpty || piece == ['.']
  match pieces.getLast? with
  | none => none
  | some last =>
      if pieces.head? == some [] || isHere last || last == ['.', '.'] ||
          !pieces.dropLast.all isHere then none
      else some (String.ofList last)

def read? (folder : Folder) (path : String) : Option String :=
  (fileName? path).bind fun name =>
    (folder.files.find? fun file => file.1 == name).map Prod.snd

def write? (folder : Folder) (path text : String) : Option Folder :=
  (fileName? path).map fun name =>
    ⟨(name, text) :: folder.files.filter fun file => file.1 != name⟩

/-- Runs the command in the folder: its answer and the folder afterwards. -/
def execute (folder : Folder) (arguments : List String) : Answer × Folder :=
  match Request.parse? arguments with
  | none => (.refusal, folder)
  | some request =>
      let answer := request.answer (request.input?.bind folder.read?)
      match answer.save with
      | none => (answer, folder)
      | some (path, text) =>
          match folder.write? path text with
          | some written => (answer, written)
          | none => (.failure answer.messages "the output file cannot be written", folder)

end Folder

end Workgroup.CommandLine

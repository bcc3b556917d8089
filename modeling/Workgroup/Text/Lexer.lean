import Workgroup.Text.Blank
import Workgroup.Text.Defect
import Workgroup.Text.Numeral
import Workgroup.Text.Pieces

/-!
Contract: splitting a line into tokens.

Blank characters separate tokens and a semicolon begins a comment.  A name or
a numeral extends over all the name characters that follow its first
character.  The scan fails at the first place where no token can be read.

Owns:
- the token at the head of a text;
- the scan of a line and the split of a text into lines.
-/

namespace Workgroup.Text

/-- The token that begins with a character, and the number of characters after
the first that belong to it. -/
def lexeme (first : Char) (rest : List Char) : Except Defect (Token × Nat) :=
  let name := rest.takeWhile isNameChar
  if first = '%' ∨ first = '@' then
    if name.isEmpty then .error (.unexpectedChar first)
    else if first = '%' then .ok (.valueName (String.ofList name), name.length)
    else .ok (.functionName (String.ofList name), name.length)
  else if first = '-' ∨ first.isDigit then
    match (readInteger? (first :: name)).filter fitsToken with
    | some number => .ok (.number number, name.length)
    | none => .error (.badInteger (String.ofList (first :: name)))
  else if isNameChar first then .ok (.word (String.ofList (first :: name)), name.length)
  else
    match Mark.ofChar? first with
    | some sign => .ok (.mark sign, 0)
    | none => .error (.unexpectedChar first)

/-- Scans a text whose first characters, as many as `skip` says, belong to a
token that has been read. -/
def scan : List Char → Nat → Except Defect (List Token)
  | [], _ => .ok []
  | _ :: rest, skip + 1 => scan rest skip
  | first :: rest, 0 =>
      if first = ';' then .ok []
      else if isBlank first then scan rest 0
      else
        match lexeme first rest with
        | .error defect => .error defect
        | .ok (token, length) =>
            match scan rest length with
            | .error defect => .error defect
            | .ok tokens => .ok (token :: tokens)

/-- The tokens of a line. -/
def tokenize (line : List Char) : Except Defect (List Token) := scan line 0

/-- Characters that have been read may as well be dropped before the scan. -/
theorem scan_eq_scan_drop (text : List Char) (skip : Nat) :
    scan text skip = scan (text.drop skip) 0 := by
  induction text generalizing skip with
  | nil => cases skip <;> simp [scan]
  | cons first rest inductionHypothesis =>
      cases skip with
      | zero => rfl
      | succ skip => simpa [scan] using inductionHypothesis skip

/-- A line that has tokens, with its number. -/
structure Line where
  number : Nat
  tokens : List Token
deriving DecidableEq, Repr

/-- The lines of a text. -/
def splitLines (text : List Char) : List (List Char) := pieces '\n' text

/-- Tokenizes lines, the first of which has the given number, and leaves out
those without tokens.  The first line that cannot be tokenized decides. -/
def tokenizeLines : Nat → List (List Char) → Except ParseError (List Line)
  | _, [] => .ok []
  | number, line :: rest =>
      match tokenize line with
      | .error defect => .error (.onLine number defect)
      | .ok tokens =>
          match tokenizeLines (number + 1) rest with
          | .error failure => .error failure
          | .ok lines => .ok (if tokens.isEmpty then lines else ⟨number, tokens⟩ :: lines)

end Workgroup.Text

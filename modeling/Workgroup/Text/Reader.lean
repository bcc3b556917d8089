import Workgroup.Text.Lexer

/-!
Contract: reading the tokens of one line from left to right.

A reader takes what it needs from the front of a list of tokens or refuses
with a defect.  Readers are total: a list of items is read with as much fuel
as there are tokens, and each item takes at least one.

Owns:
- the reader type and the elementary readers;
- lists of items with commas between them.
-/

namespace Workgroup.Text

/-- Reads a value from the front of a list of tokens. -/
abbrev Reader := StateT (List Token) (Except Defect)

namespace Reader

variable {α : Type}

/-- Refuses the next token. -/
def refuse (expectation : Expectation) : Reader α :=
  fun tokens => .error (.expected expectation tokens.head?)

/-- Refuses with a cause of its own. -/
def fail (defect : Defect) : Reader α := fun _ => .error defect

/-- Whether the line is used up. -/
def atEnd : Reader Bool := fun tokens => .ok (tokens.isEmpty, tokens)

/-- Takes a mark if it comes next, and says whether it did. -/
def accept (sign : Mark) : Reader Bool
  | .mark next :: rest => .ok (if next = sign then (true, rest) else (false, .mark next :: rest))
  | tokens => .ok (false, tokens)

/-- Takes a mark that must come next. -/
def expect (sign : Mark) : Reader Unit := do
  unless ← accept sign do refuse (.mark sign)

def word (expectation : Expectation) : Reader String
  | .word name :: rest => .ok (name, rest)
  | tokens => refuse expectation tokens

def valueName (expectation : Expectation) : Reader String
  | .valueName name :: rest => .ok (name, rest)
  | tokens => refuse expectation tokens

def functionName : Reader String
  | .functionName name :: rest => .ok (name, rest)
  | tokens => refuse .functionName tokens

/-- Takes a number that fits. -/
def number (expectation : Expectation) (fit? : Int → Option α) : Reader α
  | .number amount :: rest =>
      match fit? amount with
      | some value => .ok (value, rest)
      | none => .error (.badInteger (toString amount))
  | tokens => refuse expectation tokens

/-- Takes nothing and refuses a line that is not used up. -/
def finish : Reader Unit := do
  unless ← atEnd do refuse .endOfLine

/-- Reads items until the end is seen, after those already read. -/
def itemsAfter (done : Reader Bool) (item : List α → Reader α) : Nat → List α → Reader (List α)
  | 0, read => pure read
  | fuel + 1, read => do
      if ← done then
        return read
      unless read.isEmpty do
        expect .comma
      let next ← item read
      itemsAfter done item fuel (read ++ [next])

/-- Reads items with commas between them until the end is seen.  The end is
looked for before each comma.  An item may depend on the items before it. -/
def items (done : Reader Bool) (item : List α → Reader α) : Reader (List α) :=
  fun tokens => itemsAfter done item (tokens.length + 1) [] tokens

/-- Reads all of a line. -/
def readLine (reader : Reader α) (line : Line) : Except ParseError α :=
  match reader line.tokens with
  | .error defect => .error (.onLine line.number defect)
  | .ok (value, _) => .ok value

end Reader

end Workgroup.Text

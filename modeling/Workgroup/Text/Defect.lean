import Workgroup.Text.Token

/-!
Contract: why a text is refused.

A defect is the cause, free of positions; a parse error puts it on a line.
Only the end of the text inside a function has no line of its own.  All
wordings are in this module.
-/

namespace Workgroup.Text

/-- What a line should have gone on with. -/
inductive Expectation where
  | functionKeyword
  | functionName
  | argumentName
  | typeName
  | opcode
  | comparison
  | operand
  | blockLabel
  | caseValue
  | dimension
  | fact
  | endOfLine
  | mark (sign : Mark)
deriving DecidableEq, Repr

def Expectation.phrase : Expectation → String
  | .functionKeyword => "'kernel' or 'func'"
  | .functionName => "a function name"
  | .argumentName => "an argument name"
  | .typeName => "a type"
  | .opcode => "an opcode"
  | .comparison => "a comparison"
  | .operand => "a value"
  | .blockLabel => "a block label"
  | .caseValue => "a case value"
  | .dimension => "a dimension"
  | .fact => "a block label or value"
  | .endOfLine => "end of line"
  | .mark sign => (Token.mark sign).quoted

/-- The cause of a refusal. -/
inductive Defect where
  /-- A character that begins no token. -/
  | unexpectedChar (char : Char)
  /-- Something else than expected; nothing is found at the end of a line. -/
  | expected (expectation : Expectation) (found : Option Token)
  /-- A numeral that is malformed or does not fit. -/
  | badInteger (text : String)
  | unknownType (name : String)
  | unknownOpcode (name : String)
  /-- A result name in front of an instruction without result. -/
  | noResult (opcode : String)
  | undefinedValue (name : String)
  | undefinedBlock (name : String)
  /-- A second definition; names of values carry their percent sign. -/
  | redefinition (name : String)
  /-- An instruction in front of the first label. -/
  | outsideBlock
  | duplicateFunction (name : String)
deriving DecidableEq, Repr

def Defect.message : Defect → String
  | .unexpectedChar char => s!"unexpected character '{char}'"
  | .expected expectation found =>
      s!"expected {expectation.phrase}, found " ++ (found.map Token.quoted).getD "end of line"
  | .badInteger text => s!"integer literal '{text}' out of range"
  | .unknownType name => s!"unknown type '{name}'"
  | .unknownOpcode name => s!"unknown opcode '{name}'"
  | .noResult opcode => s!"'{opcode}' does not produce a value"
  | .undefinedValue name => s!"undefined value '%{name}'"
  | .undefinedBlock name => s!"undefined block '{name}'"
  | .redefinition name => s!"'{name}' is defined twice"
  | .outsideBlock => "instruction outside of a block"
  | .duplicateFunction name => s!"function '@{name}' is defined twice"

/-- The refusal of a text. -/
inductive ParseError where
  /-- A defect on a line, counted from one. -/
  | onLine (line : Nat) (defect : Defect)
  /-- The text ends before the function is closed. -/
  | unexpectedEnd (function : String)
deriving DecidableEq, Repr

namespace ParseError

def line? : ParseError → Option Nat
  | .onLine line _ => some line
  | .unexpectedEnd _ => none

def message : ParseError → String
  | .onLine line defect => s!"line {line}: " ++ defect.message
  | .unexpectedEnd function => s!"unexpected end of input in function '@{function}'"

end ParseError

end Workgroup.Text

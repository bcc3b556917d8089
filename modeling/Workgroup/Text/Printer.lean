import Workgroup.Function.Basic
import Workgroup.Text.Token
import Workgroup.Uniformity

/-!
Contract: the textual form of values, instructions, functions and modules.

Every line but one kind is a laid-out list of tokens: the exception stands for
a handle that leads nowhere and cannot be read back.

Owns:
- the names under which values are printed;
- the tokens of instructions, signatures and lists of facts;
- the lines of a function and the text of a module.
-/

namespace Workgroup

open Text (Token Mark)

def Literal.token : Literal → Token
  | .bool true => .word "true"
  | .bool false => .word "false"
  | .int value => .number value.toInt

namespace Function

/-- A result is printed under its name or else its handle, an argument under
its name or else its position, and a constant as itself. -/
def valueToken (function : Function) : Value → Token
  | .result instruction =>
      .valueName ((function.valueNames.get? instruction).getD (toString instruction))
  | .argument index =>
      .valueName ((function.arguments[index]?.map Argument.name).getD s!"arg{index}")
  | .constant literal => literal.token

def valueName (function : Function) (value : Value) : String := (function.valueToken value).spell

def blockToken (function : Function) (block : BlockId) : Token := .word (function.blockName block)

/-- The tokens of an instruction after its opcode. -/
def operandTokens (function : Function) : Instruction → List Token
  | .phi type incoming =>
      .word type.name :: Token.commaSeparated (incoming.map fun entry =>
        [.mark .openBracket, function.valueToken entry.1, .mark .comma,
          function.blockToken entry.2, .mark .closeBracket])
  | .binary _ left right => [function.valueToken left, .mark .comma, function.valueToken right]
  | .compare op left right =>
      [.word op.mnemonic, function.valueToken left, .mark .comma, function.valueToken right]
  | .select condition accept reject =>
      [function.valueToken condition, .mark .comma, function.valueToken accept, .mark .comma,
        function.valueToken reject]
  | .workItem _ dimension => [.number dimension.toNat]
  | .load pointer => [function.valueToken pointer]
  | .store pointer value =>
      [function.valueToken pointer, .mark .comma, function.valueToken value]
  | .call callee arguments =>
      [.functionName callee, .mark .openParen] ++
        Token.commaSeparated (arguments.map fun argument => [function.valueToken argument]) ++
        [.mark .closeParen]
  | .barrier => []
  | .branch target => [function.blockToken target]
  | .condBranch condition accept reject =>
      [function.valueToken condition, .mark .comma, function.blockToken accept, .mark .comma,
        function.blockToken reject]
  | .switch selector fallback cases =>
      [function.valueToken selector, .mark .comma, function.blockToken fallback,
        .mark .openBracket] ++
        Token.commaSeparated (cases.map fun entry =>
          [.number entry.1.toInt, .mark .colon, function.blockToken entry.2]) ++
        [.mark .closeBracket]
  | .ret value => (value.map function.valueToken).toList
  | .unreachable => []

/-- The tokens of an instruction line: the result, if there is one, the opcode
and the operands. -/
def instructionTokens (function : Function) (handle : InstId) (instruction : Instruction) :
    List Token :=
  (if instruction.hasResult then [function.valueToken (.result handle), .mark .equals] else []) ++
    .word instruction.opcode.mnemonic :: function.operandTokens instruction

/-- The line of a placed handle, without indentation. -/
def instructionLine (function : Function) (handle : InstId) : String :=
  match function.instructions.get? handle with
  | some instruction => Token.layout (function.instructionTokens handle instruction)
  | none => s!"<bad instruction {handle}>"

/-- The first line of a function. -/
def signatureTokens (function : Function) : List Token :=
  [.word function.kind.keyword, .functionName function.name, .mark .openParen] ++
    Token.commaSeparated (function.arguments.map fun argument =>
      [.valueName argument.name, .mark .colon, .word argument.type.name]) ++
    [.mark .closeParen, .mark .openBrace]

/-- The lines of a block: its label, then its instructions, indented. -/
def blockLines (function : Function) (block : BlockId) : List String :=
  Token.layout [function.blockToken block, .mark .colon] ::
    (function.placed block).map fun handle => "  " ++ function.instructionLine handle

/-- The lines of a function, with extra lines right after the signature. -/
def lines (function : Function) (header : List String) : List String :=
  Token.layout function.signatureTokens :: header.map ("  " ++ ·) ++
    function.blocks.handles.flatMap function.blockLines ++
    [Token.layout [.mark .closeBrace]]

/-- The text of a function; every line ends with a line break. -/
def render (function : Function) (header : List String) : String :=
  String.join ((function.lines header).map (· ++ "\n"))

/-- The tokens that list facts: blocks, then arguments, then results, each
ascending.  Constants are uniform anyway and are left out. -/
def factTokens (function : Function) (facts : Facts) : List Token :=
  facts.blocks.toList.map function.blockToken ++
    (facts.values.toList.filter fun value => !value.isConstant).map function.valueToken

/-- The line that declares facts, unless there is nothing to declare. -/
def directive? (function : Function) (facts : Facts) : Option String :=
  let listed := function.factTokens facts
  if listed.isEmpty then none
  else some (Token.layout (.word "uniform" :: Token.commaSeparated (listed.map ([·]))))

end Function

namespace Module

/-- The text of a module with extra lines per function; a blank line stands
between two functions. -/
def renderWith (module : Module) (header : FuncId → Function → List String) : String :=
  String.intercalate "\n"
    (module.functions.entries.mapIdx fun handle function => function.render (header handle function))

def render (module : Module) : String := module.renderWith fun _ _ => []

end Module

end Workgroup

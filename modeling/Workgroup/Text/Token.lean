/-!
Contract: the tokens of a line, their spelling and their layout.

A printed line is a list of tokens with a blank between two neighbours except
where punctuation closes up.  The spacing depends on the two neighbours
alone, so every line of the format is laid out by one rule.

Owns:
- punctuation marks and tokens;
- the characters of names;
- the spelling of a token and the layout of a line.
-/

namespace Workgroup.Text

/-- Punctuation. -/
inductive Mark where
  | openParen
  | closeParen
  | openBrace
  | closeBrace
  | openBracket
  | closeBracket
  | comma
  | colon
  | equals
deriving DecidableEq, Repr

namespace Mark

def all : List Mark :=
  [.openParen, .closeParen, .openBrace, .closeBrace, .openBracket, .closeBracket, .comma, .colon,
    .equals]

def char : Mark → Char
  | .openParen => '('
  | .closeParen => ')'
  | .openBrace => '\x7b'
  | .closeBrace => '\x7d'
  | .openBracket => '['
  | .closeBracket => ']'
  | .comma => ','
  | .colon => ':'
  | .equals => '='

def ofChar? (char : Char) : Option Mark := all.find? fun mark => mark.char == char

theorem ofChar?_char (mark : Mark) : ofChar? mark.char = some mark := by
  cases mark <;> decide

theorem ofChar?_eq_some_iff {char : Char} {mark : Mark} :
    ofChar? char = some mark ↔ char = mark.char := by
  refine ⟨fun found => ?_, fun same => same ▸ ofChar?_char mark⟩
  unfold ofChar? at found
  have spelled := List.find?_some found
  exact (eq_of_beq spelled).symm

/-- Marks that stand right behind what comes before them. -/
def closesUp : Mark → Bool
  | .openParen | .closeParen | .closeBracket | .comma | .colon => true
  | .openBrace | .closeBrace | .openBracket | .equals => false

/-- Marks that what follows stands right behind. -/
def opensUp : Mark → Bool
  | .openParen | .openBracket => true
  | .closeParen | .openBrace | .closeBrace | .closeBracket | .comma | .colon | .equals => false

end Mark

/-- A word of the format. -/
inductive Token where
  /-- An argument or a result, spelled with a percent sign. -/
  | valueName (name : String)
  /-- A function, spelled with an at sign. -/
  | functionName (name : String)
  /-- A keyword, opcode, type, block label or truth value. -/
  | word (name : String)
  | number (amount : Int)
  | mark (sign : Mark)
deriving DecidableEq, Repr

/-- Names consist of ASCII letters, ASCII digits, underscores and dots. -/
def isNameChar (char : Char) : Bool := char.isAlphanum || char == '_' || char == '.'

namespace Token

def spell : Token → String
  | .valueName name => "%" ++ name
  | .functionName name => "@" ++ name
  | .word name => name
  | .number amount => toString amount
  | .mark sign => sign.char.toString

/-- The spelling between single quotation marks, as messages show it. -/
def quoted (token : Token) : String := "'" ++ token.spell ++ "'"

/-- Whether nothing stands between two neighbours. -/
def adjoins : Token → Token → Bool
  | .mark left, .mark right => left.opensUp || right.closesUp
  | .mark left, _ => left.opensUp
  | _, .mark right => right.closesUp
  | _, _ => false

/-- The text of a line. -/
def layout : List Token → String
  | [] => ""
  | [last] => last.spell
  | first :: second :: rest =>
      first.spell ++ (if first.adjoins second then "" else " ") ++ layout (second :: rest)

/-- Groups of tokens with a comma between two of them. -/
def commaSeparated : List (List Token) → List Token
  | [] => []
  | [last] => last
  | first :: second :: rest => first ++ .mark .comma :: commaSeparated (second :: rest)

end Token

end Workgroup.Text

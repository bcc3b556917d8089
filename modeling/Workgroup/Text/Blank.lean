/-!
Contract: the blank characters of the textual format.

Blank is what Unicode lists under the property `White_Space`: twenty-five
characters in eight ranges and two single characters.  A carriage return and
a line break are among them.
-/

namespace Workgroup.Text

/-- Inclusive ranges of blank characters, ascending. -/
def blankRanges : List (Nat × Nat) :=
  [(0x09, 0x0d), (0x20, 0x20), (0x85, 0x85), (0xa0, 0xa0), (0x1680, 0x1680), (0x2000, 0x200a),
    (0x2028, 0x2029), (0x202f, 0x202f), (0x205f, 0x205f), (0x3000, 0x3000)]

def isBlank (char : Char) : Bool :=
  blankRanges.any fun range => range.1 ≤ char.toNat && char.toNat ≤ range.2

/-- Every character that is white space in ASCII is blank. -/
theorem isBlank_of_isWhitespace {char : Char} (white : char.isWhitespace = true) :
    isBlank char = true := by
  simp only [Char.isWhitespace, Bool.or_eq_true, decide_eq_true_eq] at white
  rcases white with ((same | same) | same) | same <;> subst same <;> decide

end Workgroup.Text

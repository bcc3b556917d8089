/-!
Contract: decimal numerals.

A numeral is a sequence of ASCII digits with at most one minus sign in front;
there is no plus sign and no separator.

Owns:
- reading a numeral;
- the numerals that a token, a constant, a case and a dimension can hold.
-/

namespace Workgroup.Text

/-- The number that a non-empty sequence of digits denotes. -/
def readNatural? (digits : List Char) : Option Nat :=
  if !digits.isEmpty && digits.all Char.isDigit then some (Nat.ofDigitChars 10 digits 0) else none

/-- The number that a numeral denotes. -/
def readInteger? : List Char → Option Int
  | '-' :: digits => (readNatural? digits).map fun magnitude => -(magnitude : Int)
  | digits => (readNatural? digits).map fun magnitude => (magnitude : Int)

/-- Numbers of a token: 64 bits with a sign. -/
def fitsToken (number : Int) : Bool :=
  Int64.minValue.toInt ≤ number && number ≤ Int64.maxValue.toInt

/-- A number of 32 bits with a sign. -/
def int32? (number : Int) : Option Int32 :=
  if Int32.minValue.toInt ≤ number && number ≤ Int32.maxValue.toInt then
    some (Int32.ofInt number)
  else none

/-- A number of 32 bits without a sign. -/
def uint32? (number : Int) : Option UInt32 :=
  if 0 ≤ number && number < (UInt32.size : Int) then some (UInt32.ofNat number.toNat) else none

end Workgroup.Text

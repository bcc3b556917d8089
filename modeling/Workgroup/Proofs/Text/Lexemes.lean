import Mathlib.Algebra.Group.Int.Defs
import Mathlib.Data.List.TakeWhile
import Workgroup.Text.Lexer

/-!
Contract: the language of the scanner, and its answer on every line.

A lexeme is a text that spells one token.  The code of a line, which is what
stands in front of the first semicolon, is read as blank characters and
lexemes, where no name and no numeral may end in front of a name character.
The scan finds such a reading of the whole code if there is one, and otherwise
stops at the first place where no lexeme can be read.

Owns:
- the characters of names;
- numerals, lexemes and the tokens they spell;
- readings of a text, and the places where none goes on;
- the answer of the scan on every line.
-/

namespace Workgroup.Text

/-! ## Characters -/

theorem toNat_of_isDigit {char : Char} (isDigit : char.isDigit = true) :
    48 ≤ char.toNat ∧ char.toNat ≤ 57 := by
  change (char.val ≥ '0'.val && char.val ≤ '9'.val) = true at isDigit
  simp only [Bool.and_eq_true, decide_eq_true_eq] at isDigit
  exact isDigit

theorem isNameChar_of_isDigit {char : Char} (isDigit : char.isDigit = true) :
    isNameChar char = true := by
  show (char.isAlpha || char.isDigit || char == '_' || char == '.') = true
  rw [isDigit, Bool.or_true]
  rfl

/-- A character of a name is neither blank nor a sign of any kind. -/
theorem isNameChar_bounds {char : Char} (isNameChar : isNameChar char = true) :
    char.toNat = 46 ∨ 48 ≤ char.toNat ∧ char.toNat ≤ 57 ∨ 65 ≤ char.toNat ∧ char.toNat ≤ 122 := by
  change (decide (char.val ≥ 'A'.val ∧ char.val ≤ 'Z'.val) ||
    (char.val ≥ 'a'.val && char.val ≤ 'z'.val) || char.isDigit || char == '_' || char == '.') =
      true at isNameChar
  simp only [Bool.or_eq_true, Bool.and_eq_true, decide_eq_true_eq, beq_iff_eq] at isNameChar
  rcases isNameChar with (((⟨lower, upper⟩ | ⟨lower, upper⟩) | isDigit) | same) | same
  · have lowerNat : 65 ≤ char.toNat := lower
    have upperNat : char.toNat ≤ 90 := upper
    omega
  · have lowerNat : 97 ≤ char.toNat := lower
    have upperNat : char.toNat ≤ 122 := upper
    omega
  · exact .inr (.inl (toNat_of_isDigit isDigit))
  · subst same
    decide
  · subst same
    decide

theorem not_isBlank_of_bounds {char : Char} (above : 33 ≤ char.toNat) (below : char.toNat ≤ 132) :
    isBlank char = false := by
  unfold isBlank blankRanges
  simp only [List.any_cons, List.any_nil, Bool.or_eq_false_iff, Bool.and_eq_false_iff,
    decide_eq_false_iff_not, Nat.not_le, and_true]
  omega

theorem ne_of_isNameChar {char sign : Char} (isNameChar : Text.isNameChar char = true)
    (notName : Text.isNameChar sign = false) : char ≠ sign := by
  intro same
  rw [same, notName] at isNameChar
  exact absurd isNameChar nofun

theorem not_isBlank_of_isNameChar {char : Char} (isNameChar : isNameChar char = true) :
    isBlank char = false := by
  have bounds := isNameChar_bounds isNameChar
  apply not_isBlank_of_bounds <;> omega

/-- A bare name begins with a character of names that is not a digit. -/
theorem begins_iff {first : Char} :
    first.isAlpha = true ∨ first = '_' ∨ first = '.' ↔
      isNameChar first = true ∧ first.isDigit = false := by
  have notDigit : first.isAlpha = true ∨ first = '_' ∨ first = '.' → first.isDigit = false := by
    rw [Bool.eq_false_iff]
    rintro begins isDigit
    have bounds := toNat_of_isDigit isDigit
    rcases begins with isAlpha | rfl | rfl
    · change (decide (first.val ≥ 'A'.val ∧ first.val ≤ 'Z'.val) ||
        (first.val ≥ 'a'.val && first.val ≤ 'z'.val)) = true at isAlpha
      simp only [Bool.or_eq_true, Bool.and_eq_true, decide_eq_true_eq] at isAlpha
      rcases isAlpha with ⟨lower, -⟩ | ⟨lower, -⟩
      · have lowerNat : 65 ≤ first.toNat := lower
        omega
      · have lowerNat : 97 ≤ first.toNat := lower
        omega
    · exact absurd bounds (by decide)
    · exact absurd bounds (by decide)
  have isNameChar_iff : isNameChar first = true ↔
      (first.isAlpha = true ∨ first.isDigit = true) ∨ first = '_' ∨ first = '.' := by
    unfold isNameChar Char.isAlphanum
    simp only [Bool.or_eq_true, beq_iff_eq, or_assoc]
  rw [isNameChar_iff]
  constructor
  · intro begins
    exact ⟨begins.imp_left .inl, notDigit begins⟩
  · rintro ⟨isName, noDigit⟩
    rw [noDigit, or_iff_left Bool.false_ne_true] at isName
    exact isName

theorem Mark.not_isNameChar (sign : Mark) : isNameChar sign.char = false := by
  cases sign <;> decide

/-! ## Numerals -/

/-- The numerals and the numbers they denote: decimal digits, with at most a
minus sign in front. -/
inductive Numeral : List Char → Int → Prop where
  | unsigned {digits : List Char} (nonempty : digits ≠ [])
      (allDigits : ∀ char ∈ digits, char.isDigit = true) :
      Numeral digits (Nat.ofDigitChars 10 digits 0)
  | negative {digits : List Char} (nonempty : digits ≠ [])
      (allDigits : ∀ char ∈ digits, char.isDigit = true) :
      Numeral ('-' :: digits) (-(Nat.ofDigitChars 10 digits 0 : Int))

theorem readNatural?_eq_some_iff {digits : List Char} {amount : Nat} :
    readNatural? digits = some amount ↔
      digits ≠ [] ∧ (∀ char ∈ digits, char.isDigit = true) ∧
        Nat.ofDigitChars 10 digits 0 = amount := by
  unfold readNatural?
  simp only [Bool.and_eq_true, Bool.not_eq_true', List.isEmpty_eq_false_iff, List.all_eq_true,
    Option.ite_none_right_eq_some, Option.some.injEq, and_assoc]

theorem readInteger?_negative (digits : List Char) :
    readInteger? ('-' :: digits) =
      (readNatural? digits).map fun magnitude : Nat => -(magnitude : Int) := by
  rw [readInteger?]
  cases readNatural? digits <;> rfl

theorem readInteger?_unsigned {digits : List Char} (unsigned : digits.head? ≠ some '-') :
    readInteger? digits = (readNatural? digits).map Int.ofNat := by
  unfold readInteger?
  split
  · exact absurd rfl unsigned
  · cases readNatural? digits <;> rfl

theorem readInteger?_eq_some_iff {text : List Char} {amount : Int} :
    readInteger? text = some amount ↔ Numeral text amount := by
  constructor
  · intro read
    by_cases signed : text.head? = some '-'
    · obtain ⟨digits, rfl⟩ := List.head?_eq_some_iff.1 signed
      rw [readInteger?_negative] at read
      obtain ⟨magnitude, isMagnitude, rfl⟩ := Option.map_eq_some_iff.1 read
      obtain ⟨nonempty, allDigits, rfl⟩ := readNatural?_eq_some_iff.1 isMagnitude
      exact .negative nonempty allDigits
    · rw [readInteger?_unsigned signed] at read
      obtain ⟨magnitude, isMagnitude, rfl⟩ := Option.map_eq_some_iff.1 read
      obtain ⟨nonempty, allDigits, rfl⟩ := readNatural?_eq_some_iff.1 isMagnitude
      exact .unsigned nonempty allDigits
  · intro numeral
    cases numeral with
    | unsigned nonempty allDigits =>
        have unsigned : text.head? ≠ some '-' := by
          intro signed
          exact absurd (allDigits '-' (List.mem_of_head? signed)) (by decide)
        rw [readInteger?_unsigned unsigned,
          readNatural?_eq_some_iff.2 ⟨nonempty, allDigits, rfl⟩]
        rfl
    | negative nonempty allDigits =>
        rw [readInteger?_negative, readNatural?_eq_some_iff.2 ⟨nonempty, allDigits, rfl⟩]
        rfl

theorem fitsToken_iff {amount : Int} :
    fitsToken amount = true ↔ -2 ^ 63 ≤ amount ∧ amount < 2 ^ 63 := by
  have least : Int64.minValue.toInt = -2 ^ 63 := rfl
  have greatest : Int64.maxValue.toInt = 2 ^ 63 - 1 := rfl
  unfold fitsToken
  rw [least, greatest, Bool.and_eq_true, decide_eq_true_eq, decide_eq_true_eq]
  omega

/-- A numeral is a minus sign or a digit, and then digits. -/
theorem Numeral.exists_cons {text : List Char} {amount : Int} (numeral : Numeral text amount) :
    ∃ first digits, text = first :: digits ∧ (first = '-' ∨ first.isDigit = true) ∧
      ∀ char ∈ digits, char.isDigit = true := by
  cases numeral with
  | unsigned nonempty allDigits =>
      obtain ⟨first, digits, rfl⟩ := List.exists_cons_of_ne_nil nonempty
      obtain ⟨firstDigit, others⟩ := List.forall_mem_cons.1 allDigits
      exact ⟨first, digits, rfl, .inr firstDigit, others⟩
  | negative _ allDigits => exact ⟨'-', _, rfl, .inl rfl, allDigits⟩

/-! ## Lexemes -/

/-- The lexemes of the format and the tokens they spell. -/
inductive Lexeme : List Char → Token → Prop where
  | valueName {name : List Char} (nonempty : name ≠ [])
      (isName : ∀ char ∈ name, isNameChar char = true) :
      Lexeme ('%' :: name) (.valueName (String.ofList name))
  | functionName {name : List Char} (nonempty : name ≠ [])
      (isName : ∀ char ∈ name, isNameChar char = true) :
      Lexeme ('@' :: name) (.functionName (String.ofList name))
  | word {first : Char} {name : List Char}
      (begins : first.isAlpha = true ∨ first = '_' ∨ first = '.')
      (isName : ∀ char ∈ name, isNameChar char = true) :
      Lexeme (first :: name) (.word (String.ofList (first :: name)))
  /-- The number fits 64 bits with a sign. -/
  | number {text : List Char} {amount : Int} (numeral : Numeral text amount)
      (lower : -2 ^ 63 ≤ amount) (upper : amount < 2 ^ 63) : Lexeme text (.number amount)
  | mark (sign : Mark) : Lexeme [sign.char] (.mark sign)

/-- Whether what follows a token cannot be taken for a part of it. -/
def Token.EndsBefore (token : Token) (rest : List Char) : Prop :=
  rest.takeWhile isNameChar = [] ∨ ∃ sign, token = .mark sign

theorem takeWhile_append_eq {name rest : List Char}
    (isNameChars : ∀ char ∈ name, isNameChar char = true)
    (ends : rest.takeWhile isNameChar = []) : (name ++ rest).takeWhile isNameChar = name := by
  rw [List.takeWhile_append_of_pos isNameChars, ends, List.append_nil]

/-- A text whose first character is not one of a name does not go on with a name. -/
theorem takeWhile_cons_eq_nil {sign : Char} (rest : List Char)
    (notName : isNameChar sign = false) : (sign :: rest).takeWhile isNameChar = [] := by
  rw [List.takeWhile_cons, notName]
  rfl

section Lexemes

variable {first : Char} {spelled more rest text : List Char} {token : Token} {defect : Defect}

/-- A lexeme begins neither with a blank character nor with a semicolon. -/
theorem Lexeme.exists_cons (spells : Lexeme spelled token) :
    ∃ first more, spelled = first :: more ∧ isBlank first = false ∧ first ≠ ';' := by
  have ofName {char : Char} (isName : isNameChar char = true) :
      isBlank char = false ∧ char ≠ ';' :=
    ⟨not_isBlank_of_isNameChar isName, ne_of_isNameChar isName (by decide)⟩
  cases spells with
  | valueName => exact ⟨'%', _, rfl, by decide, by decide⟩
  | functionName => exact ⟨'@', _, rfl, by decide, by decide⟩
  | word begins => exact ⟨_, _, rfl, ofName (begins_iff.1 begins).1⟩
  | number numeral =>
      obtain ⟨first, digits, rfl, rfl | isDigit, -⟩ := numeral.exists_cons
      · exact ⟨'-', digits, rfl, by decide, by decide⟩
      · exact ⟨first, digits, rfl, ofName (isNameChar_of_isDigit isDigit)⟩
  | mark sign => exact ⟨sign.char, [], rfl, by cases sign <;> decide, by cases sign <;> decide⟩

/-- The token at the head of a text that begins with a lexeme. -/
theorem Lexeme.lexeme_eq (spells : Lexeme (first :: more) token) (ends : token.EndsBefore rest) :
    lexeme first (more ++ rest) = .ok (token, more.length) := by
  generalize whole : first :: more = spelled at spells
  have notSigil {char : Char} (isName : isNameChar char = true) : ¬ (char = '%' ∨ char = '@') := by
    rintro (same | same)
    · exact ne_of_isNameChar isName (by decide) same
    · exact ne_of_isNameChar isName (by decide) same
  cases spells with
  | valueName nonempty isName =>
      cases whole
      unfold lexeme
      simp only [takeWhile_append_eq isName (ends.resolve_right nofun)]
      simp [nonempty]
  | functionName nonempty isName =>
      cases whole
      unfold lexeme
      simp only [takeWhile_append_eq isName (ends.resolve_right nofun)]
      simp [nonempty]
  | word begins isName =>
      cases whole
      obtain ⟨firstName, notDigit⟩ := begins_iff.1 begins
      have notNumeral : ¬ (first = '-' ∨ first.isDigit = true) := by
        rw [notDigit]
        rintro (same | isDigit)
        · exact ne_of_isNameChar firstName (by decide) same
        · exact absurd isDigit nofun
      unfold lexeme
      rw [if_neg (notSigil firstName), if_neg notNumeral, if_pos firstName,
        takeWhile_append_eq isName (ends.resolve_right nofun)]
  | @number _ amount numeral lower upper =>
      subst whole
      obtain ⟨head, digits, split, begins, allDigits⟩ := numeral.exists_cons
      cases split
      have notSign : ¬ (first = '%' ∨ first = '@') := by
        rcases begins with rfl | isDigit
        · decide
        · exact notSigil (isNameChar_of_isDigit isDigit)
      have fits : fitsToken amount = true := fitsToken_iff.2 ⟨lower, upper⟩
      unfold lexeme
      rw [if_neg notSign, if_pos begins, takeWhile_append_eq
        (fun char member => isNameChar_of_isDigit (allDigits char member))
        (ends.resolve_right nofun), readInteger?_eq_some_iff.2 numeral, Option.filter_some,
        if_pos fits]
  | mark sign =>
      cases whole
      unfold lexeme
      rw [Mark.ofChar?_char, sign.not_isNameChar]
      cases sign <;> rfl

/-- What is reported where no lexeme begins: a bad integer where a numeral is
begun, and an unexpected character anywhere else. -/
inductive Reported : List Char → Defect → Prop where
  | integer {first : Char} {text : List Char} (begins : first = '-' ∨ first.isDigit = true) :
      Reported (first :: text)
        (.badInteger (String.ofList (first :: text.takeWhile isNameChar)))
  | character {first : Char} {text : List Char} (begins : ¬ (first = '-' ∨ first.isDigit = true)) :
      Reported (first :: text) (.unexpectedChar first)

theorem Reported.unique {other : Defect} (reported : Reported text defect)
    (otherReported : Reported text other) : defect = other := by
  cases reported with
  | integer begins =>
      cases otherReported with
      | integer => rfl
      | character notNumeral => exact absurd begins notNumeral
  | character notNumeral =>
      cases otherReported with
      | integer begins => exact absurd begins notNumeral
      | character => rfl

/-- A text either begins with a lexeme that cannot be extended, which is taken, or
with something that is reported. -/
theorem lexeme_cases (first : Char) (text : List Char) :
    (∃ token more rest, lexeme first text = .ok (token, more.length) ∧ text = more ++ rest ∧
        Lexeme (first :: more) token ∧ token.EndsBefore rest) ∨
      ∃ defect, lexeme first text = .error defect ∧ Reported (first :: text) defect := by
  have isName : ∀ char ∈ text.takeWhile isNameChar, isNameChar char = true :=
    fun char member => List.mem_takeWhile_imp member
  have whole : text = text.takeWhile isNameChar ++ text.dropWhile isNameChar :=
    List.takeWhile_append_dropWhile.symm
  have ends : (text.dropWhile isNameChar).takeWhile isNameChar = [] := by
    rw [List.takeWhile_eq_nil_iff]
    intro nonempty isNameFirst
    exact absurd isNameFirst (List.dropWhile_get_zero_not _ _ nonempty)
  unfold lexeme
  dsimp only
  split
  · next sigil =>
    split
    · have notNumeral : ¬ (first = '-' ∨ first.isDigit = true) := by
        rcases sigil with rfl | rfl <;> decide
      exact .inr ⟨_, rfl, .character notNumeral⟩
    · next some =>
      have nonempty : text.takeWhile isNameChar ≠ [] :=
        fun empty => some (List.isEmpty_iff.2 empty)
      rcases sigil with rfl | rfl
      · exact .inl ⟨_, _, _, rfl, whole, .valueName nonempty isName, .inl ends⟩
      · exact .inl ⟨_, _, _, rfl, whole, .functionName nonempty isName, .inl ends⟩
  · split
    · next begins =>
      split
      · next found =>
        obtain ⟨isNumber, fits⟩ := Option.filter_eq_some_iff.1 found
        obtain ⟨lower, upper⟩ := fitsToken_iff.1 fits
        exact .inl ⟨_, _, _, rfl, whole, .number (readInteger?_eq_some_iff.1 isNumber) lower upper,
          .inl ends⟩
      · exact .inr ⟨_, rfl, .integer begins⟩
    · next notNumeral =>
      split
      · next isNameFirst =>
        have begins := begins_iff.2 ⟨isNameFirst, Bool.eq_false_iff.2 (not_or.1 notNumeral).2⟩
        exact .inl ⟨_, _, _, rfl, whole, .word begins isName, .inl ends⟩
      · split
        · next sign found =>
          cases Mark.ofChar?_eq_some_iff.1 found
          exact .inl ⟨_, [], text, rfl, rfl, .mark sign, .inr ⟨sign, rfl⟩⟩
        · exact .inr ⟨_, rfl, .character notNumeral⟩

/-- A text begins with one lexeme at most, if none may end in front of a
character that belongs to it. -/
theorem Lexeme.unique {other : List Char} {otherToken : Token} {otherRest : List Char}
    (spells : Lexeme spelled token) (ends : token.EndsBefore rest)
    (otherSpells : Lexeme other otherToken) (otherEnds : otherToken.EndsBefore otherRest)
    (same : spelled ++ rest = other ++ otherRest) :
    token = otherToken ∧ rest = otherRest := by
  obtain ⟨first, more, rfl, -⟩ := spells.exists_cons
  obtain ⟨otherFirst, otherMore, rfl, -⟩ := otherSpells.exists_cons
  rw [List.cons_append, List.cons_append] at same
  obtain ⟨rfl, sameRest⟩ := List.cons.inj same
  have read := spells.lexeme_eq ends
  rw [sameRest, otherSpells.lexeme_eq otherEnds] at read
  obtain ⟨sameToken, sameLength⟩ := Prod.mk.inj (Except.ok.inj read)
  exact ⟨sameToken.symm, (List.append_inj sameRest sameLength.symm).2⟩

/-- Nothing is read across a character that belongs to no name. -/
theorem lexeme_append {tail : List Char} (ends : tail.takeWhile isNameChar = []) :
    lexeme first (text ++ tail) = lexeme first text := by
  have sameName : (text ++ tail).takeWhile isNameChar = text.takeWhile isNameChar := by
    rw [List.takeWhile_append, ends, List.append_nil]
    split
    · next whole => exact ((List.takeWhile_prefix isNameChar).eq_of_length whole).symm
    · rfl
  unfold lexeme
  rw [sameName]

end Lexemes

/-! ## Readings -/

/-- The text is read as the tokens, up to the rest: blank characters and
lexemes, each of which ends where it cannot be extended. -/
inductive Reads : List Char → List Token → List Char → Prop where
  | done (rest : List Char) : Reads rest [] rest
  | blank {char : Char} {text : List Char} {tokens : List Token} {rest : List Char}
      (isBlank : isBlank char = true) (reads : Reads text tokens rest) :
      Reads (char :: text) tokens rest
  | lexeme {spelled text : List Char} {token : Token} {tokens : List Token} {rest : List Char}
      (spells : Lexeme spelled token) (ends : token.EndsBefore text)
      (reads : Reads text tokens rest) : Reads (spelled ++ text) (token :: tokens) rest

/-- A text goes on, but neither with a blank character nor with a lexeme. -/
structure Blocked (text : List Char) : Prop where
  nonempty : text ≠ []
  notBlank : ∀ char ∈ text.head?, isBlank char = false
  noLexeme : ∀ spelled rest token, text = spelled ++ rest → Lexeme spelled token →
    ¬ token.EndsBefore rest

/-- The place of a text that is reached by reading lexemes, that no reading goes
beyond, and at which no lexeme can be read. -/
structure FirstBlock (text place : List Char) : Prop where
  reached : ∃ tokens, Reads text tokens place
  blocked : Blocked place
  first : ∀ tokens rest, Reads text tokens rest → place <:+ rest

section Readings

variable {text rest place : List Char} {tokens others : List Token} {defect : Defect}

theorem Reads.suffix (reads : Reads text tokens rest) : rest <:+ text := by
  induction reads with
  | done => exact List.suffix_rfl
  | blank _ _ inductionHypothesis => exact inductionHypothesis.trans (List.suffix_cons _ _)
  | lexeme _ _ _ inductionHypothesis => exact inductionHypothesis.trans (List.suffix_append _ _)

/-- A reading is at its end, or goes on with a blank character or a lexeme. -/
theorem Reads.cases_head (reads : Reads text tokens rest) :
    text = rest ∨
      (∃ char more, text = char :: more ∧ isBlank char = true ∧ Reads more tokens rest) ∨
      ∃ spelled more token others, text = spelled ++ more ∧ Lexeme spelled token ∧
        token.EndsBefore more ∧ Reads more others rest := by
  cases reads with
  | done => exact .inl rfl
  | blank isBlank reads => exact .inr (.inl ⟨_, _, rfl, isBlank, reads⟩)
  | lexeme spells ends reads => exact .inr (.inr ⟨_, _, _, _, rfl, spells, ends, reads⟩)

/-- Two readings of a text take the same steps, so none passes a place at which
the other is blocked. -/
theorem Reads.suffix_of_blocked (reads : Reads text tokens place) (blocked : Blocked place)
    (other : Reads text others rest) : place <:+ rest := by
  induction reads generalizing others with
  | done place =>
      obtain rfl | ⟨char, more, rfl, isBlank, -⟩ |
        ⟨spelled, more, token, -, split, spells, ends, -⟩ := other.cases_head
      · exact List.suffix_rfl
      · exact absurd isBlank (Bool.eq_false_iff.1 (blocked.notBlank char rfl))
      · exact absurd ends (blocked.noLexeme spelled more token split spells)
  | @blank char text _ _ isBlank reads inductionHypothesis =>
      obtain rfl | ⟨_, more, split, -, otherReads⟩ | ⟨spelled, more, token, -, split, spells, -⟩ :=
        other.cases_head
      · exact reads.suffix.trans (List.suffix_cons _ _)
      · cases split
        exact inductionHypothesis blocked otherReads
      · obtain ⟨first, _, rfl, notBlank, -⟩ := spells.exists_cons
        cases split
        exact absurd isBlank (Bool.eq_false_iff.1 notBlank)
  | @lexeme spelled text token _ _ spells ends reads inductionHypothesis =>
      obtain rfl | ⟨char, more, split, isBlank, -⟩ |
        ⟨_, more, _, _, split, otherSpells, otherEnds, otherReads⟩ := other.cases_head
      · exact reads.suffix.trans (List.suffix_append _ _)
      · obtain ⟨first, _, rfl, notBlank, -⟩ := spells.exists_cons
        cases split
        exact absurd isBlank (Bool.eq_false_iff.1 notBlank)
      · obtain ⟨-, rfl⟩ := spells.unique ends otherSpells otherEnds split
        exact inductionHypothesis blocked otherReads

/-- Every text can be read to its end or to a place where no lexeme begins. -/
theorem exists_reads (text : List Char) :
    ∃ tokens rest, Reads text tokens rest ∧ (rest = [] ∨ Blocked rest) := by
  -- A lexeme takes several characters at once, so the induction is on the length.
  induction size : text.length using Nat.strong_induction_on generalizing text with
  | _ bound inductionHypothesis =>
    cases text with
    | nil => exact ⟨[], [], .done [], .inl rfl⟩
    | cons first text =>
        by_cases isBlank : isBlank first = true
        · obtain ⟨tokens, rest, reads, ends⟩ := inductionHypothesis text.length
            (size ▸ Nat.lt_succ_self _) text rfl
          exact ⟨tokens, rest, .blank isBlank reads, ends⟩
        · obtain ⟨token, more, behind, -, rfl, spells, notLonger⟩ | ⟨defect, failed, -⟩ :=
            lexeme_cases first text
          · have shorter : behind.length < bound := by
              rw [← size, List.length_cons, List.length_append]
              omega
            obtain ⟨tokens, rest, reads, ends⟩ :=
              inductionHypothesis behind.length shorter behind rfl
            exact ⟨token :: tokens, rest, .lexeme spells notLonger reads, ends⟩
          · refine ⟨[], first :: text, .done _, .inr ⟨List.cons_ne_nil _ _, ?_, ?_⟩⟩
            · rintro char ⟨⟩
              exact Bool.eq_false_iff.2 isBlank
            · intro spelled rest token split spells ends
              obtain ⟨_, more, rfl, -⟩ := spells.exists_cons
              rw [List.cons_append] at split
              obtain ⟨rfl, rfl⟩ := List.cons.inj split
              rw [spells.lexeme_eq ends] at failed
              exact absurd failed nofun

/-! ## The scan -/

/-- What stands in front of the first semicolon of a line. -/
def code (line : List Char) : List Char := line.takeWhile (· ≠ ';')

theorem not_mem_code (line : List Char) : ';' ∉ code line := by
  intro member
  have differs := List.mem_takeWhile_imp member
  exact absurd differs (by decide)

/-- What nothing is scanned in, and no name goes on with, may as well be left out. -/
theorem scan_append {tail : List Char} (ends : tail.takeWhile isNameChar = [])
    (silent : scan tail 0 = .ok []) (text : List Char) {skip : Nat} (inside : skip ≤ text.length) :
    scan (text ++ tail) skip = scan text skip := by
  induction text generalizing skip with
  | nil =>
      cases Nat.le_zero.1 inside
      exact silent
  | cons first text inductionHypothesis =>
      cases skip with
      | succ skip => exact inductionHypothesis (Nat.le_of_succ_le_succ inside)
      | zero =>
          rw [List.cons_append]
          unfold scan
          rw [inductionHypothesis (Nat.zero_le _), lexeme_append ends]
          obtain ⟨token, more, behind, taken, rfl, -⟩ | ⟨defect, failed, -⟩ :=
            lexeme_cases first text
          · have inside : more.length ≤ (more ++ behind).length := by
              rw [List.length_append]
              exact Nat.le_add_right _ _
            rw [taken]
            dsimp only
            rw [inductionHypothesis inside]
          · rw [failed]

/-- A comment is not scanned. -/
theorem scan_code (line : List Char) : scan (code line) 0 = scan line 0 := by
  have split : line = code line ++ line.dropWhile (· ≠ ';') :=
    List.takeWhile_append_dropWhile.symm
  conv => rhs; rw [split]
  symm
  cases comment : line.dropWhile (· ≠ ';') with
  | nil => rw [List.append_nil]
  | cons first tail =>
      have isSemicolon : first = ';' := by
        have stops := List.head?_dropWhile_not (· ≠ ';') line
        rw [comment] at stops
        simpa using stops
      subst isSemicolon
      exact scan_append (takeWhile_cons_eq_nil tail (by decide)) (by simp [scan]) _ (Nat.zero_le _)

/-- A blank character is not part of any token. -/
theorem scan_cons_of_isBlank {char : Char} (blank : isBlank char = true) (rest : List Char) :
    scan (char :: rest) 0 = scan rest 0 := by
  have notComment : char ≠ ';' := by
    rintro rfl
    exact absurd blank (by decide)
  rw [scan, if_neg notComment, if_pos blank]

/-- The scan goes the way of a reading. -/
theorem Reads.scan_eq (reads : Reads text tokens rest) :
    scan text 0 = (scan rest 0).map (tokens ++ ·) := by
  induction reads with
  | done rest => cases scan rest 0 <;> rfl
  | blank isBlank _ inductionHypothesis =>
      rw [scan_cons_of_isBlank isBlank, inductionHypothesis]
  | @lexeme spelled text token _ rest spells ends _ inductionHypothesis =>
      obtain ⟨first, more, rfl, notBlank, notComment⟩ := spells.exists_cons
      rw [List.cons_append, scan, if_neg notComment, if_neg (Bool.eq_false_iff.1 notBlank),
        spells.lexeme_eq ends]
      dsimp only
      rw [scan_eq_scan_drop, List.drop_left, inductionHypothesis]
      cases scan rest 0 <;> rfl

/-- The scan fails where no lexeme begins. -/
theorem Blocked.exists_scan_eq (blocked : Blocked place) (noComment : ';' ∉ place) :
    ∃ defect, scan place 0 = .error defect ∧ Reported place defect := by
  obtain ⟨first, text, rfl⟩ := List.exists_cons_of_ne_nil blocked.nonempty
  have notComment : first ≠ ';' := fun same => noComment (same ▸ List.mem_cons_self)
  obtain ⟨token, more, rest, -, rfl, spells, ends⟩ | ⟨defect, failed, reported⟩ :=
    lexeme_cases first text
  · exact absurd ends (blocked.noLexeme (first :: more) rest token rfl spells)
  · refine ⟨defect, ?_, reported⟩
    rw [scan, if_neg notComment, if_neg (Bool.eq_false_iff.1 (blocked.notBlank first rfl)), failed]

/-- The scan of a whole text that is read to its end. -/
theorem Reads.scan_eq_ok (reads : Reads text tokens []) : scan text 0 = .ok tokens := by
  rw [reads.scan_eq]
  show Except.ok (tokens ++ []) = _
  rw [List.append_nil]

theorem Reads.not_firstBlock (reads : Reads text tokens []) (block : FirstBlock text place) :
    False :=
  block.blocked.nonempty (List.suffix_nil.1 (block.first tokens [] reads))

theorem FirstBlock.unique {other : List Char} (block : FirstBlock text place)
    (otherBlock : FirstBlock text other) : place = other := by
  obtain ⟨tokens, reads⟩ := block.reached
  obtain ⟨others, otherReads⟩ := otherBlock.reached
  exact (block.first others other otherReads).eq_of_length_le
    (otherBlock.first tokens place reads).length_le

end Readings

/-- A line is read to the end of its code, or refused at the first place where no
lexeme begins. -/
theorem tokenize_cases (line : List Char) :
    (∃ tokens, tokenize line = .ok tokens ∧ Reads (code line) tokens []) ∨
      ∃ place defect, tokenize line = .error defect ∧ FirstBlock (code line) place ∧
        Reported place defect := by
  unfold tokenize
  rw [← scan_code]
  obtain ⟨tokens, rest, reads, rfl | blocked⟩ := exists_reads (code line)
  · exact .inl ⟨tokens, reads.scan_eq_ok, reads⟩
  · obtain ⟨defect, failed, reported⟩ :=
      blocked.exists_scan_eq fun member => not_mem_code line (reads.suffix.mem member)
    refine .inr ⟨rest, defect, ?_, ⟨⟨tokens, reads⟩, blocked, ?_⟩, reported⟩
    · rw [reads.scan_eq, failed]
      rfl
    · exact fun _ _ other => reads.suffix_of_blocked blocked other

/-- A line is tokenized exactly if its code is read as blank characters and
lexemes, and then into the tokens that the lexemes spell, in order.  Otherwise
it is refused, for what stands at the first place where no lexeme can be read. -/
theorem tokenize_exact (line : List Char) :
    (∀ tokens, tokenize line = .ok tokens ↔ Reads (code line) tokens []) ∧
      ∀ defect, tokenize line = .error defect ↔
        ∃ place, FirstBlock (code line) place ∧ Reported place defect := by
  obtain ⟨found, tokenized, reads⟩ | ⟨place, reason, refused, block, reported⟩ :=
    tokenize_cases line
  · rw [tokenized]
    refine ⟨fun tokens => ⟨?_, fun others => ?_⟩, fun defect => ⟨nofun, ?_⟩⟩
    · rintro ⟨⟩
      exact reads
    · rw [← others.scan_eq_ok, reads.scan_eq_ok]
    · rintro ⟨place, block, -⟩
      exact (reads.not_firstBlock block).elim
  · rw [refused]
    refine ⟨fun tokens => ⟨nofun, fun reads => ?_⟩, fun defect => ⟨?_, ?_⟩⟩
    · exact (reads.not_firstBlock block).elim
    · rintro ⟨⟩
      exact ⟨place, block, reported⟩
    · rintro ⟨other, otherBlock, otherReported⟩
      cases block.unique otherBlock
      exact congrArg Except.error (reported.unique otherReported)

example : tokenize "add %a, 12x ; sum".toList = .error (.badInteger "12x") := by rfl

end Workgroup.Text

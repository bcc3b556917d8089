import Mathlib.Data.List.Forall2
import Workgroup.Proofs.Text.Lexemes

/-!
Contract: a laid-out line is tokenized into the tokens it was laid out from.

A token is legal if its spelling is one lexeme.  Layout puts a blank between
two tokens unless one of them is a mark, so no lexeme runs into the next.

Owns:
- names, labels and legal tokens;
- the scan of a spelled token, of a layout and of an indented layout;
- whatever is scanned is legal;
- the lines of a text that is a sequence of terminated lines.
-/

namespace Workgroup.Text

/-- Whether a word is a name of the format. -/
def isName (word : String) : Bool := !word.toList.isEmpty && word.toList.all isNameChar

/-- Whether a word is a label of the format: a name that cannot be taken for a
numeral. -/
def isLabel (word : String) : Bool := isName word && !word.toList.head?.any Char.isDigit

/-- Whether the spelling of a token is read as this token. -/
def Token.isLegal : Token → Bool
  | .valueName name => isName name
  | .functionName name => isName name
  | .word name => isLabel name
  | .number amount => fitsToken amount
  | .mark _ => true

/-! ## Legal tokens -/

theorem isName_iff {word : String} :
    isName word = true ↔ word.toList ≠ [] ∧ ∀ char ∈ word.toList, isNameChar char = true := by
  unfold isName
  simp only [Bool.and_eq_true, Bool.not_eq_true', List.isEmpty_eq_false_iff, List.all_eq_true]

/-- A numeral without sign can be a name. -/
theorem isName_toString (amount : Nat) : isName (toString amount) = true := by
  rw [isName_iff]
  show (Nat.repr amount).toList ≠ [] ∧ ∀ char ∈ (Nat.repr amount).toList, isNameChar char = true
  rw [Nat.toList_repr]
  exact ⟨Nat.toDigits_ne_nil, fun char member =>
    isNameChar_of_isDigit (Nat.isDigit_of_mem_toDigits (by decide) (by decide) member)⟩

theorem isName_ofList {name : List Char} (nonempty : name ≠ [])
    (isNameChars : ∀ char ∈ name, isNameChar char = true) : isName (String.ofList name) = true := by
  rw [isName_iff, String.toList_ofList]
  exact ⟨nonempty, isNameChars⟩

theorem Token.toList_spell_mark (sign : Mark) : (Token.mark sign).spell.toList = [sign.char] := by
  show sign.char.toString.toList = [sign.char]
  rw [Char.toString_eq_singleton, String.toList_singleton]

/-- A number is spelled by a numeral that denotes it. -/
theorem numeral_toString (amount : Int) : Numeral (toString amount).toList amount := by
  have allDigits (magnitude : Nat) : ∀ char ∈ Nat.toDigits 10 magnitude, char.isDigit = true :=
    fun char member => Nat.isDigit_of_mem_toDigits (by decide) (by decide) member
  rw [Int.toString_eq_repr, Int.repr_eq_if]
  by_cases natural : 0 ≤ amount
  · have numeral := Numeral.unsigned Nat.toDigits_ne_nil (allDigits amount.toNat)
    rw [Nat.ofDigitChars_ten_toDigits, Int.toNat_of_nonneg natural] at numeral
    rw [if_pos natural, Nat.toList_repr]
    exact numeral
  · have numeral := Numeral.negative Nat.toDigits_ne_nil (allDigits (-amount).toNat)
    have magnitude : -((-amount).toNat : Int) = amount := by omega
    rw [Nat.ofDigitChars_ten_toDigits, magnitude] at numeral
    rw [if_neg natural, String.toList_append, Nat.toList_repr]
    exact numeral

/-- The spelling of a legal token is a lexeme. -/
theorem lexeme_of_isLegal {token : Token} (legal : token.isLegal = true) :
    Lexeme token.spell.toList token := by
  cases token with
  | valueName name =>
      obtain ⟨nonempty, isName⟩ := isName_iff.1 legal
      have lexeme := Lexeme.valueName nonempty isName
      rw [String.ofList_toList] at lexeme
      exact (String.toList_append : ("%" ++ name).toList = _) ▸ lexeme
  | functionName name =>
      obtain ⟨nonempty, isName⟩ := isName_iff.1 legal
      have lexeme := Lexeme.functionName nonempty isName
      rw [String.ofList_toList] at lexeme
      exact (String.toList_append : ("@" ++ name).toList = _) ▸ lexeme
  | word name =>
      obtain ⟨legalName, notDigit⟩ := Bool.and_eq_true_iff.1 legal
      obtain ⟨nonempty, isName⟩ := isName_iff.1 legalName
      obtain ⟨first, more, spelled⟩ := List.exists_cons_of_ne_nil nonempty
      rw [spelled, List.head?_cons, Option.any_some, Bool.not_eq_true'] at notDigit
      rw [spelled] at isName
      obtain ⟨isNameFirst, isNameMore⟩ := List.forall_mem_cons.1 isName
      have lexeme := Lexeme.word (begins_iff.2 ⟨isNameFirst, notDigit⟩) isNameMore
      rw [← spelled, String.ofList_toList] at lexeme
      exact lexeme
  | number amount =>
      obtain ⟨lower, upper⟩ := fitsToken_iff.1 legal
      exact .number (numeral_toString amount) lower upper
  | mark sign =>
      rw [Token.toList_spell_mark]
      exact .mark sign

/-- Whatever a lexeme spells is legal. -/
theorem Lexeme.isLegal {spelled : List Char} {token : Token} (spells : Lexeme spelled token) :
    token.isLegal = true := by
  cases spells with
  | valueName nonempty isName => exact isName_ofList nonempty isName
  | functionName nonempty isName => exact isName_ofList nonempty isName
  | @word first name begins isName =>
      obtain ⟨isNameFirst, notDigit⟩ := begins_iff.1 begins
      have named := isName_ofList (List.cons_ne_nil first name)
        (List.forall_mem_cons.2 ⟨isNameFirst, isName⟩)
      show isLabel (String.ofList (first :: name)) = true
      unfold isLabel
      rw [named, String.toList_ofList, List.head?_cons, Option.any_some, notDigit]
      rfl
  | number numeral lower upper => exact fitsToken_iff.2 ⟨lower, upper⟩
  | mark sign => rfl

/-! ## One token -/

/-- A spelled token is scanned as this token. -/
theorem scan_spell_append {token : Token} (legal : token.isLegal = true) {rest : List Char}
    (ends : token.EndsBefore rest) {tokens : List Token} (scanned : scan rest 0 = .ok tokens) :
    scan (token.spell.toList ++ rest) 0 = .ok (token :: tokens) := by
  have reads : Reads (token.spell.toList ++ rest) [token] rest :=
    .lexeme (lexeme_of_isLegal legal) ends (.done rest)
  rw [reads.scan_eq, scanned]
  rfl

/-! ## What is scanned -/

theorem Reads.isLegal {text rest : List Char} {tokens : List Token}
    (reads : Reads text tokens rest) : ∀ token ∈ tokens, token.isLegal = true := by
  induction reads with
  | done => exact fun token member => absurd member List.not_mem_nil
  | blank _ _ inductionHypothesis => exact inductionHypothesis
  | lexeme spells _ _ inductionHypothesis =>
      exact List.forall_mem_cons.2 ⟨spells.isLegal, inductionHypothesis⟩

/-- Every token of a line is legal. -/
theorem isLegal_of_tokenize {line : List Char} {tokens : List Token}
    (tokenized : tokenize line = .ok tokens) : ∀ token ∈ tokens, token.isLegal = true := by
  obtain ⟨others, same, reads⟩ | ⟨_, _, refused, -⟩ := tokenize_cases line
  · cases same.symm.trans tokenized
    exact reads.isLegal
  · exact absurd (refused.symm.trans tokenized) nofun

theorem isLegal_of_tokenizeLines {number : Nat} {texts : List (List Char)} {lines : List Line}
    (tokenized : tokenizeLines number texts = .ok lines) :
    ∀ line ∈ lines, ∀ token ∈ line.tokens, token.isLegal = true := by
  induction texts generalizing number lines with
  | nil =>
      cases tokenized
      exact fun line member => absurd member List.not_mem_nil
  | cons text texts inductionHypothesis =>
      unfold tokenizeLines at tokenized
      split at tokenized
      · exact absurd tokenized nofun
      · next tokens scanned =>
        split at tokenized
        · exact absurd tokenized nofun
        · next others rest =>
          cases tokenized
          have othersLegal := inductionHypothesis rest
          split
          · exact othersLegal
          · exact List.forall_mem_cons.2 ⟨isLegal_of_tokenize scanned, othersLegal⟩

/-! ## Lines -/

/-- Where layout puts no blank, one of the two neighbours is a mark. -/
theorem Token.endsBefore_of_adjoins {first second : Token} (adjoins : first.adjoins second = true)
    (rest : List Char) : first.EndsBefore (second.spell.toList ++ rest) := by
  cases first with
  | mark sign => exact .inr ⟨sign, rfl⟩
  | _ =>
      cases second with
      | mark sign =>
          rw [Token.toList_spell_mark]
          exact .inl (takeWhile_cons_eq_nil rest sign.not_isNameChar)
      | _ => exact absurd adjoins nofun

theorem Token.exists_layout_cons (first : Token) (rest : List Token) :
    ∃ text, (Token.layout (first :: rest)).toList = first.spell.toList ++ text := by
  cases rest with
  | nil => exact ⟨[], (List.append_nil _).symm⟩
  | cons second rest =>
      unfold Token.layout
      rw [String.toList_append, String.toList_append, List.append_assoc]
      exact ⟨_, rfl⟩

theorem scan_blank (rest : List Char) : scan (' ' :: rest) 0 = scan rest 0 :=
  scan_cons_of_isBlank (by decide) rest

/-- A layout is scanned as the tokens it was laid out from. -/
theorem scan_layout {tokens : List Token} (legal : ∀ token ∈ tokens, token.isLegal = true) :
    scan (Token.layout tokens).toList 0 = .ok tokens := by
  induction tokens with
  | nil => rfl
  | cons first rest inductionHypothesis =>
      have firstLegal := legal first List.mem_cons_self
      have scanned := inductionHypothesis fun token member =>
        legal token (List.mem_cons_of_mem first member)
      cases rest with
      | nil =>
          have ends : first.EndsBefore [] := .inl rfl
          have alone := scan_spell_append firstLegal ends scanned
          rw [List.append_nil] at alone
          exact alone
      | cons second rest =>
          unfold Token.layout
          rw [String.toList_append, String.toList_append, List.append_assoc]
          by_cases adjoins : first.adjoins second = true
          · rw [if_pos adjoins]
            obtain ⟨text, begins⟩ := Token.exists_layout_cons second rest
            apply scan_spell_append firstLegal
            · rw [begins]
              exact Token.endsBefore_of_adjoins adjoins text
            · exact scanned
          · rw [if_neg adjoins]
            apply scan_spell_append firstLegal
            · exact .inl (takeWhile_cons_eq_nil _ (by decide))
            · exact (scan_blank _).trans scanned

theorem tokenize_layout {tokens : List Token} (legal : ∀ token ∈ tokens, token.isLegal = true) :
    tokenize (Token.layout tokens).toList = .ok tokens :=
  scan_layout legal

/-- Indentation is not part of any token. -/
theorem tokenize_indented {tokens : List Token} (legal : ∀ token ∈ tokens, token.isLegal = true) :
    tokenize ("  " ++ Token.layout tokens).toList = .ok tokens := by
  rw [String.toList_append]
  show scan (' ' :: ' ' :: (Token.layout tokens).toList) 0 = _
  rw [scan_blank, scan_blank]
  exact scan_layout legal

theorem break_not_mem_spell {token : Token} (legal : token.isLegal = true) :
    '\n' ∉ token.spell.toList := by
  have notNameChar {name : List Char} (isNameChars : ∀ char ∈ name, isNameChar char = true) :
      '\n' ∉ name := fun member => absurd (isNameChars '\n' member) (by decide)
  cases token with
  | valueName name =>
      have unbroken := notNameChar (isName_iff.1 legal).2
      show '\n' ∉ ("%" ++ name).toList
      rw [String.toList_append, List.mem_append, not_or]
      exact ⟨by decide, unbroken⟩
  | functionName name =>
      have unbroken := notNameChar (isName_iff.1 legal).2
      show '\n' ∉ ("@" ++ name).toList
      rw [String.toList_append, List.mem_append, not_or]
      exact ⟨by decide, unbroken⟩
  | word name => exact notNameChar (isName_iff.1 (Bool.and_eq_true_iff.1 legal).1).2
  | number amount =>
      obtain ⟨first, digits, spelled, begins, allDigits⟩ := (numeral_toString amount).exists_cons
      show '\n' ∉ (toString amount).toList
      rw [spelled, List.mem_cons, not_or]
      constructor
      · rintro rfl
        exact absurd begins (by decide)
      · exact fun member => absurd (allDigits _ member) (by decide)
  | mark sign => cases sign <;> decide

/-- A layout fits on one line. -/
theorem break_not_mem_layout {tokens : List Token}
    (legal : ∀ token ∈ tokens, token.isLegal = true) :
    '\n' ∉ (Token.layout tokens).toList := by
  induction tokens with
  | nil => decide
  | cons first rest inductionHypothesis =>
      have firstUnbroken := break_not_mem_spell (legal first List.mem_cons_self)
      have restUnbroken := inductionHypothesis fun token member =>
        legal token (List.mem_cons_of_mem first member)
      cases rest with
      | nil => exact firstUnbroken
      | cons second rest =>
          unfold Token.layout
          rw [String.toList_append, String.toList_append, List.mem_append, List.mem_append]
          have blankUnbroken : '\n' ∉ (if first.adjoins second then "" else " ").toList := by
            split <;> decide
          exact not_or.2 ⟨not_or.2 ⟨firstUnbroken, blankUnbroken⟩, restUnbroken⟩

/-! ## Texts -/

theorem pieces_append_cons {separator : Char} {piece : List Char} (unbroken : separator ∉ piece)
    (rest : List Char) : pieces separator (piece ++ separator :: rest) =
      piece :: pieces separator rest := by
  induction piece with
  | nil =>
      rw [List.nil_append, pieces, if_pos rfl]
  | cons char piece inductionHypothesis =>
      rw [List.mem_cons, not_or] at unbroken
      rw [List.cons_append, pieces, if_neg (Ne.symm unbroken.1), inductionHypothesis unbroken.2]

/-- Terminated lines are the first lines of a text. -/
theorem splitLines_terminated {lines : List String}
    (unbroken : ∀ line ∈ lines, '\n' ∉ line.toList) (rest : List Char) :
    splitLines ((String.join (lines.map (· ++ "\n"))).toList ++ rest) =
      lines.map String.toList ++ splitLines rest := by
  induction lines with
  | nil => rfl
  | cons line lines inductionHypothesis =>
      have others := inductionHypothesis fun other member =>
        unbroken other (List.mem_cons_of_mem line member)
      unfold splitLines at others ⊢
      rw [String.toList_join] at others ⊢
      rw [List.map_cons, List.flatMap_cons, String.toList_append, List.append_assoc,
        List.append_assoc]
      exact (pieces_append_cons (unbroken line List.mem_cons_self) _).trans
        (congrArg (line.toList :: ·) others)

/-- Lines that can be tokenized are numbered, without those that have no tokens. -/
theorem exists_tokenizeLines {texts : List (List Char)} {tokenLists : List (List Token)}
    (tokenized : texts.map tokenize = tokenLists.map .ok) : ∀ number, ∃ lines,
      tokenizeLines number texts = .ok lines ∧
        lines.map Line.tokens = tokenLists.filter fun tokens => !tokens.isEmpty := by
  induction texts generalizing tokenLists with
  | nil =>
      intro number
      obtain rfl : tokenLists = [] := by simpa using tokenized.symm
      exact ⟨[], rfl, rfl⟩
  | cons text texts inductionHypothesis =>
      intro number
      cases tokenLists with
      | nil => exact absurd tokenized nofun
      | cons tokens tokenLists =>
          obtain ⟨first, others⟩ := List.cons.inj tokenized
          obtain ⟨lines, read, sameTokens⟩ := inductionHypothesis others (number + 1)
          refine ⟨if tokens.isEmpty then lines else ⟨number, tokens⟩ :: lines, ?_, ?_⟩
          · unfold tokenizeLines
            simp only [first, read]
          · rw [List.filter_cons]
            cases tokens with
            | nil => exact sameTokens
            | cons token tokens => exact congrArg ((token :: tokens) :: ·) sameTokens

/-- The line is the layout of the tokens, with or without indentation. -/
structure LaidOut (line : String) (tokens : List Token) : Prop where
  eq_or_eq : line = Token.layout tokens ∨ line = "  " ++ Token.layout tokens
  nonempty : tokens ≠ []
  legal : ∀ token ∈ tokens, token.isLegal = true

namespace LaidOut

variable {line : String} {tokens : List Token} {lines : List String}
  {tokenLists : List (List Token)}

theorem tokenize_eq (laidOut : LaidOut line tokens) : tokenize line.toList = .ok tokens := by
  rcases laidOut.eq_or_eq with same | same
  · rw [same]
    exact tokenize_layout laidOut.legal
  · rw [same]
    exact tokenize_indented laidOut.legal

theorem unbroken (laidOut : LaidOut line tokens) : '\n' ∉ line.toList := by
  have layoutUnbroken := break_not_mem_layout laidOut.legal
  rcases laidOut.eq_or_eq with same | same
  · rw [same]
    exact layoutUnbroken
  · rw [same, String.toList_append, List.mem_append, not_or]
    exact ⟨by decide, layoutUnbroken⟩

theorem unbroken_of_forall (laidOut : List.Forall₂ LaidOut lines tokenLists) :
    ∀ line ∈ lines, '\n' ∉ line.toList := by
  induction laidOut with
  | nil => exact fun line member => absurd member List.not_mem_nil
  | cons first _ inductionHypothesis =>
      exact List.forall_mem_cons.2 ⟨first.unbroken, inductionHypothesis⟩

theorem map_tokenize_of_forall (laidOut : List.Forall₂ LaidOut lines tokenLists) :
    (lines.map String.toList).map tokenize = tokenLists.map .ok := by
  induction laidOut with
  | nil => rfl
  | cons first _ inductionHypothesis =>
      rw [List.map_cons, List.map_cons, List.map_cons, first.tokenize_eq, inductionHypothesis]

theorem filter_of_forall (laidOut : List.Forall₂ LaidOut lines tokenLists) :
    (tokenLists.filter fun tokens => !tokens.isEmpty) = tokenLists := by
  rw [List.filter_eq_self]
  induction laidOut with
  | nil => exact fun tokens member => absurd member List.not_mem_nil
  | cons first _ inductionHypothesis =>
      refine List.forall_mem_cons.2 ⟨?_, inductionHypothesis⟩
      rw [List.isEmpty_eq_false_iff.2 first.nonempty]
      rfl

/-- Groups of laid-out lines with an empty line between two groups are
tokenized line by line. -/
theorem exists_tokenizeLines {groups : List (List String)}
    {tokenGroups : List (List (List Token))}
    (laidOut : List.Forall₂ (List.Forall₂ LaidOut) groups tokenGroups) : ∃ lines,
      tokenizeLines 1 (splitLines (String.intercalate "\n"
        (groups.map fun group => String.join (group.map (· ++ "\n")))).toList) = .ok lines ∧
      lines.map Line.tokens = tokenGroups.flatten := by
  suffices general : ∃ tokenLists : List (List Token),
      (splitLines (String.intercalate "\n"
        (groups.map fun group => String.join (group.map (· ++ "\n")))).toList).map tokenize =
          tokenLists.map .ok ∧
      (tokenLists.filter fun tokens => !tokens.isEmpty) = tokenGroups.flatten by
    obtain ⟨tokenLists, tokenized, kept⟩ := general
    obtain ⟨lines, read, sameTokens⟩ := Text.exists_tokenizeLines tokenized 1
    exact ⟨lines, read, sameTokens.trans kept⟩
  induction laidOut with
  | nil => exact ⟨[[]], rfl, rfl⟩
  | @cons group tokenGroup groups tokenGroups first others inductionHypothesis =>
      obtain ⟨tokenLists, tokenized, kept⟩ := inductionHypothesis
      have unbroken := unbroken_of_forall first
      have firstTokenized := map_tokenize_of_forall first
      have firstKept := filter_of_forall first
      cases others with
      | nil =>
          have split := splitLines_terminated unbroken []
          rw [List.append_nil] at split
          refine ⟨tokenGroup ++ [[]], ?_, ?_⟩
          · rw [List.map_singleton, String.intercalate_singleton, split, List.map_append,
              firstTokenized, List.map_append]
            rfl
          · rw [List.filter_append, firstKept]
            exact (List.append_nil _).trans (List.append_nil _).symm
      | cons second others =>
          refine ⟨tokenGroup ++ [] :: tokenLists, ?_, ?_⟩
          · rw [List.map_cons, List.map_cons, String.intercalate_cons_cons, String.toList_append,
              String.toList_append, List.append_assoc, splitLines_terminated unbroken,
              List.map_append, firstTokenized, List.map_append]
            exact congrArg (tokenGroup.map .ok ++ Except.ok [] :: ·) tokenized
          · rw [List.filter_append, firstKept, List.flatten_cons]
            exact congrArg (tokenGroup ++ ·) kept

end LaidOut

end Workgroup.Text

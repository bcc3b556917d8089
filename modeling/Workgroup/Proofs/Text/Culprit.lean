import Workgroup.Proofs.Text.Refusal
import Workgroup.Proofs.Text.SourceLines

/-!
Contract: an error points at the first function that offends.

A text is accepted up to the signature of this function, and whatever stands
behind the function has no influence: cut behind it, the text is refused for the
same reason.  The line of the error is one of its lines and has tokens; only the
end of the text inside the function is an error without line.

Owns:
- the lines of a function in a text;
- the reasons to refuse a function, found in its lines;
- the place of the error of every text that is refused.
-/

namespace Workgroup

open Text

/-! ## The lines of a function -/

namespace Text

/-- The tokens of a line; a line that cannot be tokenized has none. -/
def tokensOf (line : List Char) : List Token := (tokenize line).toOption.getD []

/-- Whether a line is a closing brace, blank characters and comments aside. -/
def closesBody (line : List Char) : Bool := tokensOf line == [.mark .closeBrace]

/-- The function whose body a signature line opens. -/
def opened? (signature : List Char) : Option Function :=
  match Reader.signature (tokensOf signature) with
  | .ok ((function, false), _) => some function
  | _ => none

/-- The lines behind a signature that belong to its function: none if it opens no
body, and otherwise all up to the first that closes the body, if there is one. -/
def bodyLines (signature : List Char) (later : List (List Char)) : List (List Char) :=
  if (opened? signature).isSome then later.take (later.findIdx closesBody + 1) else []

section Lines

variable {signature text closing : List Char} {texts body after later others : List (List Char)}
  {number : Nat} {line : Line} {lines : List Line} {function : Function} {closes : Bool}
  {failure : ParseError}

theorem tokensOf_eq {tokens : List Token} (tokenized : tokenize text = .ok tokens) :
    tokensOf text = tokens := by
  unfold tokensOf
  rw [tokenized]
  rfl

theorem opened?_of_readLine (isLine : tokensOf signature = line.tokens)
    (read : Reader.readLine Reader.signature line = .ok (function, closes)) :
    opened? signature = if closes then none else some function := by
  obtain ⟨rest, read⟩ := Reader.readLine_eq_ok_iff.1 read
  unfold opened?
  rw [isLine, read]
  cases closes <;> rfl

theorem opened?_of_error (isLine : tokensOf signature = line.tokens)
    (read : Reader.readLine Reader.signature line = .error failure) : opened? signature = none := by
  unfold Reader.readLine at read
  unfold opened?
  rw [isLine]
  split at read
  · next refused => rw [refused]
  · exact absurd read nofun

theorem closesBody_eq_false (tokenized : tokenizeLines number texts = .ok lines)
    (inside : ∀ line ∈ lines, line.tokens ≠ [.mark .closeBrace]) :
    ∀ text ∈ texts, closesBody text = false := by
  intro text member
  obtain ⟨tokens, isText, rfl | ⟨line, isLine, rfl⟩⟩ := exists_tokenize_of_mem tokenized member
  · rw [closesBody, tokensOf_eq isText]
    rfl
  · rw [closesBody, tokensOf_eq isText]
    exact beq_eq_false_iff_ne.2 (inside line isLine)

theorem bodyLines_closed (opens : opened? signature = some function)
    (inside : ∀ text ∈ body, closesBody text = false) (isClosing : closesBody closing = true) :
    bodyLines signature (body ++ closing :: after) = body ++ [closing] := by
  have place : (body ++ closing :: after).findIdx closesBody = body.length := by
    rw [List.findIdx_append, List.findIdx_eq_length.2 inside, if_neg (Nat.lt_irrefl _),
      List.findIdx_cons, isClosing]
    exact Nat.zero_add _
  unfold bodyLines
  rw [opens, Option.isSome_some, if_pos rfl, place, List.append_cons]
  exact List.take_left' (by rw [List.length_append]; rfl)

theorem bodyLines_unclosed (opens : opened? signature = some function)
    (inside : ∀ text ∈ later, closesBody text = false) : bodyLines signature later = later := by
  unfold bodyLines
  rw [opens, Option.isSome_some, if_pos rfl, List.findIdx_eq_length.2 inside]
  exact List.take_of_length_le (Nat.le_succ _)

/-- Where the lines of a body are closed, the lines of the text are cut. -/
theorem exists_bodyLines {body after : List Line} {closing : Line}
    (opens : opened? signature = some function)
    (tokenized : tokenizeLines number texts = .ok (body ++ closing :: after))
    (inside : ∀ line ∈ body, line.tokens ≠ [.mark .closeBrace])
    (isClosing : closing.tokens = [.mark .closeBrace]) :
    ∃ bodyTexts closingText afterTexts, texts = bodyTexts ++ closingText :: afterTexts ∧
      tokenizeLines number bodyTexts = .ok body ∧
      tokenize closingText = .ok [.mark .closeBrace] ∧
      bodyLines signature texts = bodyTexts ++ [closingText] := by
  obtain ⟨bodyTexts, closingText, afterTexts, rfl, isBody, -, isText, -, -⟩ :=
    exists_of_tokenizeLines_eq_append tokenized
  rw [isClosing] at isText
  have closes : closesBody closingText = true := by
    rw [closesBody, tokensOf_eq isText]
    rfl
  exact ⟨bodyTexts, closingText, afterTexts, rfl, isBody, isText,
    bodyLines_closed opens (closesBody_eq_false isBody inside) closes⟩

theorem mem_of_mem_bodyLines (member : text ∈ bodyLines signature later) : text ∈ later := by
  unfold bodyLines at member
  split at member
  · exact List.mem_of_mem_take member
  · exact absurd member List.not_mem_nil

end Lines

end Text

namespace Assembly.Refuses

variable {state : Assembly} {line : Line} {later : List Line} {failure : ParseError}
  {signature : List Char} {texts : List (List Char)} {number : Nat}

/-- What makes a function refused is in its own lines. -/
theorem of_bodyLines (refuses : state.Refuses line later failure)
    (isLine : tokensOf signature = line.tokens)
    (tokenized : tokenizeLines number texts = .ok later) {others : List (List Char)}
    (othersTokenized : ∀ text ∈ others, ∃ tokens, tokenize text = .ok tokens)
    (decided : failure.line? ≠ none ∨ others = []) :
    ∃ lines, tokenizeLines number (bodyLines signature texts ++ others) = .ok lines ∧
      state.Refuses line lines failure := by
  have anyLines : ∃ lines, tokenizeLines number (bodyLines signature texts ++ others) = .ok lines := by
    refine exists_tokenizeLines_of_forall number (List.forall_mem_append.2 ⟨?_, othersTokenized⟩)
    intro text member
    obtain ⟨tokens, isText, -⟩ := exists_tokenize_of_mem tokenized (mem_of_mem_bodyLines member)
    exact ⟨tokens, isText⟩
  cases refuses with
  | signature read =>
      obtain ⟨lines, isLines⟩ := anyLines
      exact ⟨lines, isLines, .signature read⟩
  | duplicate read known =>
      obtain ⟨lines, isLines⟩ := anyLines
      exact ⟨lines, isLines, .duplicate read known⟩
  | @body body _ _ _ _ read fresh inside isClosing refused =>
      obtain ⟨bodyTexts, closing, -, -, isBody, isText, isBodyLines⟩ :=
        exists_bodyLines (opened?_of_readLine isLine read) tokenized inside isClosing
      obtain ⟨otherLines, isOthers⟩ :=
        exists_tokenizeLines_of_forall (number + bodyTexts.length + 1) othersTokenized
      refine ⟨body ++ ⟨number + bodyTexts.length, [.mark .closeBrace]⟩ :: otherLines, ?_,
        .body read fresh inside rfl refused⟩
      rw [isBodyLines, ← List.append_cons]
      exact tokenizeLines_append_cons isBody rfl isText (List.cons_ne_nil _ _) isOthers
  | unclosed read fresh inside =>
      rcases decided with hasLine | rfl
      · exact absurd rfl hasLine
      · rw [bodyLines_unclosed (opened?_of_readLine isLine read)
          (closesBody_eq_false tokenized inside), List.append_nil]
        exact ⟨later, tokenized, .unclosed read fresh inside⟩

/-- The error is on a line of the function, and this line has tokens. -/
theorem exists_place (refuses : state.Refuses line later failure)
    (isLine : tokenize signature = .ok line.tokens) (nonempty : line.tokens ≠ [])
    (tokenized : tokenizeLines (line.number + 1) texts = .ok later)
    (isNumber : failure.line? = some number) :
    ∃ index text, (signature :: bodyLines signature texts)[index]? = some text ∧
      tokensOf text ≠ [] ∧ number = line.number + index := by
  have onSignature (isOn : failure.IsOn line) : ∃ index text,
      (signature :: bodyLines signature texts)[index]? = some text ∧ tokensOf text ≠ [] ∧
        number = line.number + index := by
    refine ⟨0, signature, rfl, ?_, Option.some.inj (isNumber.symm.trans isOn)⟩
    rw [tokensOf_eq isLine]
    exact nonempty
  cases refuses with
  | signature read => exact onSignature (Reader.isOn_of_readLine read)
  | duplicate read known => exact onSignature rfl
  | body read fresh inside isClosing refused =>
      obtain ⟨bodyTexts, closing, -, -, isBody, -, isBodyLines⟩ :=
        exists_bodyLines (opened?_of_readLine (tokensOf_eq isLine) read) tokenized inside isClosing
      obtain ⟨bodyLine, listed, isOn⟩ := Function.exists_isOn_of_readBody refused
      obtain ⟨front, back, rfl⟩ := List.append_of_mem listed
      obtain ⟨before, text, rest, rfl, -, isPlace, isText, hasTokens, -⟩ :=
        exists_of_tokenizeLines_eq_append isBody
      refine ⟨before.length + 1, text, ?_, ?_, ?_⟩
      · rw [isBodyLines, List.getElem?_cons_succ, List.append_assoc, List.getElem?_append_right
          (Nat.le_refl _), Nat.sub_self]
        rfl
      · rw [tokensOf_eq isText]
        exact hasTokens
      · rw [Option.some.inj (isNumber.symm.trans isOn), isPlace]
        omega
  | unclosed => exact absurd isNumber nofun

/-- The text ends inside a function exactly if its signature opens a body under a
new name and no later line closes it. -/
theorem eq_unexpectedEnd_iff (refuses : state.Refuses line later failure)
    (isLine : tokensOf signature = line.tokens)
    (tokenized : tokenizeLines number texts = .ok later) {name : String} :
    failure = .unexpectedEnd name ↔ ∃ function, opened? signature = some function ∧
      function.name = name ∧ state.program.module.functionNamed? name = none ∧
      ∀ text ∈ texts, closesBody text = false := by
  cases refuses with
  | signature read =>
      rw [opened?_of_error isLine read]
      refine ⟨fun same => ?_, nofun⟩
      have isOn := Reader.isOn_of_readLine read
      rw [same] at isOn
      exact absurd isOn nofun
  | @duplicate _ _ closes read known =>
      refine ⟨nofun, ?_⟩
      rintro ⟨function, opens, rfl, fresh, -⟩
      rw [opened?_of_readLine isLine read] at opens
      cases closes with
      | true => exact absurd opens nofun
      | false =>
          cases opens
          rw [fresh] at known
          exact absurd known nofun
  | body read fresh inside isClosing refused =>
      refine ⟨fun same => ?_, ?_⟩
      · obtain ⟨bodyLine, -, isOn⟩ := Function.exists_isOn_of_readBody refused
        rw [same] at isOn
        exact absurd isOn nofun
      · rintro ⟨function, -, -, -, allInside⟩
        obtain ⟨bodyTexts, closing, afterTexts, rfl, -, isText, -⟩ :=
          exists_bodyLines (opened?_of_readLine isLine read) tokenized inside isClosing
        have notClosing := allInside closing (List.mem_append_right _ List.mem_cons_self)
        rw [closesBody, tokensOf_eq isText] at notClosing
        exact absurd notClosing nofun
  | unclosed read fresh inside =>
      rw [opened?_of_readLine isLine read]
      refine ⟨?_, ?_⟩
      · rintro ⟨⟩
        exact ⟨_, rfl, rfl, fresh, closesBody_eq_false tokenized inside⟩
      · rintro ⟨_, ⟨⟩, rfl, -, -⟩
        rfl

end Assembly.Refuses

/-! ## Texts -/

/-- A text is refused for the function whose signature stands in front of the
later lines: the text is accepted if it is cut in front of the signature, and
refused for the same reason if it is cut behind the function. -/
structure Text.Offends (source : String) (failure : ParseError) (before : List (List Char))
    (program : Program) (signature : List Char) (later : List (List Char)) : Prop where
  lines_eq : splitLines source.toList = before ++ signature :: later
  begins : tokensOf signature ≠ []
  accepted : Program.parse (textOf before) = .ok program
  refused : Program.parse (textOf (before ++ signature :: bodyLines signature later)) =
    .error failure
  /-- Nothing behind the function has an influence. -/
  decided : failure.line? ≠ none → ∀ {others : List (List Char)},
    (∀ line ∈ others, '\n' ∉ line ∧ ∃ tokens, tokenize line = .ok tokens) →
    Program.parse (textOf (before ++ signature :: (bodyLines signature later ++ others))) =
      .error failure
  /-- The error is on a line of the function that has tokens. -/
  place : ∀ {number}, failure.line? = some number → ∃ index line,
    (signature :: bodyLines signature later)[index]? = some line ∧ tokensOf line ≠ [] ∧
      number = before.length + 1 + index
  /-- The text ends inside the function exactly if its signature is accepted, opens a
  body and has a new name, and no later line closes the body. -/
  unexpectedEnd_iff : ∀ {name}, failure = .unexpectedEnd name ↔ ∃ function,
    opened? signature = some function ∧ function.name = name ∧
      program.module.functionNamed? name = none ∧ ∀ line ∈ later, closesBody line = false

namespace Program

variable {source : String} {failure : ParseError}

section Cut

variable {before rest : List (List Char)} {signature : List Char} {earlier later : List Line}
  {line : Line} {state : Assembly} (isEarlier : tokenizeLines 1 before = .ok earlier)
  (assembled : earlier.foldlM Assembly.add .start = .ok state) (closed : state.unfinished = none)
  (unbroken : ∀ text ∈ before, '\n' ∉ text)
include isEarlier assembled closed unbroken

/-- The text of lines that leave no function open is accepted. -/
theorem parse_textOf_eq_ok : parse (textOf before) = .ok state.program := by
  rw [parse_textOf unbroken, ofTexts, isEarlier]
  show Assembly.start.readOn earlier = _
  unfold Assembly.readOn
  rw [assembled]
  exact Assembly.finish_eq_ok_iff.2 ⟨closed, rfl⟩

/-- The text of such lines and those of a function that is refused is refused. -/
theorem parse_textOf_eq_error (refuses : state.Refuses line later failure)
    (isNumber : line.number = 1 + before.length) (isLine : tokenize signature = .ok line.tokens)
    (nonempty : line.tokens ≠ []) (isLater : tokenizeLines (line.number + 1) rest = .ok later)
    (functionUnbroken : ∀ text ∈ signature :: rest, '\n' ∉ text) :
    parse (textOf (before ++ signature :: rest)) = .error failure := by
  rw [parse_textOf (List.forall_mem_append.2 ⟨unbroken, functionUnbroken⟩), ofTexts,
    tokenizeLines_append_cons isEarlier isNumber isLine nonempty isLater]
  exact (Assembly.readOn_append assembled).trans (refuses.readOn_eq closed)

end Cut

theorem exists_offends (refused : parse source = .error failure) {lines : List Line}
    (tokenized : tokenizeLines 1 (splitLines source.toList) = .ok lines) :
    ∃ before program signature later, Offends source failure before program signature later := by
  have readRefused : Assembly.start.readOn lines = .error failure := by
    rw [parse_eq, ofTexts, tokenized] at refused
    exact refused
  obtain ⟨earlier, line, later, state, rfl, assembled, closed, refuses⟩ :=
    Assembly.exists_refuses rfl readRefused
  obtain ⟨before, signature, texts, isSplit, isEarlier, isNumber, isLine, nonempty, isLater⟩ :=
    exists_of_tokenizeLines_eq_append tokenized
  have unbroken : ∀ text ∈ before ++ signature :: texts, '\n' ∉ text := by
    rw [← isSplit]
    exact fun text member => not_mem_of_mem_pieces member
  obtain ⟨beforeUnbroken, behind⟩ := List.forall_mem_append.1 unbroken
  obtain ⟨signatureUnbroken, laterUnbroken⟩ := List.forall_mem_cons.1 behind
  have stillRefused {others : List (List Char)}
      (known : ∀ text ∈ others, '\n' ∉ text ∧ ∃ tokens, tokenize text = .ok tokens)
      (decided : failure.line? ≠ none ∨ others = []) :
      parse (textOf (before ++ signature :: (bodyLines signature texts ++ others))) =
        .error failure := by
    obtain ⟨restLines, isRest, stillRefuses⟩ := refuses.of_bodyLines (tokensOf_eq isLine) isLater
      (fun text member => (known text member).2) decided
    refine parse_textOf_eq_error isEarlier assembled closed beforeUnbroken stillRefuses isNumber
      isLine nonempty isRest (List.forall_mem_cons.2 ⟨signatureUnbroken, ?_⟩)
    exact List.forall_mem_append.2 ⟨fun text member =>
      laterUnbroken text (mem_of_mem_bodyLines member), fun text member => (known text member).1⟩
  refine ⟨before, state.program, signature, texts, isSplit, ?_, ?_, ?_, ?_, ?_, ?_⟩
  · rw [tokensOf_eq isLine]
    exact nonempty
  · exact parse_textOf_eq_ok isEarlier assembled closed beforeUnbroken
  · have cut := @stillRefused [] (fun _ member => absurd member List.not_mem_nil) (.inr rfl)
    rwa [List.append_nil] at cut
  · exact fun hasLine others known => stillRefused known (.inl hasLine)
  · intro number isPlace
    obtain ⟨index, text, isText, hasTokens, same⟩ :=
      refuses.exists_place isLine nonempty isLater isPlace
    exact ⟨index, text, isText, hasTokens, by omega⟩
  · exact refuses.eq_unexpectedEnd_iff (tokensOf_eq isLine) isLater

/-- A text is refused for its first line that cannot be tokenized.  If there is
none, it is refused for the first function that offends. -/
theorem parse_error_located (refused : parse source = .error failure) :
    (∃ before line later defect, splitLines source.toList = before ++ line :: later ∧
      (∀ other ∈ before, ∃ tokens, tokenize other = .ok tokens) ∧
      tokenize line = .error defect ∧ failure = .onLine (before.length + 1) defect) ∨
    (∀ line ∈ splitLines source.toList, ∃ tokens, tokenize line = .ok tokens) ∧
      ∃ before program signature later,
        Offends source failure before program signature later := by
  cases tokenized : tokenizeLines 1 (splitLines source.toList) with
  | error other =>
      obtain ⟨before, line, later, defect, isSplit, areTokenized, isLine, rfl⟩ :=
        exists_of_tokenizeLines_eq_error tokenized
      rw [parse_eq, ofTexts, tokenized] at refused
      cases refused
      exact .inl ⟨before, line, later, defect, isSplit, areTokenized, isLine,
        congrArg (ParseError.onLine · defect) (Nat.add_comm 1 _)⟩
  | ok lines =>
      refine .inr ⟨fun line member => ?_, exists_offends refused tokenized⟩
      obtain ⟨tokens, isLine, -⟩ := exists_tokenize_of_mem tokenized member
      exact ⟨tokens, isLine⟩

end Program

namespace SecondFunction

/-- A declaration, and a function with an instruction in front of its first label. -/
def source : String := "func @h() \x7b\x7d\n\nkernel @k() \x7b\n  ret ; early\n\x7d\n"

/-- All lines can be tokenized, so the second function is the one that offends. -/
theorem source_offends :
    Program.parse source = .error (.onLine 4 .outsideBlock) ∧
      ∃ before program signature later,
        Offends source (.onLine 4 .outsideBlock) before program signature later := by
  have refused : Program.parse source = .error (.onLine 4 .outsideBlock) := rfl
  have readable : ∀ line ∈ splitLines source.toList, (tokenize line).toOption.isSome = true := by
    decide +kernel
  obtain ⟨before, line, later, defect, isSplit, -, isLine, -⟩ | ⟨-, offends⟩ :=
    Program.parse_error_located refused
  · have read := readable line (isSplit ▸ List.mem_append_right _ List.mem_cons_self)
    rw [isLine] at read
    exact absurd read nofun
  · exact ⟨refused, offends⟩

end SecondFunction

end Workgroup

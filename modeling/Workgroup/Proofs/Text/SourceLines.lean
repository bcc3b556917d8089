import Workgroup.Proofs.Text.Placement
import Workgroup.Proofs.Text.Spelling

/-!
Contract: a text as the list of its lines.

What is read from a text depends on its lines alone.  A list of lines that is
put together of two is tokenized part by part, and wherever the numbered lines
are cut in front of one of them, the lines of the text are cut there as well.

Owns:
- programs read from lines, and the text made of lines;
- tokenized lines, taken apart and put together;
- the first line that cannot be tokenized.
-/

namespace Workgroup

open Text

namespace Text

/-! ## Texts -/

/-- The text whose lines are the given ones, each with a line break behind it. -/
def textOf (lines : List (List Char)) : String :=
  String.join (lines.map fun line => String.ofList line ++ "\n")

theorem not_mem_of_mem_pieces {separator : Char} {text piece : List Char}
    (member : piece ∈ pieces separator text) : separator ∉ piece := by
  induction text generalizing piece with
  | nil =>
      rw [List.mem_singleton.1 member]
      exact List.not_mem_nil
  | cons char rest inductionHypothesis =>
      unfold pieces at member
      split at member
      · rcases List.mem_cons.1 member with same | listed
        · rw [same]
          exact List.not_mem_nil
        · exact inductionHypothesis listed
      · next differs =>
        split at member
        · next noPieces => exact absurd noPieces (pieces_ne_nil separator rest)
        · next first others isPieces =>
          rw [isPieces] at inductionHypothesis
          rcases List.mem_cons.1 member with same | listed
          · rw [same, List.mem_cons, not_or]
            exact ⟨Ne.symm differs, inductionHypothesis List.mem_cons_self⟩
          · exact inductionHypothesis (List.mem_cons_of_mem first listed)

theorem splitLines_textOf {lines : List (List Char)} (unbroken : ∀ line ∈ lines, '\n' ∉ line) :
    splitLines (textOf lines).toList = lines ++ [[]] := by
  have split := @splitLines_terminated (lines.map String.ofList)
    (List.forall_mem_map.2 fun line member => by
      rw [String.toList_ofList]
      exact unbroken line member) []
  rw [List.append_nil, List.map_map, List.map_map] at split
  unfold textOf
  refine split.trans (congrArg (· ++ [[]]) ?_)
  exact (List.map_congr_left fun line _ => String.toList_ofList).trans (List.map_id lines)

/-! ## Lines with tokens -/

section Lines

variable {number : Nat} {text : List Char} {texts : List (List Char)} {line : Line}
  {lines front back : List Line}

theorem tokenizeLines_cons : tokenizeLines number (text :: texts) =
    match tokenize text with
    | .error defect => .error (.onLine number defect)
    | .ok tokens => (tokenizeLines (number + 1) texts).map fun others =>
        if tokens.isEmpty then others else ⟨number, tokens⟩ :: others := by
  rw [tokenizeLines]
  cases tokenize text with
  | error defect => rfl
  | ok tokens => cases tokenizeLines (number + 1) texts <;> rfl

theorem tokenizeLines_cons_eq_ok_iff :
    tokenizeLines number (text :: texts) = .ok lines ↔ ∃ tokens others,
      tokenize text = .ok tokens ∧ tokenizeLines (number + 1) texts = .ok others ∧
        lines = if tokens.isEmpty then others else ⟨number, tokens⟩ :: others := by
  rw [tokenizeLines_cons]
  cases tokenize text with
  | error defect => exact ⟨nofun, fun ⟨_, _, same, _⟩ => absurd same nofun⟩
  | ok tokens =>
      cases tokenizeLines (number + 1) texts with
      | error failure => exact ⟨nofun, fun ⟨_, _, _, same, _⟩ => absurd same nofun⟩
      | ok others =>
          constructor
          · rintro ⟨⟩
            exact ⟨tokens, others, rfl, rfl, rfl⟩
          · rintro ⟨_, _, ⟨⟩, ⟨⟩, rfl⟩
            rfl

theorem tokenizeLines_append (number : Nat) (before after : List (List Char)) :
    tokenizeLines number (before ++ after) = do
      let front ← tokenizeLines number before
      let back ← tokenizeLines (number + before.length) after
      return front ++ back := by
  induction before generalizing number with
  | nil =>
      show tokenizeLines number after = tokenizeLines number after >>= fun back => .ok back
      cases tokenizeLines number after <;> rfl
  | cons text before inductionHypothesis =>
      have further := inductionHypothesis (number + 1)
      rw [Nat.add_assoc, Nat.add_comm 1] at further
      rw [List.cons_append, List.length_cons, tokenizeLines_cons, tokenizeLines_cons, further]
      cases tokenize text with
      | error defect => rfl
      | ok tokens =>
          cases tokenizeLines (number + 1) before with
          | error failure => rfl
          | ok front =>
              cases tokenizeLines (number + (before.length + 1)) after with
              | error failure => rfl
              | ok back => cases tokens <;> rfl

/-- Every line can be tokenized, and those that have tokens are listed. -/
theorem exists_tokenize_of_mem (tokenized : tokenizeLines number texts = .ok lines)
    (member : text ∈ texts) : ∃ tokens, tokenize text = .ok tokens ∧
      (tokens = [] ∨ ∃ line ∈ lines, line.tokens = tokens) := by
  induction texts generalizing number lines with
  | nil => exact absurd member List.not_mem_nil
  | cons first texts inductionHypothesis =>
      obtain ⟨tokens, others, isFirst, rest, rfl⟩ := tokenizeLines_cons_eq_ok_iff.1 tokenized
      rcases List.mem_cons.1 member with rfl | listed
      · refine ⟨tokens, isFirst, ?_⟩
        cases tokens with
        | nil => exact .inl rfl
        | cons token tokens => exact .inr ⟨_, List.mem_cons_self, rfl⟩
      · obtain ⟨found, isFound, known⟩ := inductionHypothesis rest listed
        refine ⟨found, isFound, known.imp_right ?_⟩
        rintro ⟨line, isLine, same⟩
        refine ⟨line, ?_, same⟩
        split
        · exact isLine
        · exact List.mem_cons_of_mem _ isLine

/-- Lines that can all be tokenized are tokenized together. -/
theorem exists_tokenizeLines_of_forall (number : Nat)
    (tokenized : ∀ text ∈ texts, ∃ tokens, tokenize text = .ok tokens) :
    ∃ lines, tokenizeLines number texts = .ok lines := by
  induction texts generalizing number with
  | nil => exact ⟨[], rfl⟩
  | cons text texts inductionHypothesis =>
      obtain ⟨⟨tokens, isFirst⟩, others⟩ := List.forall_mem_cons.1 tokenized
      obtain ⟨lines, rest⟩ := inductionHypothesis (number + 1) others
      exact ⟨_, tokenizeLines_cons_eq_ok_iff.2 ⟨tokens, lines, isFirst, rest, rfl⟩⟩

/-- Where the lines that have tokens are cut, the text is cut as well. -/
theorem exists_of_tokenizeLines_eq_append
    (tokenized : tokenizeLines number texts = .ok (front ++ line :: back)) :
    ∃ before text after, texts = before ++ text :: after ∧
      tokenizeLines number before = .ok front ∧ line.number = number + before.length ∧
      tokenize text = .ok line.tokens ∧ line.tokens ≠ [] ∧
      tokenizeLines (line.number + 1) after = .ok back := by
  induction texts generalizing number front with
  | nil => cases front <;> exact absurd tokenized nofun
  | cons text texts inductionHypothesis =>
      obtain ⟨tokens, others, isText, rest, split⟩ := tokenizeLines_cons_eq_ok_iff.1 tokenized
      -- The line is further down, and the first line is in front of the cut.
      have furtherDown {front' : List Line} (isOthers : others = front' ++ line :: back)
          (isFront : front = if tokens.isEmpty then front' else ⟨number, tokens⟩ :: front') :
          ∃ before text' after, text :: texts = before ++ text' :: after ∧
            tokenizeLines number before = .ok front ∧ line.number = number + before.length ∧
            tokenize text' = .ok line.tokens ∧ line.tokens ≠ [] ∧
            tokenizeLines (line.number + 1) after = .ok back := by
        obtain ⟨before, other, after, rfl, isBefore, isNumber, isLine⟩ :=
          inductionHypothesis (isOthers ▸ rest)
        refine ⟨text :: before, other, after, rfl, ?_, ?_, isLine⟩
        · exact tokenizeLines_cons_eq_ok_iff.2 ⟨tokens, front', isText, isBefore, isFront⟩
        · rw [isNumber, List.length_cons]
          omega
      cases tokens with
      | nil => exact furtherDown split.symm rfl
      | cons token tokens =>
          cases front with
          | nil =>
              obtain ⟨rfl, rfl⟩ := List.cons.inj split
              exact ⟨[], text, texts, rfl, rfl, rfl, isText, List.cons_ne_nil _ _, rest⟩
          | cons first front =>
              obtain ⟨rfl, same⟩ := List.cons.inj split
              exact furtherDown same.symm rfl

theorem tokenizeLines_append_cons {before after : List (List Char)}
    (isFront : tokenizeLines number before = .ok front)
    (isNumber : line.number = number + before.length) (isLine : tokenize text = .ok line.tokens)
    (nonempty : line.tokens ≠ []) (isBack : tokenizeLines (line.number + 1) after = .ok back) :
    tokenizeLines number (before ++ text :: after) = .ok (front ++ line :: back) := by
  rw [tokenizeLines_append, isFront]
  show tokenizeLines _ (text :: after) >>= (fun back => .ok (front ++ back)) = _
  rw [tokenizeLines_cons, isLine, ← isNumber, isBack]
  obtain ⟨number, tokens⟩ := line
  cases tokens with
  | nil => exact absurd rfl nonempty
  | cons token tokens => rfl

/-- A text that cannot be tokenized is refused for its first line that cannot. -/
theorem exists_of_tokenizeLines_eq_error {failure : ParseError}
    (refused : tokenizeLines number texts = .error failure) :
    ∃ before text after defect, texts = before ++ text :: after ∧
      (∀ other ∈ before, ∃ tokens, tokenize other = .ok tokens) ∧
      tokenize text = .error defect ∧ failure = .onLine (number + before.length) defect := by
  induction texts generalizing number with
  | nil => exact absurd refused nofun
  | cons text texts inductionHypothesis =>
      rw [tokenizeLines_cons] at refused
      cases isText : tokenize text with
      | error defect =>
          rw [isText] at refused
          cases refused
          exact ⟨[], text, texts, defect, rfl, List.forall_mem_nil _, isText, rfl⟩
      | ok tokens =>
          rw [isText] at refused
          cases rest : tokenizeLines (number + 1) texts with
          | error other =>
              rw [rest] at refused
              cases refused
              obtain ⟨before, other, after, defect, rfl, tokenized, isOther, rfl⟩ :=
                inductionHypothesis rest
              refine ⟨text :: before, other, after, defect, rfl,
                List.forall_mem_cons.2 ⟨⟨tokens, isText⟩, tokenized⟩, isOther, ?_⟩
              rw [List.length_cons, Nat.add_right_comm, Nat.add_assoc]
          | ok lines =>
              rw [rest] at refused
              cases refused

end Lines

end Text

/-! ## Programs -/

namespace Program

/-- Reads a program from its lines. -/
def ofTexts (texts : List (List Char)) : Except ParseError Program := do
  let lines ← tokenizeLines 1 texts
  ofLines lines

theorem parse_eq (source : String) : parse source = ofTexts (splitLines source.toList) := rfl

theorem parse_textOf {texts : List (List Char)} (unbroken : ∀ text ∈ texts, '\n' ∉ text) :
    parse (textOf texts) = ofTexts texts := by
  rw [parse_eq, splitLines_textOf unbroken]
  unfold ofTexts
  rw [tokenizeLines_append]
  cases tokenizeLines 1 texts with
  | error failure => rfl
  | ok lines =>
      show ofLines (lines ++ []) = ofLines lines
      rw [List.append_nil]

end Program

end Workgroup

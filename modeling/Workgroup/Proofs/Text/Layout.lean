import Workgroup.Proofs.Text.SourceLines

/-!
Contract: the layout of a text is irrelevant.

Blank characters at the ends of a line and comments are not part of any token,
and lines without tokens are left out before anything is read.  What is left
depends on the numbers of the lines in one way: an error carries the number of
the line it is on.  So a text that is laid out anew is read as the same program,
or refused for the same defect on the corresponding line.

Owns:
- lines without tokens, edits of a line and texts that are laid out anew;
- lines, errors and intermediate results whose line numbers are moved;
- reading, step by step, from moved lines.
-/

namespace Workgroup

open Text

namespace Text

/-! ## Edits -/

/-- The lines that are blank or hold a comment only. -/
inductive Vacant : List Char → Prop where
  | blank {blanks : List Char} (areBlank : ∀ char ∈ blanks, isBlank char = true) : Vacant blanks
  | comment {blanks : List Char} (areBlank : ∀ char ∈ blanks, isBlank char = true)
      (text : List Char) : Vacant (blanks ++ ';' :: text)

/-- The edits that leave the tokens of a line alone.  Blank characters may end
the line, such as a carriage return; what is added at its end may stand in front
of them. -/
inductive LineEdit : List Char → List Char → Prop where
  | comment (line text : List Char) {ending : List Char}
      (endsBlank : ∀ char ∈ ending, isBlank char = true) :
      LineEdit (line ++ ending) (line ++ (';' :: text ++ ending))
  | leading (line : List Char) {blanks : List Char}
      (areBlank : ∀ char ∈ blanks, isBlank char = true) : LineEdit line (blanks ++ line)
  | trailing (line : List Char) {blanks ending : List Char}
      (areBlank : ∀ char ∈ blanks, isBlank char = true)
      (endsBlank : ∀ char ∈ ending, isBlank char = true) :
      LineEdit (line ++ ending) (line ++ (blanks ++ ending))

/-- The number that a line gets when another one is inserted behind the first
lines, as many as `count` says. -/
def makeRoom (count number : Nat) : Nat := if number ≤ count then number else number + 1

/-- The lines of a text and what becomes of them by any number of edits, together
with the number that each of them has in the end. -/
inductive LaidOutAnew (lines : List (List Char)) : List (List Char) → (Nat → Nat) → Prop where
  | unchanged : LaidOutAnew lines lines id
  | edit {front back : List (List Char)} {line edited : List Char} {moved : Nat → Nat}
      (before : LaidOutAnew lines (front ++ line :: back) moved) (lineEdit : LineEdit line edited) :
      LaidOutAnew lines (front ++ edited :: back) moved
  | insertion {front back : List (List Char)} {line : List Char} {moved : Nat → Nat}
      (before : LaidOutAnew lines (front ++ back) moved) (vacant : Vacant line) :
      LaidOutAnew lines (front ++ line :: back) (makeRoom front.length ∘ moved)

theorem scan_blanks_append {blanks : List Char} (areBlank : ∀ char ∈ blanks, isBlank char = true)
    (text : List Char) : scan (blanks ++ text) 0 = scan text 0 := by
  induction blanks with
  | nil => rfl
  | cons char blanks inductionHypothesis =>
      obtain ⟨isBlank, others⟩ := List.forall_mem_cons.1 areBlank
      exact (scan_cons_of_isBlank isBlank _).trans (inductionHypothesis others)

section Lines

variable {line edited tail : List Char}

theorem Vacant.tokenize_eq (vacant : Vacant line) : tokenize line = .ok [] := by
  unfold tokenize
  cases vacant with
  | blank areBlank =>
      have scanned := scan_blanks_append areBlank []
      rw [List.append_nil] at scanned
      exact scanned
  | comment areBlank text =>
      rw [scan_blanks_append areBlank, scan, if_pos rfl]

/-- No name goes on in a vacant tail. -/
theorem Vacant.takeWhile_eq_nil (vacant : Vacant tail) : tail.takeWhile isNameChar = [] := by
  have ofBlank {char : Char} (blank : isBlank char = true) : isNameChar char = false := by
    rw [Bool.eq_false_iff]
    intro isName
    rw [not_isBlank_of_isNameChar isName] at blank
    exact absurd blank nofun
  cases vacant with
  | blank areBlank =>
      cases tail with
      | nil => rfl
      | cons char tail =>
          exact takeWhile_cons_eq_nil tail (ofBlank (areBlank char List.mem_cons_self))
  | @comment blanks areBlank text =>
      cases blanks with
      | nil => exact takeWhile_cons_eq_nil text (by decide)
      | cons char blanks =>
          exact takeWhile_cons_eq_nil _ (ofBlank (areBlank char List.mem_cons_self))

theorem tokenize_append_vacant (line : List Char) (vacant : Vacant tail) :
    tokenize (line ++ tail) = tokenize line :=
  scan_append vacant.takeWhile_eq_nil vacant.tokenize_eq line (Nat.zero_le _)

theorem LineEdit.tokenize_eq (lineEdit : LineEdit line edited) :
    tokenize edited = tokenize line := by
  cases lineEdit with
  | comment line text endsBlank =>
      rw [tokenize_append_vacant line (.blank endsBlank)]
      exact tokenize_append_vacant line (.comment (List.forall_mem_nil _) _)
  | leading line areBlank => exact scan_blanks_append areBlank _
  | trailing line areBlank endsBlank =>
      rw [tokenize_append_vacant line (.blank endsBlank)]
      exact tokenize_append_vacant line (.blank (List.forall_mem_append.2 ⟨areBlank, endsBlank⟩))

end Lines

/-- The number that a line has in the end is the one of a line with its tokens. -/
theorem LaidOutAnew.exists_moved {lines others : List (List Char)} {moved : Nat → Nat}
    (anew : LaidOutAnew lines others moved) {index : Nat} {line : List Char}
    (isLine : lines[index]? = some line) : ∃ place other, moved (index + 1) = place + 1 ∧
      others[place]? = some other ∧ tokenize other = tokenize line := by
  induction anew with
  | unchanged => exact ⟨index, line, rfl, isLine, rfl⟩
  | @edit front back _ edited _ _ lineEdit inductionHypothesis =>
      obtain ⟨place, other, isPlace, isOther, sameTokens⟩ := inductionHypothesis
      rcases Nat.lt_or_ge place front.length with below | behind
      · rw [List.getElem?_append_left below] at isOther
        exact ⟨place, other, isPlace, (List.getElem?_append_left below).trans isOther, sameTokens⟩
      · rw [List.getElem?_append_right behind] at isOther
        cases offset : place - front.length with
        | zero =>
            rw [offset] at isOther
            cases isOther
            refine ⟨place, edited, isPlace, ?_, lineEdit.tokenize_eq.trans sameTokens⟩
            rw [List.getElem?_append_right behind, offset]
            rfl
        | succ offset' =>
            rw [offset] at isOther
            refine ⟨place, other, isPlace, ?_, sameTokens⟩
            rw [List.getElem?_append_right behind, offset]
            exact isOther
  | @insertion front back _ _ _ _ inductionHypothesis =>
      obtain ⟨place, other, isPlace, isOther, sameTokens⟩ := inductionHypothesis
      rw [Function.comp_apply, isPlace]
      rcases Nat.lt_or_ge place front.length with below | behind
      · rw [List.getElem?_append_left below] at isOther
        exact ⟨place, other, if_pos below, (List.getElem?_append_left below).trans isOther,
          sameTokens⟩
      · rw [List.getElem?_append_right behind] at isOther
        refine ⟨place + 1, other, if_neg (Nat.not_lt.2 behind), ?_, sameTokens⟩
        rw [List.getElem?_append_right (Nat.le_succ_of_le behind), Nat.succ_sub behind]
        exact isOther

/-! ## Moved lines -/

variable {moved : Nat → Nat}

/-- The line with its number moved. -/
def Line.move (moved : Nat → Nat) (line : Line) : Line := ⟨moved line.number, line.tokens⟩

@[simp] theorem Line.move_tokens (line : Line) : (line.move moved).tokens = line.tokens := rfl

/-- The error on the line that its own is moved to. -/
def ParseError.move (moved : Nat → Nat) : ParseError → ParseError
  | .onLine line defect => .onLine (moved line) defect
  | .unexpectedEnd function => .unexpectedEnd function

section Results

variable {α β γ δ : Type}

/-- A result with its value changed, or its error moved. -/
def carry (moved : Nat → Nat) (change : α → β) : Except ParseError α → Except ParseError β
  | .error failure => .error (failure.move moved)
  | .ok value => .ok (change value)

theorem carry_id_eq (result : Except ParseError α) :
    carry moved id result = result.mapError (ParseError.move moved) := by
  cases result <;> rfl

theorem carry_unmoved (result : Except ParseError α) : carry id id result = result := by
  rcases result with (_ | _) | _ <;> rfl

theorem carry_carry {further : Nat → Nat} (result : Except ParseError α) :
    carry further id (carry moved id result) = carry (further ∘ moved) id result := by
  rcases result with (_ | _) | _ <;> rfl

theorem carry_bind {first : Except ParseError α} {next : α → Except ParseError γ}
    {movedNext : β → Except ParseError δ} {change : α → β} {last : γ → δ}
    (commutes : ∀ value, movedNext (change value) = carry moved last (next value)) :
    carry moved change first >>= movedNext = carry moved last (first >>= next) := by
  cases first with
  | error failure => rfl
  | ok value => exact commutes value

/-- A run over moved items goes through the changed states. -/
theorem foldlM_carry {step : β → α → Except ParseError β} {shift : α → α} {change : β → β}
    (commutes : ∀ state item, step (change state) (shift item) =
      carry moved change (step state item)) (items : List α) (start : β) :
    (items.map shift).foldlM step (change start) =
      carry moved change (items.foldlM step start) := by
  induction items generalizing start with
  | nil => rfl
  | cons item items inductionHypothesis =>
      rw [List.map_cons, List.foldlM_cons, List.foldlM_cons, commutes]
      exact carry_bind inductionHypothesis

/-- Items that are read one by one may be moved before. -/
theorem mapM_carry {read : α → Except ParseError β} {shift : α → α}
    (commutes : ∀ item, read (shift item) = carry moved id (read item)) (items : List α) :
    (items.map shift).mapM read = carry moved id (items.mapM read) := by
  induction items with
  | nil => rfl
  | cons item items inductionHypothesis =>
      rw [List.map_cons, List.mapM_cons, List.mapM_cons, commutes, inductionHypothesis]
      exact carry_bind fun value => carry_bind fun values => rfl

theorem readLine_move (reader : Reader α) (line : Line) :
    Reader.readLine reader (line.move moved) = carry moved id (Reader.readLine reader line) := by
  unfold Reader.readLine Line.move
  dsimp only
  cases reader line.tokens <;> rfl

end Results

theorem tokenizeLines_vacant {number : Nat} {line : List Char} {texts : List (List Char)}
    (vacant : Vacant line) : tokenizeLines number (line :: texts) =
      tokenizeLines (number + 1) texts := by
  rw [tokenizeLines_cons, vacant.tokenize_eq]
  cases tokenizeLines (number + 1) texts <;> rfl

/-- Lines that are tokenized under other numbers are the moved ones. -/
theorem tokenizeLines_move {number shift : Nat} {texts : List (List Char)}
    (isMoved : ∀ index < texts.length, moved (number + index) = number + index + shift) :
    tokenizeLines (number + shift) texts =
      carry moved (List.map (Line.move moved)) (tokenizeLines number texts) := by
  induction texts generalizing number with
  | nil => rfl
  | cons text texts inductionHypothesis =>
      have isFirst : moved number = number + shift := isMoved 0 (Nat.succ_pos _)
      have others := @inductionHypothesis (number + 1) fun index below => by
        have further := isMoved (index + 1) (Nat.succ_lt_succ below)
        rwa [← Nat.add_assoc, Nat.add_right_comm] at further
      rw [Nat.add_right_comm] at others
      rw [tokenizeLines_cons, tokenizeLines_cons, others]
      cases tokenize text with
      | error defect =>
          exact congrArg (fun line => Except.error (ParseError.onLine line defect)) isFirst.symm
      | ok tokens =>
          cases tokenizeLines (number + 1) texts with
          | error failure => rfl
          | ok lines =>
              cases tokens with
              | nil => rfl
              | cons token tokens =>
                  exact congrArg (fun line => Except.ok (Line.mk line (token :: tokens) :: _))
                    isFirst.symm

end Text

/-! ## Reading moved lines -/

variable {moved : Nat → Nat}

namespace Outline

/-- The outline with all its lines moved. -/
def move (moved : Nat → Nat) (outline : Outline) : Outline :=
  { outline with
    instructionLines := outline.instructionLines.map (Line.move moved)
    factLines := outline.factLines.map (Line.move moved) }

@[simp] theorem move_function (outline : Outline) :
    (outline.move moved).function = outline.function := rfl

@[simp] theorem move_current (outline : Outline) :
    (outline.move moved).current = outline.current := rfl

theorem addLabel_move (outline : Outline) (line : Nat) (label : String) :
    (outline.move moved).addLabel (moved line) label =
      carry moved (move moved) (outline.addLabel line label) := by
  unfold addLabel
  rw [move_function]
  split <;> rfl

theorem addInstruction_move (outline : Outline) (line : Line) :
    (outline.move moved).addInstruction (line.move moved) =
      carry moved (move moved) (outline.addInstruction line) := by
  unfold addInstruction
  rw [move_current, move_function, Line.move_tokens]
  cases outline.current with
  | none => rfl
  | some block =>
      dsimp only
      cases resultName? line.tokens with
      | none => simp [carry, move]
      | some name =>
          dsimp only
          split
          · rfl
          · simp [carry, move]

theorem add_move (outline : Outline) (line : Line) :
    (outline.move moved).add (line.move moved) =
      carry moved (move moved) (outline.add line) := by
  unfold add
  rw [Line.move_tokens]
  split
  · exact outline.addLabel_move _ _
  · split
    · simp [carry, move]
    · exact outline.addInstruction_move line
  · exact outline.addInstruction_move line

theorem complete_move (outline : Outline) :
    (outline.move moved).complete = carry moved id outline.complete := by
  unfold complete
  show (outline.instructionLines.map (Line.move moved)).mapM _ >>= _ = _
  rw [mapM_carry (readLine_move _)]
  refine carry_bind fun instructions => ?_
  show (outline.factLines.map (Line.move moved)).mapM _ >>= _ = _
  rw [mapM_carry (readLine_move _)]
  exact carry_bind fun facts => rfl

end Outline

theorem Function.readBody_move (signature : Function) (body : List Line) :
    signature.readBody (body.map (Line.move moved)) = carry moved id (signature.readBody body) := by
  unfold readBody
  have outlined : (body.map (Line.move moved)).foldlM Outline.add (Outline.start signature) =
      carry moved (Outline.move moved) (body.foldlM Outline.add (Outline.start signature)) :=
    foldlM_carry Outline.add_move body (Outline.start signature)
  rw [outlined]
  exact carry_bind Outline.complete_move

namespace Assembly

/-- The assembly with the lines of the unfinished body moved. -/
def move (moved : Nat → Nat) (assembly : Assembly) : Assembly :=
  { assembly with
    unfinished := assembly.unfinished.map fun (signature, body) =>
      (signature, body.map (Line.move moved)) }

theorem addSignature_move (assembly : Assembly) (line : Line) :
    (assembly.move moved).addSignature (line.move moved) =
      carry moved (move moved) (assembly.addSignature line) := by
  unfold addSignature
  rw [readLine_move]
  refine carry_bind fun (function, closed) => ?_
  dsimp only [id]
  show (if (assembly.program.module.functionNamed? function.name).isSome = true then _ else _) = _
  by_cases known : (assembly.program.module.functionNamed? function.name).isSome = true
  · rw [if_pos known, if_pos known]
    rfl
  · rw [if_neg known, if_neg known]
    cases closed <;> rfl

theorem add_move (assembly : Assembly) (line : Line) :
    (assembly.move moved).add (line.move moved) =
      carry moved (move moved) (assembly.add line) := by
  unfold add
  cases isUnfinished : assembly.unfinished with
  | none =>
      have closed : (assembly.move moved).unfinished = none := by
        unfold move
        rw [isUnfinished]
        rfl
      rw [closed]
      exact assembly.addSignature_move line
  | some pending =>
      obtain ⟨signature, body⟩ := pending
      have isOpen : (assembly.move moved).unfinished =
          some (signature, body.map (Line.move moved)) := by
        unfold move
        rw [isUnfinished]
        rfl
      rw [isOpen, Line.move_tokens]
      dsimp only
      split
      · rw [Function.readBody_move]
        exact carry_bind fun (function, facts) => rfl
      · simp [carry, move]

theorem finish_move (assembly : Assembly) :
    (assembly.move moved).finish = carry moved id assembly.finish := by
  unfold finish move
  cases assembly.unfinished <;> rfl

end Assembly

namespace Program

theorem ofLines_move (lines : List Line) :
    ofLines (lines.map (Line.move moved)) = carry moved id (ofLines lines) := by
  unfold ofLines
  have assembled : (lines.map (Line.move moved)).foldlM Assembly.add Assembly.start =
      carry moved (Assembly.move moved) (lines.foldlM Assembly.add Assembly.start) :=
    foldlM_carry Assembly.add_move lines Assembly.start
  rw [assembled]
  exact carry_bind Assembly.finish_move

theorem ofTexts_edit (front back : List (List Char)) {line edited : List Char}
    (lineEdit : LineEdit line edited) :
    ofTexts (front ++ edited :: back) = ofTexts (front ++ line :: back) := by
  unfold ofTexts
  rw [tokenizeLines_append, tokenizeLines_append, tokenizeLines_cons, tokenizeLines_cons,
    lineEdit.tokenize_eq]

/-- A line without tokens only moves those behind it. -/
theorem ofTexts_insertion (front back : List (List Char)) {line : List Char}
    (vacant : Vacant line) : ofTexts (front ++ line :: back) =
      carry (makeRoom front.length) id (ofTexts (front ++ back)) := by
  -- The numbers up to the insertion stay, and those behind it go up by one.
  have frontStays : tokenizeLines 1 front =
      carry (makeRoom front.length) (List.map (Line.move (makeRoom front.length)))
        (tokenizeLines 1 front) :=
    @tokenizeLines_move _ 1 0 front fun index below => if_pos (by omega)
  have backMoves : tokenizeLines (1 + front.length) (line :: back) =
      carry (makeRoom front.length) (List.map (Line.move (makeRoom front.length)))
        (tokenizeLines (1 + front.length) back) :=
    (tokenizeLines_vacant vacant).trans
      (tokenizeLines_move fun index below => if_neg (by omega))
  have tokenized : tokenizeLines 1 (front ++ line :: back) =
      carry (makeRoom front.length) (List.map (Line.move (makeRoom front.length)))
        (tokenizeLines 1 (front ++ back)) := by
    rw [tokenizeLines_append, tokenizeLines_append, backMoves]
    refine (congrArg (· >>= _) frontStays).trans (carry_bind fun first => ?_)
    exact carry_bind fun second => congrArg Except.ok List.map_append.symm
  unfold ofTexts
  rw [tokenized]
  exact carry_bind ofLines_move

/-- A text that is laid out anew is read from its lines as before. -/
theorem ofTexts_of_laidOutAnew {lines others : List (List Char)}
    (anew : LaidOutAnew lines others moved) :
    ofTexts others = (ofTexts lines).mapError (ParseError.move moved) := by
  rw [← carry_id_eq]
  induction anew with
  | unchanged => exact (carry_unmoved _).symm
  | edit _ lineEdit inductionHypothesis =>
      exact (ofTexts_edit _ _ lineEdit).trans inductionHypothesis
  | insertion _ vacant inductionHypothesis =>
      rw [ofTexts_insertion _ _ vacant, inductionHypothesis, carry_carry]

/-- Layout is irrelevant: a text to whose lines comments and blank characters are
added, and into which lines without tokens are inserted, is read as the same
program, or refused with the same error on the corresponding line. -/
theorem parse_laidOutAnew {source other : String}
    (anew : LaidOutAnew (splitLines source.toList) (splitLines other.toList) moved) :
    parse other = (parse source).mapError (ParseError.move moved) :=
  ofTexts_of_laidOutAnew anew

end Program

namespace EarlyReturn

/-- An instruction in front of the first label. -/
def source : String := "kernel @k() \x7b\n  ret\n\x7d"

/-- The same text under a heading and with a comment on the faulty line. -/
def annotated : String := "; head\nkernel @k() \x7b\n  ret; early\n\x7d"

theorem laidOutAnew : LaidOutAnew (splitLines source.toList) (splitLines annotated.toList)
    (makeRoom 0 ∘ id) := by
  have commented : LaidOutAnew (splitLines source.toList)
      (["kernel @k() \x7b".toList] ++ "  ret; early".toList :: ["\x7d".toList]) id :=
    .edit .unchanged (.comment "  ret".toList " early".toList (List.forall_mem_nil _))
  exact .insertion (show LaidOutAnew _ ([] ++ _) _ from commented)
    (.comment (List.forall_mem_nil _) " head".toList)

/-- The error moves from the second line to the third. -/
theorem annotated_refused :
    LaidOutAnew (splitLines source.toList) (splitLines annotated.toList) (makeRoom 0 ∘ id) ∧
      Program.parse source = .error (.onLine 2 .outsideBlock) ∧
      Program.parse annotated = .error (.onLine 3 .outsideBlock) := by
  have refused : Program.parse source = .error (.onLine 2 .outsideBlock) := rfl
  refine ⟨laidOutAnew, refused, ?_⟩
  rw [Program.parse_laidOutAnew laidOutAnew, refused]
  rfl

end EarlyReturn

end Workgroup

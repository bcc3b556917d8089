import Workgroup.Text.InstructionReader

/-!
Contract: what readers take from the front of a line.

A reader takes a list of tokens for a value if it reads the value and leaves
whatever follows.  Readers that look at the end of the line are described by
their answer on the whole line instead.

Owns:
- the relation between readers, tokens and values, and its composition;
- the elementary readers;
- lists of items with commas between them.
-/

namespace Workgroup.Text

theorem Token.commaSeparated_cons (group : List Token) (groups : List (List Token)) :
    Token.commaSeparated (group :: groups) =
      group ++ groups.flatMap fun other => .mark .comma :: other := by
  induction groups generalizing group with
  | nil => exact (List.append_nil group).symm
  | cons second groups inductionHypothesis =>
      rw [Token.commaSeparated, inductionHypothesis, List.flatMap_cons]
      rfl

namespace Reader

variable {α β : Type} {reader : Reader α} {next : α → Reader β} {tokens more rest : List Token}
  {value : α} {result : β}

/-- The reader reads the value from the tokens, whatever follows them. -/
def Takes (reader : Reader α) (tokens : List Token) (value : α) : Prop :=
  ∀ rest, reader (tokens ++ rest) = .ok (value, rest)

/-- One step of a reader that has succeeded. -/
theorem bind_eq (read : reader tokens = .ok (value, rest)) :
    (reader >>= next) tokens = next value rest := by
  show reader tokens >>= (fun answer => next answer.1 answer.2) = _
  rw [read]
  rfl

theorem Takes.bind_eq (takes : reader.Takes tokens value) :
    (reader >>= next) (tokens ++ rest) = next value rest :=
  Reader.bind_eq (takes rest)

theorem Takes.bind (takes : reader.Takes tokens value)
    (takesNext : (next value).Takes more result) :
    (reader >>= next).Takes (tokens ++ more) result := by
  intro rest
  rw [List.append_assoc, takes.bind_eq]
  exact takesNext rest

/-- The answer of a reader that takes a whole line. -/
theorem Takes.whole (takes : reader.Takes tokens value) : reader tokens = .ok (value, []) := by
  have read := takes []
  rw [List.append_nil] at read
  exact read

theorem Takes.return (takes : reader.Takes tokens value) (change : α → β) :
    (reader >>= fun answer => pure (change answer)).Takes tokens (change value) := by
  intro rest
  rw [takes.bind_eq]
  rfl

/-! ## Elementary readers -/

theorem takes_word (expectation : Expectation) (name : String) :
    (word expectation).Takes [.word name] name := fun _ => rfl

theorem takes_valueName (expectation : Expectation) (name : String) :
    (valueName expectation).Takes [.valueName name] name := fun _ => rfl

theorem takes_functionName (name : String) : functionName.Takes [.functionName name] name :=
  fun _ => rfl

theorem takes_number (expectation : Expectation) {fit? : Int → Option α} {amount : Int}
    (fits : fit? amount = some value) :
    (number expectation fit?).Takes [.number amount] value := by
  intro rest
  show number expectation fit? (.number amount :: rest) = _
  unfold number
  simp only [fits]

theorem accept_self (sign : Mark) (rest : List Token) :
    accept sign (.mark sign :: rest) = .ok (true, rest) := by
  show Except.ok (if sign = sign then (true, rest) else (false, .mark sign :: rest)) = _
  rw [if_pos rfl]

theorem accept_other {sign other : Mark} (different : other ≠ sign) (rest : List Token) :
    accept sign (.mark other :: rest) = .ok (false, .mark other :: rest) := by
  show Except.ok (if other = sign then (true, rest) else (false, .mark other :: rest)) = _
  rw [if_neg different]

theorem takes_expect (sign : Mark) : (expect sign).Takes [.mark sign] () := by
  intro rest
  exact bind_eq (accept_self sign rest)

theorem atEnd_nil : atEnd [] = .ok (true, []) := rfl

theorem atEnd_cons (token : Token) (rest : List Token) :
    atEnd (token :: rest) = .ok (false, token :: rest) := rfl

theorem finish_nil : finish [] = .ok ((), []) := rfl

theorem takes_scalarType (type : ScalarType) : scalarType.Takes [.word type.name] type := by
  intro rest
  unfold scalarType
  rw [(takes_word .typeName type.name).bind_eq, ScalarType.ofName?_name]
  rfl

theorem takes_comparison (op : CompareOp) : comparison.Takes [.word op.mnemonic] op := by
  intro rest
  unfold comparison
  rw [(takes_word .comparison op.mnemonic).bind_eq, CompareOp.ofMnemonic?_mnemonic]
  rfl

theorem takes_functionKind (kind : FunctionKind) :
    functionKind.Takes [.word kind.keyword] kind := by
  intro rest
  show functionKind (.word kind.keyword :: rest) = _
  unfold functionKind
  simp only [FunctionKind.ofKeyword?_keyword]

/-! ## Lists of items -/

variable {done : Reader Bool} {item : List α → Reader α} {read : List α} {fuel : Nat}

theorem itemsAfter_done (closes : done tokens = .ok (true, rest)) :
    itemsAfter done item (fuel + 1) read tokens = .ok (read, rest) := by
  unfold itemsAfter
  rw [bind_eq closes]
  rfl

theorem itemsAfter_first (goesOn : done tokens = .ok (false, tokens))
    (reads : item [] tokens = .ok (value, rest)) :
    itemsAfter done item (fuel + 1) [] tokens = itemsAfter done item fuel [value] rest := by
  rw [itemsAfter, bind_eq goesOn]
  exact bind_eq reads

theorem itemsAfter_next
    (goesOn : done (.mark .comma :: tokens) = .ok (false, .mark .comma :: tokens))
    (some : read ≠ []) (reads : item read tokens = .ok (value, rest)) :
    itemsAfter done item (fuel + 1) read (.mark .comma :: tokens) =
      itemsAfter done item fuel (read ++ [value]) rest := by
  have notEmpty : read.isEmpty = false := List.isEmpty_eq_false_iff.2 some
  rw [itemsAfter, bind_eq goesOn, if_neg Bool.false_ne_true]
  rw [notEmpty]
  exact (bind_eq (takes_expect .comma tokens)).trans (bind_eq reads)

variable {spell : β → List Token} {meaning : β → α} {closing : List Token} {entries : List β}

/-- Behind an item, each further one is read after a comma. -/
theorem itemsAfter_eq (closes : done closing = .ok (true, rest))
    (comma : ∀ after, done (.mark .comma :: after) = .ok (false, .mark .comma :: after))
    (some : read ≠ []) (enough : entries.length < fuel)
    (reads : ∀ front entry back, entries = front ++ entry :: back →
      (item (read ++ front.map meaning)).Takes (spell entry) (meaning entry)) :
    itemsAfter done item fuel read
        ((entries.flatMap fun entry => .mark .comma :: spell entry) ++ closing) =
      .ok (read ++ entries.map meaning, rest) := by
  induction entries generalizing fuel read with
  | nil =>
      obtain ⟨fuel, rfl⟩ := Nat.exists_eq_add_one.2 enough
      rw [List.map_nil, List.append_nil]
      exact itemsAfter_done closes
  | cons entry entries inductionHypothesis =>
      obtain ⟨fuel, rfl⟩ := Nat.exists_eq_add_one.2 (Nat.zero_lt_of_lt enough)
      have first := reads [] entry entries rfl
      rw [List.map_nil, List.append_nil] at first
      rw [List.flatMap_cons, List.append_assoc, List.cons_append,
        itemsAfter_next (comma _) some (first _)]
      rw [inductionHypothesis (List.append_ne_nil_of_left_ne_nil some _)
        (Nat.lt_of_succ_lt_succ enough), List.append_assoc]
      · rfl
      · intro front other back split
        rw [List.append_assoc]
        exact reads (entry :: front) other back (congrArg (entry :: ·) split)

/-- A list of items is read up to what closes it. -/
theorem items_eq (closes : done closing = .ok (true, rest))
    (comma : ∀ after, done (.mark .comma :: after) = .ok (false, .mark .comma :: after))
    (goesOn : ∀ entry ∈ entries, ∀ after,
      done (spell entry ++ after) = .ok (false, spell entry ++ after))
    (nonempty : ∀ entry ∈ entries, spell entry ≠ [])
    (reads : ∀ front entry back, entries = front ++ entry :: back →
      (item (front.map meaning)).Takes (spell entry) (meaning entry)) :
    items done item (Token.commaSeparated (entries.map spell) ++ closing) =
      .ok (entries.map meaning, rest) := by
  unfold items
  cases entries with
  | nil => exact itemsAfter_done closes
  | cons entry entries =>
      have first := reads [] entry entries rfl
      rw [List.map_cons, Token.commaSeparated_cons, List.flatMap_map, List.append_assoc,
        itemsAfter_first (goesOn entry List.mem_cons_self _) (first _)]
      apply itemsAfter_eq closes comma (List.cons_ne_nil _ _)
      · -- The first item and each comma are tokens, so the fuel lasts.
        have tokensLength : ∀ others : List β,
            others.length ≤
              (others.flatMap fun other => Token.mark .comma :: spell other).length := by
          intro others
          induction others with
          | nil => exact Nat.le_refl 0
          | cons other others inductionHypothesis =>
              rw [List.flatMap_cons, List.length_append, List.length_cons, List.length_cons]
              omega
        have firstLength := List.length_pos_iff.2 (nonempty entry List.mem_cons_self)
        have othersLength := tokensLength entries
        rw [List.length_append, List.length_append]
        omega
      · intro front other back split
        exact reads (entry :: front) other back (congrArg (entry :: ·) split)

/-- A list of items between brackets is read up to the closing bracket. -/
theorem takes_items {sign : Mark} {item : Reader α} (notComma : sign ≠ .comma)
    (goesOn : ∀ entry ∈ entries, ∃ token others, spell entry = token :: others ∧ token ≠ .mark sign)
    (reads : ∀ entry ∈ entries, item.Takes (spell entry) (meaning entry)) :
    (items (accept sign) fun _ => item).Takes
      (Token.commaSeparated (entries.map spell) ++ [.mark sign]) (entries.map meaning) := by
  intro rest
  rw [List.append_assoc]
  apply items_eq (accept_self sign rest)
  · exact fun after => accept_other (Ne.symm notComma) after
  · intro entry member after
    obtain ⟨token, others, spelled, different⟩ := goesOn entry member
    rw [spelled, List.cons_append]
    cases token with
    | mark other => exact accept_other (fun same => different (congrArg Token.mark same)) _
    | _ => rfl
  · intro entry member empty
    obtain ⟨token, others, spelled, -⟩ := goesOn entry member
    rw [spelled] at empty
    exact absurd empty (List.cons_ne_nil token others)
  · intro front entry back split
    apply reads
    rw [split]
    exact List.mem_append_right _ List.mem_cons_self

/-- A list of items up to the end of the line. -/
theorem items_atEnd_eq {item : Reader α} (nonempty : ∀ entry ∈ entries, spell entry ≠ [])
    (reads : ∀ entry ∈ entries, item.Takes (spell entry) (meaning entry)) :
    items atEnd (fun _ => item) (Token.commaSeparated (entries.map spell)) =
      .ok (entries.map meaning, []) := by
  have whole : items atEnd (fun _ => item) (Token.commaSeparated (entries.map spell) ++ []) =
      .ok (entries.map meaning, []) := by
    apply items_eq atEnd_nil
    · exact fun after => atEnd_cons (.mark .comma) after
    · intro entry member after
      obtain ⟨token, others, spelled⟩ := List.exists_cons_of_ne_nil (nonempty entry member)
      rw [spelled]
      exact atEnd_cons token (others ++ after)
    · exact nonempty
    · intro front entry back split
      apply reads
      rw [split]
      exact List.mem_append_right front List.mem_cons_self
  rw [List.append_nil] at whole
  exact whole

end Reader

end Workgroup.Text

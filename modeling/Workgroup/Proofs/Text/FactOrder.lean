import Mathlib.Data.List.Sort
import Mathlib.Data.Prod.Lex
import Workgroup.Proofs.Text.InstructionText

/-!
Contract: the line that declares facts, whatever order the facts come in.

The line is made from the blocks and the values of the facts in any order in which
they may be visited: the blocks are sorted, constants are dropped, and the other
values are sorted by a key.  The key tells any two of these values apart, though
not two constants, so what comes out of the sorting does not depend on what went
in: blocks, arguments and results, each kind ascending and each member once.

Owns:
- the visits of a set, and sorting by a key that tells the sorted values apart;
- the line made from visits;
- the line as the names of the members by kind, and its absence.
-/

namespace Workgroup

open Text (Token Mark)

/-! ## Sorting what was visited -/

/-- A list visits every member of the set once, in some order. -/
structure OrderedSet.Visits {α : Type} [Ranked α] (set : OrderedSet α) (visits : List α) :
    Prop where
  nodup : visits.Nodup
  mem_iff : ∀ value, value ∈ visits ↔ value ∈ set

theorem OrderedSet.Visits.perm {α : Type} [Ranked α] {set : OrderedSet α} {visits : List α}
    (visited : set.Visits visits) : visits.Perm set.toList :=
  (List.perm_ext_iff_of_nodup visited.nodup set.nodup_toList).2 visited.mem_iff

/-- Sorting restores an ascending list from any order if the sort tells its
members apart. -/
theorem mergeSort_eq_of_perm {α : Type} {before : α → α → Bool} {ascending shuffled : List α}
    (trans : ∀ first second third, before first second = true → before second third = true →
      before first third = true)
    (total : ∀ first second, (before first second || before second first) = true)
    (apart : ∀ first ∈ ascending, ∀ second ∈ ascending, before first second = true →
      before second first = true → first = second)
    (inOrder : ascending.Pairwise fun first second => before first second = true)
    (perm : shuffled.Perm ascending) : shuffled.mergeSort before = ascending := by
  have sorted := (List.mergeSort_perm shuffled before).trans perm
  refine List.Perm.eq_of_pairwise ?_ (List.pairwise_mergeSort trans total shuffled) inOrder sorted
  intro first second isFirst isSecond
  exact apart first (sorted.mem_iff.1 isFirst) second isSecond

theorem Ranked.precedes_nat_iff {left right : Nat} : Precedes left right ↔ left < right := by
  simp [Precedes, rank]

namespace Value

/-- The key by which values are sorted: arguments, then results, each by position.
All constants share one key. -/
def sortKey : Value → Nat ×ₗ Nat
  | .argument index => toLex (0, index)
  | .result instruction => toLex (1, instruction)
  | .constant _ => toLex (2, 0)

/-- The position of an argument among the arguments. -/
def argumentIndex? : Value → Option Nat
  | .argument index => some index
  | .result _ => none
  | .constant _ => none

/-- Whether the key of one value is not above that of the other. -/
def sortsBefore (left right : Value) : Bool := decide (left.sortKey ≤ right.sortKey)

variable {left right : Value}

theorem precedes_argument_iff {left right : Nat} :
    Ranked.Precedes (argument left) (argument right) ↔ left < right := by
  simp [Ranked.Precedes, Ranked.rank, rank]

theorem precedes_result_iff {left right : InstId} :
    Ranked.Precedes (result left) (result right) ↔ left < right := by
  simp [Ranked.Precedes, Ranked.rank, rank]

/-- The key of a value that is no constant is its rank. -/
theorem sortKey_eq_rank (noConstant : left.isConstant = false) : left.sortKey = toLex left.rank := by
  cases left with
  | constant literal => exact absurd noConstant nofun
  | _ => rfl

theorem sortsBefore_of_precedes (leftKept : left.isConstant = false)
    (rightKept : right.isConstant = false) (precedes : Ranked.Precedes left right) :
    left.sortsBefore right = true := by
  unfold sortsBefore
  rw [decide_eq_true_iff, sortKey_eq_rank leftKept, sortKey_eq_rank rightKept,
    Prod.Lex.toLex_le_toLex]
  exact precedes.imp_right fun same => ⟨same.1, Nat.le_of_lt same.2⟩

/-- Values that are no constants are told apart. -/
theorem eq_of_sortsBefore (leftKept : left.isConstant = false) (rightKept : right.isConstant = false)
    (forward : left.sortsBefore right = true) (backward : right.sortsBefore left = true) :
    left = right := by
  have sameKey : left.sortKey = right.sortKey :=
    le_antisymm (of_decide_eq_true forward) (of_decide_eq_true backward)
  rw [sortKey_eq_rank leftKept, sortKey_eq_rank rightKept] at sameKey
  exact rank_injective sameKey

end Value

/-! ## The line -/

namespace Text

namespace Token

theorem adjoins_comma (token : Token) : token.adjoins (.mark .comma) = true := by
  cases token with
  | mark sign => exact Bool.or_true _
  | _ => rfl

/-- A blank stands in front of what is no mark, unless an opening mark is before it. -/
theorem adjoins_eq_false {left right : Token}
    (notOpening : ∀ sign, left = .mark sign → sign.opensUp = false)
    (noMark : ∀ sign, right ≠ .mark sign) : left.adjoins right = false := by
  cases right with
  | mark sign => exact absurd rfl (noMark sign)
  | _ =>
      cases left with
      | mark sign => exact notOpening sign rfl
      | _ => rfl

theorem exists_commaSeparated_eq_cons (first : Token) (rest : List Token) :
    ∃ more, commaSeparated ((first :: rest).map ([·])) = first :: more :=
  ⟨_, commaSeparated_cons [first] _⟩

/-- Tokens that are no marks are laid out with a comma and a blank between two. -/
theorem layout_commaSeparated {first : Token} {rest : List Token}
    (noMark : ∀ token ∈ first :: rest, ∀ sign, token ≠ .mark sign) :
    layout (commaSeparated ((first :: rest).map ([·]))) =
      ", ".intercalate ((first :: rest).map spell) := by
  induction rest generalizing first with
  | nil =>
      rw [List.map_singleton, List.map_singleton, String.intercalate_singleton]
      rfl
  | cons second rest inductionHypothesis =>
      have later := inductionHypothesis fun token member =>
        noMark token (List.mem_cons_of_mem first member)
      have apart : (Token.mark .comma).adjoins second = false :=
        adjoins_eq_false (by rintro sign ⟨⟩; rfl) (noMark second (by simp))
      obtain ⟨more, isMore⟩ := exists_commaSeparated_eq_cons second rest
      calc layout (commaSeparated ((first :: second :: rest).map ([·])))
          = layout (first :: .mark .comma :: commaSeparated ((second :: rest).map ([·]))) := rfl
        _ = layout (first :: .mark .comma :: second :: more) := by rw [isMore]
        _ = first.spell ++ "" ++ ("," ++ " " ++ layout (second :: more)) := by
            simp only [layout, adjoins_comma, apart, if_true, Bool.false_eq_true, if_false]
            rfl
        _ = first.spell ++ ", " ++ ", ".intercalate ((second :: rest).map spell) := by
            rw [← isMore, later, String.append_empty, ← String.append_assoc]
            rfl
        _ = ", ".intercalate ((first :: second :: rest).map spell) :=
            String.intercalate_cons_cons.symm

end Token

/-- The line that declares what has the given names, if there are any. -/
def uniformLine? (names : List String) : Option String :=
  if names.isEmpty then none else some ("uniform " ++ ", ".intercalate names)

theorem uniformLine?_eq_none_iff {names : List String} : uniformLine? names = none ↔ names = [] := by
  cases names with
  | nil => exact ⟨fun _ => rfl, fun _ => rfl⟩
  | cons first rest => exact ⟨nofun, nofun⟩

theorem uniformLine?_eq_some_iff {names : List String} {line : String} :
    uniformLine? names = some line ↔
      names ≠ [] ∧ line = "uniform " ++ ", ".intercalate names := by
  cases names with
  | nil => exact ⟨nofun, fun named => absurd rfl named.1⟩
  | cons first rest =>
      exact ⟨fun made => ⟨List.cons_ne_nil first rest, (Option.some.inj made).symm⟩,
        fun named => congrArg some named.2.symm⟩

end Text

namespace Function

variable {function : Function} {facts : Facts} {blocks : List BlockId} {values : List Value}

/-- The line that declares facts, from blocks and values in the order in which
they are visited. -/
def directiveFrom? (function : Function) (blocks : List BlockId) (values : List Value) :
    Option String :=
  let sortedValues := (values.filter fun value => !value.isConstant).mergeSort Value.sortsBefore
  Text.uniformLine? (blocks.mergeSort.map function.blockName ++ sortedValues.map function.valueName)

theorem sort_blocks (visited : facts.blocks.Visits blocks) :
    blocks.mergeSort = facts.blocks.toList := by
  apply mergeSort_eq_of_perm _ _ _ _ visited.perm
  · intro first second third before after
    simp only [decide_eq_true_eq] at before after ⊢
    exact Nat.le_trans before after
  · intro first second
    simpa using Nat.le_total first second
  · intro first _ second _ before after
    exact Nat.le_antisymm (of_decide_eq_true before) (of_decide_eq_true after)
  · refine facts.blocks.ascending.imp fun {first second} precedes => ?_
    exact decide_eq_true (Nat.le_of_lt (Ranked.precedes_nat_iff.1 precedes))

theorem sort_values (visited : facts.values.Visits values) :
    (values.filter fun value => !value.isConstant).mergeSort Value.sortsBefore =
      facts.values.toList.filter fun value => !value.isConstant := by
  have kept {value : Value}
      (member : value ∈ facts.values.toList.filter fun value => !value.isConstant) :
      value.isConstant = false := by
    simpa using (List.mem_filter.1 member).2
  apply mergeSort_eq_of_perm _ _ _ _ (visited.perm.filter _)
  · intro first second third before after
    exact decide_eq_true (le_trans (of_decide_eq_true before) (of_decide_eq_true after))
  · intro first second
    unfold Value.sortsBefore
    simpa using le_total first.sortKey second.sortKey
  · intro first isFirst second isSecond
    exact Value.eq_of_sortsBefore (kept isFirst) (kept isSecond)
  · refine (facts.values.ascending.filter _).imp_of_mem fun isFirst isSecond precedes => ?_
    exact Value.sortsBefore_of_precedes (kept isFirst) (kept isSecond) precedes

/-- No fact is listed by a mark. -/
theorem factTokens_ne_mark (function : Function) (facts : Facts) :
    ∀ token ∈ function.factTokens facts, ∀ sign, token ≠ .mark sign := by
  unfold factTokens
  intro token member sign
  rcases List.mem_append.1 member with isBlock | isValue
  · obtain ⟨block, -, rfl⟩ := List.mem_map.1 isBlock
    exact nofun
  · obtain ⟨value, -, rfl⟩ := List.mem_map.1 isValue
    exact function.valueToken_ne_mark value sign

/-- The laid-out tokens of the line are the names with commas between them. -/
theorem directive?_eq (function : Function) (facts : Facts) :
    function.directive? facts = Text.uniformLine? ((function.factTokens facts).map Token.spell) := by
  have noMark := function.factTokens_ne_mark facts
  unfold directive?
  cases listed : function.factTokens facts with
  | nil => rfl
  | cons first rest =>
      rw [listed] at noMark
      obtain ⟨more, isMore⟩ := Token.exists_commaSeparated_eq_cons first rest
      have apart : (Token.word "uniform").adjoins first = false :=
        Token.adjoins_eq_false nofun (noMark first List.mem_cons_self)
      have laidOut : Token.layout (.word "uniform" ::
          Token.commaSeparated ((first :: rest).map ([·]))) =
            "uniform " ++ ", ".intercalate ((first :: rest).map Token.spell) := by
        rw [← Token.layout_commaSeparated noMark, isMore]
        simp only [Token.layout, apart, Bool.false_eq_true, if_false]
        rfl
      exact congrArg some laidOut

/-- The line does not depend on the order of the visits. -/
theorem directiveFrom?_eq (blocksVisited : facts.blocks.Visits blocks)
    (valuesVisited : facts.values.Visits values) :
    function.directiveFrom? blocks values = function.directive? facts := by
  rw [directive?_eq]
  unfold directiveFrom? factTokens
  rw [sort_blocks blocksVisited, sort_values valuesVisited, List.map_append, List.map_map,
    List.map_map]
  rfl

theorem directive?_eq_none_iff : function.directive? facts = none ↔
    (∀ block, block ∉ facts.blocks) ∧ ∀ value ∈ facts.values, value.isConstant = true := by
  rw [directive?_eq, Text.uniformLine?_eq_none_iff, List.map_eq_nil_iff]
  unfold factTokens
  rw [List.append_eq_nil_iff, List.map_eq_nil_iff, List.map_eq_nil_iff,
    List.eq_nil_iff_forall_not_mem, List.filter_eq_nil_iff]
  simp only [Bool.not_eq_true', Bool.not_eq_false]
  rfl

end Function

/-! ## The listing by kind -/

/-- The members of facts that are declared, by kind and in ascending order. -/
structure Facts.ListedAs (facts : Facts) (blocks : List BlockId) (arguments : List Nat)
    (results : List InstId) : Prop where
  blocks_ascending : blocks.Pairwise (· < ·)
  mem_blocks : ∀ block, block ∈ blocks ↔ block ∈ facts.blocks
  arguments_ascending : arguments.Pairwise (· < ·)
  mem_arguments : ∀ index, index ∈ arguments ↔ .argument index ∈ facts.values
  results_ascending : results.Pairwise (· < ·)
  mem_results : ∀ instruction, instruction ∈ results ↔ .result instruction ∈ facts.values

theorem Value.argumentIndex?_eq_some_iff {value : Value} {index : Nat} :
    value.argumentIndex? = some index ↔ value = .argument index := by
  cases value <;> simp [argumentIndex?]

theorem Value.definition?_eq_some_iff {value : Value} {instruction : InstId} :
    value.definition? = some instruction ↔ value = .result instruction := by
  cases value <;> simp [definition?]

/-- The numbers of the values of one kind ascend if they number the values in
their order. -/
theorem OrderedSet.pairwise_filterMap {set : OrderedSet Value} {number? : Value → Option Nat}
    (ascends : ∀ {left right first second}, Ranked.Precedes left right →
      number? left = some first → number? right = some second → first < second) :
    (set.toList.filterMap number?).Pairwise (· < ·) :=
  set.ascending.filterMap number? fun _ _ precedes _ isFirst _ isSecond =>
    ascends precedes isFirst isSecond

theorem Facts.listedAs (facts : Facts) : facts.ListedAs facts.blocks.toList
    (facts.values.toList.filterMap Value.argumentIndex?)
    (facts.values.toList.filterMap Value.definition?) where
  blocks_ascending := facts.blocks.ascending.imp Ranked.precedes_nat_iff.1
  mem_blocks := fun _ => Iff.rfl
  arguments_ascending := by
    apply OrderedSet.pairwise_filterMap
    intro left right first second precedes isFirst isSecond
    cases Value.argumentIndex?_eq_some_iff.1 isFirst
    cases Value.argumentIndex?_eq_some_iff.1 isSecond
    exact Value.precedes_argument_iff.1 precedes
  mem_arguments := by
    intro index
    simp only [List.mem_filterMap, Value.argumentIndex?_eq_some_iff, exists_eq_right]
    rfl
  results_ascending := by
    apply OrderedSet.pairwise_filterMap
    intro left right first second precedes isFirst isSecond
    cases Value.definition?_eq_some_iff.1 isFirst
    cases Value.definition?_eq_some_iff.1 isSecond
    exact Value.precedes_result_iff.1 precedes
  mem_results := by
    intro instruction
    simp only [List.mem_filterMap, Value.definition?_eq_some_iff, exists_eq_right]
    rfl

/-- The values that are no constants are the arguments and, behind them, the results. -/
theorem Facts.ListedAs.filter_values {facts : Facts} {blocks : List BlockId}
    {arguments : List Nat} {results : List InstId}
    (listedAs : facts.ListedAs blocks arguments results) :
    (facts.values.toList.filter fun value => !value.isConstant) =
      arguments.map .argument ++ results.map .result := by
  have inOrder : (arguments.map Value.argument ++ results.map Value.result).Pairwise
      Ranked.Precedes := by
    rw [List.pairwise_append, List.pairwise_map, List.pairwise_map]
    refine ⟨?_, ?_, ?_⟩
    · exact listedAs.arguments_ascending.imp Value.precedes_argument_iff.2
    · exact listedAs.results_ascending.imp Value.precedes_result_iff.2
    · intro left isLeft right isRight
      obtain ⟨index, -, rfl⟩ := List.mem_map.1 isLeft
      obtain ⟨instruction, -, rfl⟩ := List.mem_map.1 isRight
      exact .inl Nat.zero_lt_one
  have sameSet : (⟨_, facts.values.ascending.filter fun value => !value.isConstant⟩ :
      OrderedSet Value) = ⟨_, inOrder⟩ := by
    refine OrderedSet.ext fun value => ?_
    rw [← OrderedSet.mem_toList, ← OrderedSet.mem_toList, List.mem_filter, List.mem_append,
      List.mem_map, List.mem_map]
    cases value with
    | argument index =>
        simpa [Value.isConstant, OrderedSet.mem_toList] using (listedAs.mem_arguments index).symm
    | result instruction =>
        simpa [Value.isConstant, OrderedSet.mem_toList] using
          (listedAs.mem_results instruction).symm
    | constant literal => simp [Value.isConstant]
  exact congrArg OrderedSet.toList sameSet

namespace Function

variable {function : Function} {facts : Facts} {blocks : List BlockId} {values : List Value}

/-- The names under which facts are declared. -/
def listedNames (function : Function) (blocks : List BlockId) (arguments : List Nat)
    (results : List InstId) : List String :=
  blocks.map function.blockName ++
    arguments.map (fun index => function.valueName (.argument index)) ++
    results.map (fun instruction => function.valueName (.result instruction))

theorem map_spell_factTokens {arguments : List Nat} {results : List InstId}
    (listedAs : facts.ListedAs facts.blocks.toList arguments results) :
    (function.factTokens facts).map Token.spell =
      function.listedNames facts.blocks.toList arguments results := by
  unfold factTokens listedNames
  rw [listedAs.filter_values, List.append_assoc]
  simp only [List.map_append, List.map_map]
  rfl

/-- In whatever order the blocks and the values of facts are visited, the line that
is made from them is the line that declares the facts.  There is none if the facts
hold no block and no value but constants; otherwise it names the blocks, the
arguments and the results, each kind ascending and each member once. -/
theorem directive?_exact (function : Function) (facts : Facts)
    (blocksVisited : facts.blocks.Visits blocks) (valuesVisited : facts.values.Visits values) :
    function.directiveFrom? blocks values = function.directive? facts ∧
      (function.directiveFrom? blocks values = none ↔
        (∀ block, block ∉ facts.blocks) ∧ ∀ value ∈ facts.values, value.isConstant = true) ∧
      ∃ listed arguments results, facts.ListedAs listed arguments results ∧
        ∀ line, function.directiveFrom? blocks values = some line ↔
          function.listedNames listed arguments results ≠ [] ∧
          line = "uniform " ++ ", ".intercalate (function.listedNames listed arguments results) := by
  have sameLine := function.directiveFrom?_eq blocksVisited valuesVisited
  have sameNames := function.map_spell_factTokens facts.listedAs
  refine ⟨sameLine, by rw [sameLine, directive?_eq_none_iff], _, _, _, facts.listedAs, ?_⟩
  intro line
  rw [sameLine, directive?_eq, sameNames, Text.uniformLine?_eq_some_iff]

end Function

/-! ## Facts visited in no order -/

namespace ShuffledFacts

/-- Two blocks, two arguments and two named results. -/
def kernel : Function where
  name := "k"
  kind := .kernel
  arguments := [⟨"x", .i32⟩, ⟨"y", .i32⟩]
  blocks := ⟨[⟨some "entry", [0, 1]⟩, ⟨some "loop", [2, 3]⟩]⟩
  instructions := ⟨[.binary .add (.argument 0) (.argument 1), .branch 1,
    .compare .less (.result 0) (.argument 1), .condBranch (.result 2) 1 1]⟩
  valueNames := (IndexMap.empty.insert 0 "sum").insert 2 "more"

/-- The blocks in the order of a visit. -/
def blocks : List BlockId := [1, 0]

/-- The values in the order of a visit; the two constants have the same key. -/
def values : List Value :=
  [.constant (.bool true), .result 2, .argument 1, .constant (.int 5), .result 0, .argument 0]

def facts : Facts := ⟨.ofList blocks, .ofList values⟩

theorem visits_blocks : facts.blocks.Visits blocks :=
  ⟨by decide, fun _ => OrderedSet.mem_ofList.symm⟩

theorem visits_values : facts.values.Visits values :=
  ⟨by decide, fun _ => OrderedSet.mem_ofList.symm⟩

/-- Blocks, arguments and results are declared in ascending order, constants are not. -/
theorem line_sorted : facts.blocks.Visits blocks ∧ facts.values.Visits values ∧
    kernel.directiveFrom? blocks values = some "uniform entry, loop, %x, %y, %sum, %more" := by
  refine ⟨visits_blocks, visits_values, ?_⟩
  rw [(kernel.directive?_exact facts visits_blocks visits_values).1]
  decide +kernel

end ShuffledFacts

end Workgroup

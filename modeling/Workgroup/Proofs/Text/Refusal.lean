import Workgroup.Proofs.Text.RoundTrip
import Workgroup.Proofs.Text.Verbatim

/-!
Contract: programs are refused function by function.

A program is read one function after the other: a signature line, and if it opens
a body the lines up to the next closing brace.  There are four reasons to refuse a
function, and the first function that gives one decides.  The error of a body is
on one of its lines, whichever of the two readings finds it.

Owns:
- results of computations that fail, step by step;
- the errors of a body and the lines they are on;
- the four reasons to refuse a function, and the function that is refused.
-/

namespace Workgroup

open Text

section Results

variable {α β ε : Type}

theorem bind_eq_error_iff {first : Except ε α} {next : α → Except ε β} {failure : ε} :
    first >>= next = .error failure ↔
      first = .error failure ∨ ∃ value, first = .ok value ∧ next value = .error failure := by
  cases first with
  | error other =>
      constructor
      · rintro ⟨⟩
        exact .inl rfl
      · rintro (⟨⟨⟩⟩ | ⟨_, same, _⟩)
        · rfl
        · exact absurd same nofun
  | ok value =>
      refine ⟨fun same => .inr ⟨value, rfl, same⟩, ?_⟩
      rintro (same | ⟨_, ⟨⟩, same⟩)
      · exact absurd same nofun
      · exact same

/-- A run fails with the error of one of its steps. -/
theorem exists_of_foldlM_eq_error {step : β → α → Except ε β} {items : List α} {start : β}
    {failure : ε} (failed : items.foldlM step start = .error failure) :
    ∃ item ∈ items, ∃ state, step state item = .error failure := by
  induction items generalizing start with
  | nil => exact absurd failed nofun
  | cons item items inductionHypothesis =>
      rw [List.foldlM_cons] at failed
      rcases bind_eq_error_iff.1 failed with first | ⟨next, -, rest⟩
      · exact ⟨item, List.mem_cons_self, start, first⟩
      · obtain ⟨other, listed, further⟩ := inductionHypothesis rest
        exact ⟨other, List.mem_cons_of_mem item listed, further⟩

/-- A list is refused for one of its items. -/
theorem exists_of_mapM_eq_error {change : α → Except ε β} {items : List α} {failure : ε}
    (failed : items.mapM change = .error failure) :
    ∃ item ∈ items, change item = .error failure := by
  induction items with
  | nil => exact absurd failed nofun
  | cons item items inductionHypothesis =>
      rw [List.mapM_cons] at failed
      rcases bind_eq_error_iff.1 failed with first | ⟨_, -, rest⟩
      · exact ⟨item, List.mem_cons_self, first⟩
      · rcases bind_eq_error_iff.1 rest with others | ⟨_, -, same⟩
        · obtain ⟨other, listed, refused⟩ := inductionHypothesis others
          exact ⟨other, List.mem_cons_of_mem item listed, refused⟩
        · exact absurd same nofun

end Results

/-! ## The errors of a body -/

/-- Whether the error is on the line. -/
def Text.ParseError.IsOn (failure : ParseError) (line : Line) : Prop :=
  failure.line? = some line.number

theorem Text.Reader.isOn_of_readLine {α : Type} {reader : Reader α} {line : Line}
    {failure : ParseError} (refused : Reader.readLine reader line = .error failure) :
    failure.IsOn line := by
  unfold Reader.readLine at refused
  split at refused
  · cases refused
    rfl
  · exact absurd refused nofun

namespace Outline

variable {outline next : Outline} {line other : Line} {failure : ParseError}

theorem isOn_of_addInstruction (refused : outline.addInstruction line = .error failure) :
    failure.IsOn line := by
  unfold addInstruction at refused
  split at refused
  · cases refused
    rfl
  · dsimp only at refused
    split at refused
    · exact absurd refused nofun
    · split at refused
      · cases refused
        rfl
      · exact absurd refused nofun

theorem isOn_of_add (refused : outline.add line = .error failure) : failure.IsOn line := by
  unfold add at refused
  split at refused
  · unfold addLabel at refused
    split at refused
    · cases refused
      rfl
    · exact absurd refused nofun
  · split at refused
    · exact absurd refused nofun
    · exact isOn_of_addInstruction refused
  · exact isOn_of_addInstruction refused

/-- The lines that are put aside for the second reading. -/
def putAside (outline : Outline) : List Line := outline.instructionLines ++ outline.factLines

theorem putAside_add (added : outline.add line = .ok next) :
    next.putAside ⊆ line :: outline.putAside := by
  intro other member
  rcases add_cases added with ⟨label, -, labelled⟩ | ⟨-, rfl⟩ | instruction
  · obtain ⟨-, rfl⟩ := addLabel_cases labelled
    exact List.mem_cons_of_mem line member
  · simp only [putAside, List.mem_append, List.mem_cons] at member ⊢
    tauto
  · have moreInstructions : next.instructionLines = outline.instructionLines ++ [line] ∧
        next.factLines = outline.factLines := by
      obtain ⟨block, -, ⟨-, rfl⟩ | ⟨name, -, -, rfl⟩⟩ := addInstruction_cases instruction
      · exact ⟨rfl, rfl⟩
      · exact ⟨rfl, rfl⟩
    rw [putAside, moreInstructions.1, moreInstructions.2] at member
    simp only [putAside, List.mem_append, List.mem_cons] at member ⊢
    tauto

theorem putAside_foldlM {signature : Function} {body : List Line}
    (outlined : body.foldlM add (start signature) = .ok outline) : outline.putAside ⊆ body := by
  refine foldlM_invariant (fun outline : Outline => outline.putAside ⊆ body) ?_
    (fun _ member => absurd member List.not_mem_nil) outlined
  intro outline line next member known added other listed
  rcases List.mem_cons.1 (putAside_add added listed) with rfl | earlier
  · exact member
  · exact known earlier

theorem exists_isOn_of_complete (refused : outline.complete = .error failure) :
    ∃ line ∈ outline.putAside, failure.IsOn line := by
  unfold complete at refused
  rcases bind_eq_error_iff.1 refused with instructions | ⟨_, -, refused⟩
  · obtain ⟨line, listed, refused⟩ := exists_of_mapM_eq_error instructions
    exact ⟨line, List.mem_append_left _ listed, Reader.isOn_of_readLine refused⟩
  · rcases bind_eq_error_iff.1 refused with facts | ⟨_, -, same⟩
    · obtain ⟨line, listed, refused⟩ := exists_of_mapM_eq_error facts
      exact ⟨line, List.mem_append_right _ listed, Reader.isOn_of_readLine refused⟩
    · exact absurd same nofun

end Outline

/-- The error of a body is on one of its lines. -/
theorem Function.exists_isOn_of_readBody {signature : Function} {body : List Line}
    {failure : ParseError} (refused : signature.readBody body = .error failure) :
    ∃ line ∈ body, failure.IsOn line := by
  unfold readBody at refused
  rcases bind_eq_error_iff.1 refused with outlined | ⟨outline, outlined, completed⟩
  · obtain ⟨line, listed, outline, refused⟩ := exists_of_foldlM_eq_error outlined
    exact ⟨line, listed, Outline.isOn_of_add refused⟩
  · obtain ⟨line, listed, isOn⟩ := Outline.exists_isOn_of_complete completed
    exact ⟨line, Outline.putAside_foldlM outlined listed, isOn⟩

/-! ## The function that is refused -/

namespace Assembly

variable {assembly next : Assembly} {line closing : Line} {body after later lines : List Line}
  {function : Function} {closes : Bool} {failure : ParseError}

/-- Reads lines, after those already taken up. -/
def readOn (assembly : Assembly) (lines : List Line) : Except ParseError Program := do
  let assembly ← lines.foldlM Assembly.add assembly
  assembly.finish

theorem readOn_append {front back : List Line} (taken : front.foldlM add assembly = .ok next) :
    assembly.readOn (front ++ back) = next.readOn back := by
  unfold readOn
  rw [foldlM_append_eq taken]

/-- The reasons to refuse the function that begins with a line and goes on with
later lines. -/
inductive Refuses (assembly : Assembly) (line : Line) : List Line → ParseError → Prop where
  /-- Its signature is not one. -/
  | signature {later : List Line} {failure : ParseError}
      (read : Reader.readLine Reader.signature line = .error failure) :
      Refuses assembly line later failure
  /-- There is a function of its name. -/
  | duplicate {later : List Line} {function : Function} {closes : Bool}
      (read : Reader.readLine Reader.signature line = .ok (function, closes))
      (known : (assembly.program.module.functionNamed? function.name).isSome = true) :
      Refuses assembly line later (.onLine line.number (.duplicateFunction function.name))
  /-- Its body, up to the first closing brace, is refused. -/
  | body {body after : List Line} {closing : Line} {function : Function} {failure : ParseError}
      (read : Reader.readLine Reader.signature line = .ok (function, false))
      (fresh : assembly.program.module.functionNamed? function.name = none)
      (inside : ∀ line ∈ body, line.tokens ≠ [.mark .closeBrace])
      (isClosing : closing.tokens = [.mark .closeBrace])
      (refused : function.readBody body = .error failure) :
      Refuses assembly line (body ++ closing :: after) failure
  /-- Its body is not closed. -/
  | unclosed {later : List Line} {function : Function}
      (read : Reader.readLine Reader.signature line = .ok (function, false))
      (fresh : assembly.program.module.functionNamed? function.name = none)
      (inside : ∀ line ∈ later, line.tokens ≠ [.mark .closeBrace]) :
      Refuses assembly line later (.unexpectedEnd function.name)

section OneFunction

variable (closed : assembly.unfinished = none)
include closed

/-- A line that is no signature is refused. -/
theorem add_of_no_signature (read : Reader.readLine Reader.signature line = .error failure) :
    assembly.add line = .error failure := by
  rw [add_eq_addSignature closed]
  unfold addSignature
  rw [read]
  rfl

theorem Refuses.readOn_eq (refuses : assembly.Refuses line later failure) :
    assembly.readOn (line :: later) = .error failure := by
  unfold readOn
  cases refuses with
  | signature read =>
      rw [List.foldlM_cons, add_of_no_signature closed read]
      rfl
  | duplicate read known =>
      rw [List.foldlM_cons, add_of_known closed read known]
      rfl
  | body read fresh inside isClosing refused =>
      rw [foldlM_closed closed read fresh inside isClosing, refused]
      rfl
  | unclosed read fresh inside =>
      rw [foldlM_open closed read fresh inside]
      rfl

/-- A function is refused, or its lines are taken up. -/
theorem refuses_or_taken (line : Line) (later : List Line) :
    (∃ failure, assembly.Refuses line later failure) ∨
      ∃ taken after next, later = taken ++ after ∧ (line :: taken).foldlM add assembly = .ok next ∧
        next.unfinished = none := by
  cases read : Reader.readLine Reader.signature line with
  | error failure => exact .inl ⟨failure, .signature read⟩
  | ok answer =>
      obtain ⟨function, closes⟩ := answer
      cases named : assembly.program.module.functionNamed? function.name with
      | some handle =>
          exact .inl ⟨_, .duplicate read (by rw [named]; rfl)⟩
      | none =>
          cases closes with
          | true =>
              refine .inr ⟨[], later, assembly.addFunction function .empty, rfl, ?_, rfl⟩
              rw [List.foldlM_cons, add_of_fresh closed read named]
              rfl
          | false =>
              cases found : later.find? fun line => line.tokens == [.mark .closeBrace] with
              | none =>
                  have inside : ∀ line ∈ later, line.tokens ≠ [.mark .closeBrace] := by
                    simpa using found
                  exact .inl ⟨_, .unclosed read named inside⟩
              | some closing =>
                  obtain ⟨isClosing, body, after, rfl, inside⟩ :=
                    List.find?_eq_some_iff_append.1 found
                  have isClosing : closing.tokens = [.mark .closeBrace] := eq_of_beq isClosing
                  have inside : ∀ line ∈ body, line.tokens ≠ [.mark .closeBrace] := by
                    simpa using inside
                  cases isBody : function.readBody body with
                  | error failure => exact .inl ⟨failure, .body read named inside isClosing isBody⟩
                  | ok result =>
                      obtain ⟨whole, facts⟩ := result
                      refine .inr ⟨body ++ [closing], after, assembly.addFunction whole facts,
                        (List.append_cons body closing after), ?_, rfl⟩
                      rw [foldlM_closed closed read named inside isClosing, isBody]
                      rfl

/-- Lines are refused for the first function that is, with all functions in front
of it taken up. -/
theorem exists_refuses (refused : assembly.readOn lines = .error failure) :
    ∃ earlier line later state, lines = earlier ++ line :: later ∧
      earlier.foldlM add assembly = .ok state ∧ state.unfinished = none ∧
      state.Refuses line later failure := by
  -- A function is taken up with all its lines at once, so the induction is on their number.
  induction size : lines.length using Nat.strong_induction_on generalizing lines assembly with
  | _ count inductionHypothesis =>
    cases lines with
    | nil =>
        have finished : assembly.readOn [] = .ok assembly.program := by
          unfold readOn
          exact finish_eq_ok_iff.2 ⟨closed, rfl⟩
        exact absurd (finished.symm.trans refused) nofun
    | cons line later =>
        obtain ⟨reason, refuses⟩ | ⟨taken, after, next, rfl, run, nextClosed⟩ :=
          refuses_or_taken closed line later
        · cases (refuses.readOn_eq closed).symm.trans refused
          exact ⟨[], line, later, assembly, rfl, rfl, closed, refuses⟩
        · rw [← List.cons_append, readOn_append run] at refused
          obtain ⟨earlier, other, rest, state, rfl, further, stateClosed, refuses⟩ :=
            inductionHypothesis after.length (by simp at size; omega) nextClosed refused rfl
          refine ⟨line :: taken ++ earlier, other, rest, state, ?_, ?_, stateClosed, refuses⟩
          · rw [List.append_assoc]
            rfl
          · rw [foldlM_append_eq run, further]

end OneFunction

end Assembly

end Workgroup

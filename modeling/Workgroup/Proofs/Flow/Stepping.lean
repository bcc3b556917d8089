import Mathlib.Logic.Relation

/-!
Contract: loops that go on step by step, and where they end.

A loop is given by the state that follows each of its states; the loop ends in
a state that none follows.  One state is followed by one state at most, so a
loop that ends in some state does not go on for ever and ends in no other.

Owns:
- the steps of a loop, and what each of them keeps;
- the state in which a loop ends, and loops that end because a measure falls.
-/

namespace Workgroup

variable {State : Type} {step : State → Option State} {start middle stop : State}

/-- The steps of a loop lead from one state to the other. -/
def Steps (step : State → Option State) (start stop : State) : Prop :=
  Relation.ReflTransGen (fun before after => step before = some after) start stop

/-- A loop that is in the first state ends in the second. -/
structure EndsIn (step : State → Option State) (start stop : State) : Prop where
  steps : Steps step start stop
  final : step stop = none

namespace Steps

theorem refl (state : State) : Steps step state state :=
  Relation.ReflTransGen.refl

theorem trans (first : Steps step start middle) (second : Steps step middle stop) :
    Steps step start stop :=
  Relation.ReflTransGen.trans first second

theorem head (stepped : step start = some middle) (rest : Steps step middle stop) :
    Steps step start stop :=
  Relation.ReflTransGen.head stepped rest

/-- What each step keeps, all steps keep. -/
theorem keeps {holds : State → Prop}
    (stepKeeps : ∀ {before after}, holds before → step before = some after → holds after)
    (steps : Steps step start stop) (atStart : holds start) : holds stop := by
  induction steps with
  | refl => exact atStart
  | tail _ stepped inductionHypothesis => exact stepKeeps inductionHypothesis stepped

/-- A loop that has ended stays where it is. -/
theorem eq_of_final (steps : Steps step start stop) (final : step start = none) : stop = start := by
  rcases Relation.ReflTransGen.cases_head steps with same | ⟨next, stepped, -⟩
  · exact same.symm
  · exact absurd (final.symm.trans stepped) nofun

end Steps

namespace EndsIn

/-- Where a loop ends does not change with the steps it has made. -/
theorem of_steps (steps : Steps step start middle) (ends : EndsIn step middle stop) :
    EndsIn step start stop :=
  ⟨steps.trans ends.steps, ends.final⟩

/-- A loop ends if each step keeps a property and lowers a measure. -/
theorem exists_of_falls {holds : State → Prop} (measure : State → Nat)
    (falls : ∀ {before after}, holds before → step before = some after →
      holds after ∧ measure after < measure before)
    (atStart : holds start) : ∃ stop, EndsIn step start stop ∧ holds stop := by
  induction size : measure start using Nat.strongRecOn generalizing start with
  | _ size inductionHypothesis =>
      cases stepped : step start with
      | none => exact ⟨start, ⟨.refl start, stepped⟩, atStart⟩
      | some next =>
          obtain ⟨stillHolds, less⟩ := falls atStart stepped
          obtain ⟨stop, ends, atStop⟩ :=
            inductionHypothesis (measure next) (size ▸ less) stillHolds rfl
          exact ⟨stop, .of_steps (.head stepped (.refl next)) ends, atStop⟩

end EndsIn

end Workgroup

import Workgroup.Proofs.Barrier.Eligibility
import Workgroup.Proofs.Function.Growth

/-!
Contract: the barrier pass with a factory that may fail.

A request may be refused after the factory has already inserted something, and
the first request may be granted before the second one is refused.  In every
case the storage is cut back to its old size, which takes exactly the
insertions of this loop away.

Owns:
- factories that change functions by insertions only;
- what a run over both places gains;
- a visit that reports no change leaves the function as it was, and a visit
  that reports one has gained two barriers.
-/

namespace Workgroup

namespace BarrierFactory

variable {σ : Type} {factory : BarrierFactory σ} {points : List InsertPoint}
  {function : Function} {notes : σ}

/-- A request changes the function by insertions alone, whatever is answered. -/
def InsertsOnly (factory : BarrierFactory σ) : Prop :=
  ∀ (point : InsertPoint) (function : Function) (notes : σ), ∃ instructions,
    function.Gains instructions (factory point function notes).function

/-- A request that is granted inserts one barrier somewhere; one that is refused
may leave insertions behind. -/
structure AddsOne (factory : BarrierFactory σ) : Prop where
  insertsOnly : factory.InsertsOnly
  gains : ∀ {point function notes handle}, (factory point function notes).result = .ok handle →
    function.Gains [.barrier] (factory point function notes).function

/-- A request that is granted inserts one barrier at the place it names. -/
structure Obeys (factory : BarrierFactory σ) : Prop where
  insertsOnly : factory.InsertsOnly
  inserts : ∀ {point function notes handle}, (factory point function notes).result = .ok handle →
    function.insert point .barrier = .ok ((factory point function notes).function, handle)

theorem Obeys.addsOne (obeys : factory.Obeys) : factory.AddsOne where
  insertsOnly := obeys.insertsOnly
  gains := fun granted => .of_insert (obeys.inserts granted)

theorem obeys_group : (group : BarrierFactory σ).Obeys where
  insertsOnly := by
    intro point function notes
    unfold group
    cases inserted : function.insert point .barrier with
    | error fault => exact ⟨[], .nothing⟩
    | ok changed => exact ⟨[.barrier], .of_insert inserted⟩
  inserts := by
    intro point function notes handle granted
    unfold group at granted ⊢
    cases inserted : function.insert point .barrier with
    | error fault => simp [inserted] at granted
    | ok changed =>
        simp only [inserted, Except.ok.injEq] at granted
        simp [← granted]

/-- A run over several places changes the function by insertions alone. -/
theorem InsertsOnly.runAll (insertsOnly : factory.InsertsOnly) (points : List InsertPoint)
    (function : Function) (notes : σ) :
    ∃ instructions, function.Gains instructions (factory.runAll points function notes).function := by
  induction points generalizing function notes with
  | nil => exact ⟨[], .nothing⟩
  | cons point points inductionHypothesis =>
      obtain ⟨first, firstGains⟩ := insertsOnly point function notes
      unfold BarrierFactory.runAll
      dsimp only
      split
      · exact ⟨first, firstGains⟩
      · obtain ⟨rest, restGains⟩ := inductionHypothesis (factory point function notes).function
          (factory point function notes).notes
        exact ⟨first ++ rest, firstGains.trans restGains⟩

/-- A run that is nowhere refused inserts one barrier for each place. -/
theorem AddsOne.runAll (addsOne : factory.AddsOne)
    (granted : (factory.runAll points function notes).failure = none) :
    function.Gains (List.replicate points.length .barrier)
      (factory.runAll points function notes).function := by
  induction points generalizing function notes with
  | nil => exact .nothing
  | cons point points inductionHypothesis =>
      unfold BarrierFactory.runAll at granted ⊢
      dsimp only at granted ⊢
      cases answer : (factory point function notes).result with
      | error fault => simp [answer] at granted
      | ok handle =>
          simp only [answer] at granted ⊢
          exact (addsOne.gains answer).trans (inductionHypothesis granted)

/-- A run of an obeying factory that is nowhere refused is a run of the plain one. -/
theorem Obeys.runAll_eq (obeys : factory.Obeys) (otherNotes : σ)
    (granted : (factory.runAll points function notes).failure = none) :
    (group.runAll points function otherNotes).failure = none ∧
      (group.runAll points function otherNotes).function =
        (factory.runAll points function notes).function := by
  induction points generalizing function notes with
  | nil => exact ⟨rfl, rfl⟩
  | cons point points inductionHypothesis =>
      unfold BarrierFactory.runAll at granted ⊢
      dsimp only at granted ⊢
      cases answer : (factory point function notes).result with
      | error fault => simp [answer] at granted
      | ok handle =>
          have plain : group point function otherNotes =
              ⟨.ok handle, (factory point function notes).function, otherNotes⟩ := by
            unfold group
            rw [obeys.inserts answer]
          simp only [answer, plain] at granted ⊢
          exact inductionHypothesis granted

end BarrierFactory

namespace BarrierPass

variable {σ : Type} {pass : BarrierPass σ} {context : LoopContext σ} {loop : Loop}
  {eligible : EligibleLoop} {terminator : InstId} {function : Function} {journal : Journal σ}

/-! ## What an insertion comes to -/

/-- Either the function is left alone or cut back, or both requests are granted. -/
theorem place_cases (pass : BarrierPass σ) (eligible : EligibleLoop) (terminator : InstId)
    (function : Function) (journal : Journal σ) :
    ((pass.place eligible terminator function journal).changed = false ∧
      ((pass.place eligible terminator function journal).function = function ∨
        (pass.place eligible terminator function journal).function =
          (pass.factory.runAll (eligible.points function terminator) function
            journal.notes).function.truncateInstructions function.instructions.size)) ∨
    ((pass.place eligible terminator function journal).changed = true ∧
      (pass.factory.runAll (eligible.points function terminator) function
        journal.notes).failure = none ∧
      (pass.place eligible terminator function journal).function =
        (pass.factory.runAll (eligible.points function terminator) function
          journal.notes).function) := by
  unfold place
  dsimp only
  split
  · exact .inl ⟨rfl, .inl rfl⟩
  · split
    · exact .inl ⟨rfl, .inr rfl⟩
    · next granted => exact .inr ⟨rfl, granted, rfl⟩

/-! ## No change -/

/-- A failed insertion leaves the function as it was. -/
theorem place_eq_of_not_changed (insertsOnly : pass.factory.InsertsOnly)
    (bounded : function.Bounded)
    (unchanged : (pass.place eligible terminator function journal).changed = false) :
    (pass.place eligible terminator function journal).function = function := by
  rcases pass.place_cases eligible terminator function journal with
    ⟨-, kept | restored⟩ | ⟨changed, -⟩
  · exact kept
  · obtain ⟨instructions, gains⟩ :=
      insertsOnly.runAll (eligible.points function terminator) function journal.notes
    rw [restored]
    exact gains.truncate_eq bounded
  · exact absurd (changed.symm.trans unchanged) nofun

/-- An attempt that reports no change leaves the function as it was. -/
theorem tryInsert_eq_of_not_changed (insertsOnly : pass.factory.InsertsOnly)
    (bounded : function.Bounded)
    (unchanged : (pass.tryInsert context eligible function journal).changed = false) :
    (pass.tryInsert context eligible function journal).function = function := by
  rcases pass.tryInsert_cases context eligible function journal with
    ⟨-, kept⟩ | ⟨terminator, notes, -, placed⟩
  · exact kept
  · rw [placed] at unchanged ⊢
    exact place_eq_of_not_changed insertsOnly bounded unchanged

/-- A visit that reports no change leaves the function as it was. -/
theorem runOnLoop_eq_of_not_changed (insertsOnly : pass.factory.InsertsOnly)
    (bounded : function.Bounded)
    (unchanged : (pass.runOnLoop context loop function journal).changed = false) :
    (pass.runOnLoop context loop function journal).function = function := by
  rcases pass.runOnLoop_cases context loop function journal with ⟨-, kept⟩ | ⟨eligible, -, tried⟩
  · exact kept
  · rw [tried] at unchanged ⊢
    exact tryInsert_eq_of_not_changed insertsOnly bounded unchanged

/-! ## A change -/

/-- A visit that reports a change was granted both requests. -/
theorem granted_of_changed
    (changed : (pass.runOnLoop context loop function journal).changed = true) :
    ∃ eligible terminator notes,
      EligibleLoop.check pass.accepts loop function context.graph context.dominators =
        .ok eligible ∧
      (eligible.checkUniform function context.function context.oracle journal.notes).1 =
        .ok terminator ∧
      (pass.factory.runAll (eligible.points function terminator) function notes).failure = none ∧
      (pass.runOnLoop context loop function journal).function =
        (pass.factory.runAll (eligible.points function terminator) function notes).function := by
  obtain ⟨eligible, terminator, notes, checked, isUniform, placed⟩ := placed_of_changed changed
  rw [placed] at changed ⊢
  rcases pass.place_cases eligible terminator function (journal.setNotes notes) with
    ⟨unchanged, -⟩ | ⟨-, granted, function_eq⟩
  · exact absurd (changed.symm.trans unchanged) nofun
  exact ⟨eligible, terminator, notes, checked, isUniform, granted, function_eq⟩

/-- A visit that reports a change has gained two barriers. -/
theorem gains_of_changed (addsOne : pass.factory.AddsOne)
    (changed : (pass.runOnLoop context loop function journal).changed = true) :
    function.Gains [.barrier, .barrier]
      (pass.runOnLoop context loop function journal).function := by
  obtain ⟨eligible, terminator, notes, -, -, granted, function_eq⟩ := granted_of_changed changed
  rw [function_eq]
  exact addsOne.runAll granted

end BarrierPass

end Workgroup

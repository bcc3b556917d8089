import Workgroup.Pass.Pipeline

/-!
Contract: the rounds of a pipeline.

A run of a pipeline consists of rounds, and a round of one run of each stage.  A
stage is any transformation of the state that the stages hand on, which includes
the notes of its passes, so all that is known of its run is what it was handed
and what it answered.  A list of rounds belongs to a run if every round goes
through the stages, every stage is handed what the one before left, and no round
but the last one goes by without a change; there is one such list only.

Owns:
- runs of stages, and lists of them that are linked;
- the rounds of a run of a pipeline;
- what the rounds of a run have in common, when they stop and what is reported.
-/

namespace Workgroup

/-- A stage that is run in some round, and the state that it is handed. -/
structure StageRun (σ : Type) where
  round : Nat
  stage : Stage σ
  before : PassState σ

namespace StageRun

variable {σ : Type} {start middle stop : PassState σ} {run : StageRun σ}
  {first second runs : List (StageRun σ)}

/-- Whether the stage reports a change. -/
def reports (run : StageRun σ) : Bool := (run.stage.run run.before).changed

/-- What the stage leaves, after a change with an entry in the log. -/
def after (run : StageRun σ) : PassState σ :=
  let left := (run.stage.run run.before).state
  if run.reports then
    { left with journal := left.journal.write (.roundChanged run.round run.stage.name) }
  else left

/-- The first stage is handed the state at the start, each further one what the
one before it left, and what the last one leaves is the state at the end. -/
def Linked (start : PassState σ) (runs : List (StageRun σ)) (stop : PassState σ) : Prop :=
  runs.map before ++ [stop] = start :: runs.map after

theorem linked_nil : Linked start [] stop ↔ stop = start := by
  unfold Linked
  rw [List.map_nil, List.map_nil, List.nil_append, List.cons.injEq, and_iff_left rfl]

theorem linked_cons :
    Linked start (run :: runs) stop ↔ run.before = start ∧ Linked run.after runs stop := by
  unfold Linked
  rw [List.map_cons, List.map_cons, List.cons_append, List.cons.injEq]

theorem linked_append :
    Linked start (first ++ second) stop ↔
      ∃ middle, Linked start first middle ∧ Linked middle second stop := by
  induction first generalizing start with
  | nil => simp only [List.nil_append, linked_nil, exists_eq_left]
  | cons run first inductionHypothesis =>
      simp only [List.cons_append, linked_cons, inductionHypothesis, exists_and_left, and_assoc]

theorem Linked.unique {other : PassState σ} (linked : Linked start runs stop)
    (otherLinked : Linked start runs other) : stop = other := by
  unfold Linked at linked otherLinked
  rw [← otherLinked] at linked
  exact List.singleton_inj.1 (List.append_cancel_left linked)

end StageRun

namespace Pipeline

open StageRun (Linked)

variable {σ : Type} {stages : List (Stage σ)} {limit left number : Nat} {state stop : PassState σ}
  {runs round : List (StageRun σ)} {rest : List (List (StageRun σ))} {outcome : PassOutcome σ}

/-! ## One round -/

/-- The runs of the stages in one round. -/
def stageRuns (number : Nat) : List (Stage σ) → PassState σ → List (StageRun σ)
  | [], _ => []
  | stage :: stages, state =>
      let run : StageRun σ := ⟨number, stage, state⟩
      run :: stageRuns number stages run.after

theorem step_eq (number : Nat) (outcome : PassOutcome σ) (stage : Stage σ) :
    step number outcome stage =
      ⟨outcome.changed || (StageRun.mk number stage outcome.state).reports,
        (StageRun.mk number stage outcome.state).after⟩ := by
  unfold step StageRun.after StageRun.reports
  dsimp only
  split
  · next changed => rw [changed, Bool.or_true]
  · next unchanged => rw [Bool.eq_false_iff.2 unchanged, Bool.or_false]

/-- The runs of a round are linked, and the round reports what one of them reports. -/
theorem foldl_step (stages : List (Stage σ)) (changed : Bool) (state : PassState σ) :
    Linked state (stageRuns number stages state)
        (stages.foldl (step number) ⟨changed, state⟩).state ∧
      (stages.foldl (step number) ⟨changed, state⟩).changed =
        (changed || (stageRuns number stages state).any StageRun.reports) := by
  induction stages generalizing changed state with
  | nil => exact ⟨rfl, (Bool.or_false changed).symm⟩
  | cons stage stages inductionHypothesis =>
      rw [List.foldl_cons, step_eq, stageRuns]
      dsimp only
      obtain ⟨linked, reported⟩ := inductionHypothesis
        (changed || (StageRun.mk number stage state).reports)
        (StageRun.mk number stage state).after
      rw [reported, List.any_cons, Bool.or_assoc]
      exact ⟨StageRun.linked_cons.2 ⟨rfl, linked⟩, rfl⟩

theorem linked_stageRuns (stages : List (Stage σ)) (number : Nat) (state : PassState σ) :
    Linked state (stageRuns number stages state) (runRound stages number state).state :=
  (foldl_step stages false state).1

theorem changed_runRound (stages : List (Stage σ)) (number : Nat) (state : PassState σ) :
    (runRound stages number state).changed =
      (stageRuns number stages state).any StageRun.reports :=
  (foldl_step stages false state).2.trans (Bool.false_or _)

theorem map_stage_stageRuns (stages : List (Stage σ)) (state : PassState σ) :
    (stageRuns number stages state).map StageRun.stage = stages := by
  induction stages generalizing state with
  | nil => rfl
  | cons stage stages inductionHypothesis =>
      rw [stageRuns, List.map_cons, inductionHypothesis]

theorem round_of_mem_stageRuns :
    ∀ run ∈ stageRuns number stages state, run.round = number := by
  induction stages generalizing state with
  | nil => exact nofun
  | cons stage stages inductionHypothesis =>
      exact List.forall_mem_cons.2 ⟨rfl, inductionHypothesis⟩

/-- A linked list of runs that goes through the stages is the round. -/
theorem eq_stageRuns (sameStages : runs.map StageRun.stage = stages)
    (numbered : ∀ run ∈ runs, run.round = number) (linked : Linked state runs stop) :
    runs = stageRuns number stages state := by
  induction runs generalizing stages state with
  | nil =>
      cases sameStages
      rfl
  | cons run runs inductionHypothesis =>
      obtain ⟨rfl, others⟩ := StageRun.linked_cons.1 linked
      obtain ⟨rfl, othersNumbered⟩ := List.forall_mem_cons.1 numbered
      cases sameStages
      exact congrArg (run :: ·) (inductionHypothesis rfl othersNumbered others)

/-! ## All rounds -/

/-- The rounds that are run, as many as are left at most. -/
def roundsFrom (stages : List (Stage σ)) : Nat → Nat → PassState σ → List (List (StageRun σ))
  | 0, _, _ => []
  | left + 1, number, state =>
      let outcome := runRound stages number state
      stageRuns number stages state ::
        if outcome.changed then roundsFrom stages left (number + 1) outcome.state else []

/-- The rounds of a run of a pipeline. -/
def rounds (pipeline : Pipeline σ) (state : PassState σ) : List (List (StageRun σ)) :=
  roundsFrom pipeline.stages (max 1 pipeline.maxRounds) 0 state

/-- The rounds that a run with a limit consists of, and its outcome. -/
structure RunsIn (stages : List (Stage σ)) (limit number : Nat) (state : PassState σ)
    (rounds : List (List (StageRun σ))) (outcome : PassOutcome σ) : Prop where
  /-- Every round runs every stage once, in order. -/
  stages_eq : ∀ round ∈ rounds, round.map StageRun.stage = stages
  numbered : ∀ index round, rounds[index]? = some round →
    ∀ run ∈ round, run.round = number + index
  /-- Every stage is handed what the one before it left, from round to round too. -/
  linked : Linked state rounds.flatten outcome.state
  /-- Every round but the last one reports a change. -/
  goesOn : ∀ round ∈ rounds.dropLast, round.any StageRun.reports = true
  length_le : rounds.length ≤ limit
  /-- Below the limit there is a last round, and it reports no change. -/
  stops : rounds.length < limit → ∃ round, rounds.getLast? = some round ∧
    round.any StageRun.reports = false
  /-- A change is reported exactly if some stage reports one in some round. -/
  changed_eq : outcome.changed = rounds.flatten.any StageRun.reports

/-! ## The rounds of the run -/

namespace RunsIn

theorem none_left (stages : List (Stage σ)) (number : Nat) (state : PassState σ) :
    RunsIn stages 0 number state [] ⟨false, state⟩ where
  stages_eq := nofun
  numbered := fun _ _ isRound => absurd isRound nofun
  linked := rfl
  goesOn := nofun
  length_le := Nat.le_refl 0
  stops := fun below => absurd below (Nat.lt_irrefl 0)
  changed_eq := rfl

/-- A round without a change is the last one. -/
theorem last (quiet : (runRound stages number state).changed = false) :
    RunsIn stages (left + 1) number state [stageRuns number stages state]
      (runRound stages number state) := by
  have silent := (changed_runRound stages number state).symm.trans quiet
  exact
    { stages_eq := List.forall_mem_singleton.2 (map_stage_stageRuns stages state)
      numbered := by
        rintro (_ | index) round isRound
        · cases isRound
          exact round_of_mem_stageRuns
        · cases isRound
      linked := by
        rw [List.flatten_singleton]
        exact linked_stageRuns stages number state
      goesOn := nofun
      length_le := Nat.le_add_left 1 left
      stops := fun _ => ⟨_, rfl, silent⟩
      changed_eq := by rw [List.flatten_singleton, silent, quiet] }

/-- After a round with a change come the rounds of the rest of the run. -/
theorem cons (busy : (runRound stages number state).changed = true)
    (others : RunsIn stages left (number + 1) (runRound stages number state).state rest outcome) :
    RunsIn stages (left + 1) number state (stageRuns number stages state :: rest)
      ⟨true, outcome.state⟩ := by
  have loud := (changed_runRound stages number state).symm.trans busy
  exact
    { stages_eq := List.forall_mem_cons.2 ⟨map_stage_stageRuns stages state, others.stages_eq⟩
      numbered := by
        rintro (_ | index) round isRound
        · cases isRound
          exact round_of_mem_stageRuns
        · rw [Nat.add_comm index, ← Nat.add_assoc]
          exact others.numbered index round isRound
      linked := by
        rw [List.flatten_cons]
        exact StageRun.linked_append.2
          ⟨_, linked_stageRuns stages number state, others.linked⟩
      goesOn := by
        cases rest with
        | nil => exact nofun
        | cons second rest => exact List.forall_mem_cons.2 ⟨loud, others.goesOn⟩
      length_le := Nat.succ_le_succ others.length_le
      stops := fun below => by
        obtain ⟨round, isLast, silent⟩ := others.stops (Nat.lt_of_succ_lt_succ below)
        refine ⟨round, ?_, silent⟩
        rw [List.getLast?_cons, isLast, Option.getD_some]
      changed_eq := by rw [List.flatten_cons, List.any_append, loud, Bool.true_or] }

/-- The first of the rounds is the round of the stages, and it hands its state on. -/
theorem first (given : RunsIn stages limit number state (round :: rest) outcome) :
    round = stageRuns number stages state ∧
      round.any StageRun.reports = (runRound stages number state).changed ∧
      Linked (runRound stages number state).state rest.flatten outcome.state := by
  obtain ⟨middle, linked, others⟩ := StageRun.linked_append.1 given.linked
  obtain rfl := eq_stageRuns (given.stages_eq round List.mem_cons_self)
    (given.numbered 0 round rfl) linked
  obtain rfl := linked.unique (linked_stageRuns stages number state)
  exact ⟨rfl, (changed_runRound stages number state).symm, others⟩

/-- After a first round with a change, the others are the rest of the run. -/
theorem tail (given : RunsIn stages (left + 1) number state (round :: rest) outcome)
    (loud : round.any StageRun.reports = true) :
    RunsIn stages left (number + 1) (runRound stages number state).state rest
      ⟨rest.flatten.any StageRun.reports, outcome.state⟩ where
  stages_eq := fun later isLater => given.stages_eq later (List.mem_cons_of_mem round isLater)
  numbered := fun index later isLater => by
    rw [Nat.add_assoc, Nat.add_comm 1]
    exact given.numbered (index + 1) later isLater
  linked := given.first.2.2
  goesOn := fun later isLater => by
    cases rest with
    | nil => cases isLater
    | cons second rest => exact given.goesOn later (List.mem_cons_of_mem round isLater)
  length_le := Nat.le_of_succ_le_succ given.length_le
  stops := fun below => by
    obtain ⟨final, isLast, silent⟩ := given.stops (Nat.succ_lt_succ below)
    cases rest with
    | nil =>
        cases isLast
        exact absurd (loud.symm.trans silent) nofun
    | cons second rest => exact ⟨final, isLast, silent⟩
  changed_eq := rfl

end RunsIn

theorem runsIn_roundsFrom (stages : List (Stage σ)) (left number : Nat) (state : PassState σ) :
    RunsIn stages left number state (roundsFrom stages left number state)
      (runRounds stages left number state) := by
  induction left generalizing number state with
  | zero => exact RunsIn.none_left stages number state
  | succ left inductionHypothesis =>
      rw [roundsFrom, runRounds]
      split
      · next busy =>
          exact (inductionHypothesis (number + 1) (runRound stages number state).state).cons busy
      · next quiet => exact RunsIn.last (Bool.eq_false_iff.2 quiet)

/-- Rounds and an outcome that fit a run are its own. -/
theorem RunsIn.unique {rounds : List (List (StageRun σ))}
    (given : RunsIn stages left number state rounds outcome) :
    rounds = roundsFrom stages left number state ∧
      outcome = runRounds stages left number state := by
  induction left generalizing number state rounds outcome with
  | zero =>
      obtain rfl := List.eq_nil_of_length_eq_zero (Nat.le_zero.1 given.length_le)
      exact ⟨rfl, PassOutcome.ext given.changed_eq (StageRun.linked_nil.1 given.linked)⟩
  | succ left inductionHypothesis =>
      cases rounds with
      | nil =>
          -- A run that is not at its limit ends with a quiet round, so there is one.
          obtain ⟨round, isLast, -⟩ := given.stops (Nat.succ_pos left)
          exact absurd isLast nofun
      | cons round rest =>
          -- What the first round reports is what decides whether there are others.
          obtain ⟨rfl, changed, linked⟩ := given.first
          have reported := given.changed_eq
          rw [List.flatten_cons, List.any_append, changed] at reported
          rw [roundsFrom, runRounds]
          split
          · next busy =>
              obtain ⟨rfl, others⟩ := inductionHypothesis (given.tail (changed.trans busy))
              rw [busy, Bool.true_or] at reported
              have sameState := congrArg PassOutcome.state others
              exact ⟨rfl, PassOutcome.ext reported sameState⟩
          · next quiet =>
              have silent := changed.trans (Bool.eq_false_iff.2 quiet)
              cases rest with
              | nil =>
                  rw [List.flatten_nil, List.any_nil, Bool.or_false] at reported
                  exact ⟨rfl, PassOutcome.ext reported (StageRun.linked_nil.1 linked)⟩
              | cons second rest =>
                  exact absurd (given.goesOn _ List.mem_cons_self) (Bool.eq_false_iff.1 silent)

/-- A run of a pipeline consists of rounds, each of every stage once and in order
on what the one before left, until one of them reports no change or, a limit of
zero counting as one, as many have run as the limit says; and it reports a change
exactly if a stage of some round does.  No other rounds and no other outcome fit
this. -/
theorem run_iff_runsIn (pipeline : Pipeline σ) (state : PassState σ)
    (rounds : List (List (StageRun σ))) (outcome : PassOutcome σ) :
    (rounds = pipeline.rounds state ∧ outcome = pipeline.run state) ↔
      RunsIn pipeline.stages (max 1 pipeline.maxRounds) 0 state rounds outcome := by
  constructor
  · rintro ⟨rfl, rfl⟩
    exact runsIn_roundsFrom pipeline.stages (max 1 pipeline.maxRounds) 0 state
  · exact RunsIn.unique

end Pipeline

end Workgroup

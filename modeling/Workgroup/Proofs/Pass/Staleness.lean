import Workgroup.Instrument.Plan
import Workgroup.Proofs.Barrier.PipelineRun
import Workgroup.Proofs.Pass.Visits

/-!
Contract: outdated uniformity is used by no pass.

A reported change by a pass that does not preserve uniformity outdates the facts
about the function, for the rest of the run.  At each moment uniformity is
available for exactly the functions that no visit so far has outdated; one visit
keeps that up, and so does the chain of all visits of a pipeline.

Owns:
- when a visit outdates a function;
- what the analyses of a run say about its past visits;
- which passes run on an outdated function and what they are told there.
-/

namespace Workgroup

section Staleness

variable {σ : Type}

/-- The oracle answers every query with no and remembers nothing. -/
structure Oracle.Denies (oracle : Oracle σ) : Prop where
  block : ∀ function block notes, oracle.block function block notes = (false, notes)
  value : ∀ function value notes, oracle.value function value notes = (false, notes)

/-- The visit reports a change of the function by a pass that does not preserve
uniformity. -/
def Visit.Outdates (visit : Visit σ) (function : FuncId) : Prop :=
  visit.handle = function ∧ visit.reports = true ∧
    visit.pass.usage.preserves .uniformity = false

instance (visit : Visit σ) (function : FuncId) : Decidable (visit.Outdates function) := by
  unfold Visit.Outdates
  infer_instance

/-! ## Availability -/

namespace Analyses

variable {analyses : Analyses σ} {handle function : FuncId} {usage : AnalysisUsage}

theorem mem_stale_invalidate_iff {kind : AnalysisKind} :
    (function, kind) ∈ (analyses.invalidate handle usage).stale ↔
      (function, kind) ∈ analyses.stale ∨ handle = function ∧ usage.preserves kind = false := by
  have listed : kind ∈ AnalysisKind.all := by cases kind <;> decide
  simp [invalidate, listed, and_comm]

/-- Only what a pass does not preserve becomes unavailable, and only for the
function that it changed. -/
theorem isAvailable_invalidate_iff :
    (analyses.invalidate handle usage).isAvailable function .uniformity = true ↔
      analyses.isAvailable function .uniformity = true ∧
        ¬ (handle = function ∧ usage.preserves .uniformity = false) := by
  unfold isAvailable
  simp only [Bool.and_eq_true, Bool.not_eq_true', Bool.eq_false_iff, ne_eq, List.contains_iff_mem,
    mem_stale_invalidate_iff, not_or, and_assoc]
  rfl

theorem oracleFor_of_unavailable
    (unavailable : analyses.isAvailable function .uniformity ≠ true) :
    analyses.oracleFor function = .nothing :=
  if_neg unavailable

/-- The analyses stem from what was supplied and lack exactly the facts that
past visits outdated. -/
structure Reflects (supplied : Option (Oracle σ)) (history : List (Visit σ))
    (analyses : Analyses σ) : Prop where
  oracle_eq : analyses.oracle = supplied
  available_iff : ∀ function, analyses.isAvailable function .uniformity = true ↔
    supplied.isSome = true ∧ ∀ visit ∈ history, ¬ visit.Outdates function

namespace Reflects

variable {supplied : Option (Oracle σ)} {history visits : List (Visit σ)} {visit : Visit σ}

theorem ofSupplied (supplied : Option (Oracle σ)) :
    (⟨supplied, []⟩ : Analyses σ).Reflects supplied [] where
  oracle_eq := rfl
  available_iff := by simp [isAvailable]

/-- One visit keeps the analyses in line with the past. -/
theorem after (reflects : visit.before.analyses.Reflects supplied history) :
    visit.after.analyses.Reflects supplied (history ++ [visit]) := by
  rw [visit.after_analyses]
  split
  · next reports =>
    refine ⟨reflects.oracle_eq, fun function => ?_⟩
    rw [isAvailable_invalidate_iff, reflects.available_iff, and_assoc]
    simp [Visit.Outdates, reports, or_imp, forall_and]
  · next silent =>
    refine ⟨reflects.oracle_eq, fun function => ?_⟩
    rw [reflects.available_iff]
    simp [Visit.Outdates, silent, or_imp, forall_and]

/-- So does a chain of visits. -/
theorem chained {start stop : Analyses σ} (reflects : start.Reflects supplied history)
    (chained : Chained LoopRun.analyses start visits stop) :
    stop.Reflects supplied (history ++ visits) := by
  induction chained generalizing history with
  | done =>
      rw [List.append_nil]
      exact reflects
  | next visit _ inductionHypothesis =>
      rw [List.append_cons]
      exact inductionHypothesis reflects.after

/-- The oracle for a function is the supplied one until the function is outdated. -/
theorem oracleFor_eq (reflects : analyses.Reflects supplied history)
    (current : ∀ visit ∈ history, ¬ visit.Outdates function) :
    analyses.oracleFor function = supplied.getD .nothing := by
  unfold oracleFor
  rw [reflects.oracle_eq]
  split
  · rfl
  · next unavailable =>
    cases supplied with
    | none => rfl
    | some oracle => exact absurd ((reflects.available_iff function).2 ⟨rfl, current⟩) unavailable

theorem unavailable (reflects : analyses.Reflects supplied history)
    (outdated : ∃ cause ∈ history, cause.Outdates function) :
    analyses.isAvailable function .uniformity ≠ true := by
  intro available
  obtain ⟨cause, member, outdates⟩ := outdated
  exact ((reflects.available_iff function).1 available).2 cause member outdates

end Reflects

end Analyses

/-! ## What a visit makes of the past -/

namespace Visit

variable {visit : Visit σ}

/-- A pass runs only where all that it requires is available. -/
theorem available_of_invoked (invoked : visit.invoked = true) {kind : AnalysisKind}
    (required : visit.pass.usage.requires kind = true) :
    visit.before.analyses.isAvailable visit.handle kind = true := by
  have listed : kind ∈ visit.pass.usage.required := by
    have declared : (kind, Dependency.required) ∈ visit.pass.usage.entries :=
      List.contains_iff_mem.1 required
    exact List.mem_map.2 ⟨_, List.mem_filter.2 ⟨declared, rfl⟩, rfl⟩
  have missing : visit.before.missing? visit.handle visit.pass = none :=
    Option.isNone_iff_eq_none.1 invoked
  have present := List.find?_eq_none.1 missing kind listed
  rwa [Bool.not_eq_true', Bool.not_eq_false] at present

/-- A visit leaves other functions the analyses they have. -/
theorem after_analyses_of_ne {other : FuncId} (different : other ≠ visit.handle) :
    (∀ kind, visit.after.analyses.isAvailable other kind =
        visit.before.analyses.isAvailable other kind) ∧
      visit.after.analyses.oracleFor other = visit.before.analyses.oracleFor other := by
  have uniformity : visit.after.analyses.isAvailable other .uniformity =
      visit.before.analyses.isAvailable other .uniformity := by
    rw [visit.after_analyses]
    split
    · rw [Bool.eq_iff_iff, Analyses.isAvailable_invalidate_iff]
      exact and_iff_left fun same => different same.1.symm
    · rfl
  have oracle : visit.after.analyses.oracle = visit.before.analyses.oracle := by
    rw [visit.after_analyses]
    split <;> rfl
  refine ⟨fun kind => ?_, ?_⟩
  · cases kind with
    | dominators => rfl
    | loops => rfl
    | uniformity => exact uniformity
  · unfold Analyses.oracleFor
    rw [uniformity, oracle]

/-- A visit uses the supplied facts while they hold and none of them afterwards. -/
structure Heeds (supplied : Option (Oracle σ)) (history : List (Visit σ)) (visit : Visit σ) :
    Prop where
  before : visit.before.analyses.Reflects supplied history
  after : visit.after.analyses.Reflects supplied (history ++ [visit])
  current : (∀ cause ∈ history, ¬ cause.Outdates visit.handle) →
    visit.context.oracle = supplied.getD .nothing
  outdated : (∃ cause ∈ history, cause.Outdates visit.handle) →
    (visit.invoked = true → visit.pass.usage.requires .uniformity = false) ∧
      visit.context.oracle.Denies
  others : ∀ other, other ≠ visit.handle →
    (∀ kind, visit.after.analyses.isAvailable other kind =
        visit.before.analyses.isAvailable other kind) ∧
      visit.after.analyses.oracleFor other = visit.before.analyses.oracleFor other

theorem heeds {supplied : Option (Oracle σ)} {history : List (Visit σ)}
    (reflects : visit.before.analyses.Reflects supplied history) :
    visit.Heeds supplied history where
  before := reflects
  after := reflects.after
  current := reflects.oracleFor_eq
  outdated := by
    intro outdated
    have unavailable := reflects.unavailable outdated
    refine ⟨fun invoked => ?_, ?_⟩
    · rw [Bool.eq_false_iff]
      exact fun required => unavailable (available_of_invoked invoked required)
    · have nothing : visit.context.oracle = .nothing :=
        Analyses.oracleFor_of_unavailable unavailable
      rw [nothing]
      exact ⟨fun _ _ _ => rfl, fun _ _ _ => rfl⟩
  others := fun _ => after_analyses_of_ne

end Visit

/-- In a pipeline of loop passes uniformity is available for the functions that
no visit has outdated so far, at each visit and at the end. -/
theorem Pipeline.heeds_staleness (groups : List (List (LoopPass σ))) (maxRounds : Nat)
    (module : Module) (supplied : Option (Oracle σ)) (journal : Journal σ) :
    ((⟨groups.map .loops, maxRounds⟩ : Pipeline σ).run
        ⟨module, ⟨supplied, []⟩, journal⟩).state.analyses.Reflects supplied
        ((⟨groups.map .loops, maxRounds⟩ : Pipeline σ).visits ⟨module, ⟨supplied, []⟩, journal⟩) ∧
      ∀ earlier visit later,
        (⟨groups.map .loops, maxRounds⟩ : Pipeline σ).visits ⟨module, ⟨supplied, []⟩, journal⟩ =
          earlier ++ visit :: later →
        visit.Heeds supplied earlier := by
  have chained := visits_chained groups maxRounds ⟨module, ⟨supplied, []⟩, journal⟩
  have begins := Analyses.Reflects.ofSupplied supplied
  refine ⟨begins.chained chained, ?_⟩
  intro earlier visit later split
  rw [split] at chained
  exact Visit.heeds (begins.chained chained.split)

end Staleness

namespace UniformSpin

/-- Reports a change of every loop and preserves nothing. -/
def touch : Probe := ⟨"touch", [], [], none, none, some true⟩

/-- The probe, and the barrier pass behind it. -/
def touchGroups : List (List (LoopPass Notebook)) :=
  [[touch.toLoopPass], [(BarrierPass.plain .all none).toLoopPass]]

/-- The visits of two rounds. -/
def touchVisits : List (Visit Notebook) :=
  (⟨touchGroups.map .loops, 2⟩ : Pipeline Notebook).visits
    ⟨program.module, ⟨some (.ofFacts program.facts), []⟩, .start .empty⟩

theorem two_lt_touchVisits : 2 < touchVisits.length := by decide +kernel

/-- The visit by the probe in the second round. -/
def secondTouch : Visit Notebook := touchVisits.get ⟨2, two_lt_touchVisits⟩

/-- The second round finds uniformity outdated, and its probe is told nothing. -/
theorem touched_denied : ∃ earlier later, touchVisits = earlier ++ secondTouch :: later ∧
    (∃ cause ∈ earlier, cause.Outdates secondTouch.handle) ∧ secondTouch.invoked = true ∧
      secondTouch.pass.usage.requires .uniformity = false ∧ secondTouch.context.oracle.Denies := by
  have split : touchVisits = touchVisits.take 2 ++ secondTouch :: touchVisits.drop 3 := by
    unfold secondTouch
    rw [List.get_eq_getElem, List.getElem_cons_drop, List.take_append_drop]
  have outdated : ∃ cause ∈ touchVisits.take 2, cause.Outdates secondTouch.handle := by
    decide +kernel
  have invoked : secondTouch.invoked = true := by decide +kernel
  have heeds := (Pipeline.heeds_staleness touchGroups 2 program.module
    (some (.ofFacts program.facts)) (.start .empty)).2 _ _ _ split
  obtain ⟨notRequired, denies⟩ := heeds.outdated outdated
  exact ⟨_, _, split, outdated, invoked, notRequired invoked, denies⟩

end UniformSpin

end Workgroup

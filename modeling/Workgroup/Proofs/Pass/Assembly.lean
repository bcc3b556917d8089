import Mathlib.Data.List.Chain
import Mathlib.Data.List.Nodup
import Workgroup.Pass.Registry

/-!
Contract: registries, and the pipelines that are assembled from their names.

A registration is refused or appends one pass under a new name, so a name leads
to one pass only.  Without its groups a pipeline is the list of the passes that
the names lead to.  The groups are as long as they can be: none is empty and no
two of them are adjacent, which leaves one way only to group a list of passes.

Owns:
- what stages are grouped from, and the grouping of a list of passes;
- the registries that registrations lead to;
- the pipelines that belong to a list of names, and the name that an assembly fails at.
-/

namespace Workgroup

variable {σ : Type}

/-! ## Groups -/

namespace Stage

/-- What a stage was grouped from. -/
def components : Stage σ → List (Component σ)
  | .loops passes => passes.map .loop
  | .module pass => [.module pass]

def IsGroup : Stage σ → Prop
  | .loops _ => True
  | .module _ => False

/-- No group is empty and no two groups are adjacent. -/
structure Separate (stages : List (Stage σ)) : Prop where
  nonempty : .loops [] ∉ stages
  apart : stages.IsChain fun first second => ¬ (first.IsGroup ∧ second.IsGroup)

theorem separate_cons {stage : Stage σ} {stages : List (Stage σ)} :
    Separate (stage :: stages) ↔
      stage ≠ .loops [] ∧ (∀ second ∈ stages.head?, ¬ (stage.IsGroup ∧ second.IsGroup)) ∧
        Separate stages := by
  constructor
  · rintro ⟨nonempty, apart⟩
    obtain ⟨border, othersApart⟩ := List.isChain_cons.1 apart
    exact ⟨(List.ne_of_not_mem_cons nonempty).symm, border,
      List.not_mem_of_not_mem_cons nonempty, othersApart⟩
  · rintro ⟨isFilled, border, others, othersApart⟩
    exact ⟨List.not_mem_cons_of_ne_of_not_mem isFilled.symm others,
      List.isChain_cons.2 ⟨border, othersApart⟩⟩

end Stage

namespace Component

open Stage (Separate)

variable {components : List (Component σ)} {stages : List (Stage σ)}

/-- Grouping loses, adds and moves nothing. -/
theorem flatMap_group (components : List (Component σ)) :
    (group components).flatMap Stage.components = components := by
  induction components with
  | nil => rfl
  | cons component components inductionHypothesis =>
      cases component with
      | module pass =>
          unfold group
          rw [List.flatMap_cons, inductionHypothesis]
          rfl
      | loop pass =>
          unfold group
          split
          · next passes stages grouped =>
            rw [grouped] at inductionHypothesis
            exact congrArg (List.cons (.loop pass)) inductionHypothesis
          · rw [List.flatMap_cons, inductionHypothesis]
            rfl

theorem mem_of_mem_group {stage : Stage σ} {component : Component σ}
    (isStage : stage ∈ group components) (member : component ∈ stage.components) :
    component ∈ components := by
  rw [← flatMap_group components]
  exact List.mem_flatMap.2 ⟨stage, isStage, member⟩

/-- A loop pass joins the group that follows it, or it begins one. -/
theorem separate_group (components : List (Component σ)) : Separate (group components) := by
  induction components with
  | nil => exact ⟨List.not_mem_nil, .nil⟩
  | cons component components inductionHypothesis =>
      cases component with
      | module pass =>
          exact Stage.separate_cons.2 ⟨nofun, fun _ _ both => both.1, inductionHypothesis⟩
      | loop pass =>
          unfold group
          split
          · next passes stages grouped =>
            rw [grouped] at inductionHypothesis
            obtain ⟨-, border, others⟩ := Stage.separate_cons.1 inductionHypothesis
            exact Stage.separate_cons.2 ⟨nofun, border, others⟩
          · next noGroup =>
            refine Stage.separate_cons.2 ⟨nofun, ?_, inductionHypothesis⟩
            rintro (passes | pass) isHead ⟨-, isGroup⟩
            · obtain ⟨stages, grouped⟩ := List.head?_eq_some_iff.1 isHead
              exact noGroup passes stages grouped
            · exact isGroup

/-- No stage comes from nothing. -/
theorem components_ne_nil_of_mem_group :
    ∀ stage ∈ group components, stage.components ≠ [] := by
  rintro (passes | pass) isStage none
  · obtain rfl := List.map_eq_nil_iff.1 none
    exact (separate_group components).nonempty isStage
  · exact List.cons_ne_nil _ _ none

/-- Loop passes in front of anything but a loop pass make a group of their own. -/
theorem group_append {passes : List (LoopPass σ)} (some : passes ≠ [])
    (apart : ∀ stage ∈ (group components).head?, ¬ stage.IsGroup) :
    group (passes.map .loop ++ components) = .loops passes :: group components := by
  induction passes with
  | nil => exact absurd rfl some
  | cons pass passes inductionHypothesis =>
      cases passes with
      | nil =>
          rw [List.map_singleton, List.singleton_append, group]
          split
          · next passes stages grouped =>
            exact absurd trivial (apart (.loops passes) (by rw [grouped]; rfl))
          · rfl
      | cons second passes =>
          rw [List.map_cons, List.cons_append, group, inductionHypothesis (List.cons_ne_nil _ _)]

/-- There is no other way to group with separate groups. -/
theorem group_flatMap (separate : Separate stages) :
    group (stages.flatMap Stage.components) = stages := by
  induction stages with
  | nil => rfl
  | cons stage stages inductionHypothesis =>
      obtain ⟨nonempty, border, others⟩ := Stage.separate_cons.1 separate
      have regrouped := inductionHypothesis others
      rw [List.flatMap_cons]
      cases stage with
      | module pass => exact congrArg (List.cons (.module pass)) regrouped
      | loops passes =>
          have some : passes ≠ [] := fun none => nonempty (congrArg Stage.loops none)
          have apart : ∀ stage ∈ (group (stages.flatMap Stage.components)).head?,
              ¬ stage.IsGroup := by
            rw [regrouped]
            exact fun stage isHead isGroup => border stage isHead ⟨trivial, isGroup⟩
          exact (group_append some apart).trans (congrArg (List.cons (.loops passes)) regrouped)

end Component

namespace Registry

/-! ## Registration -/

/-- The registered names, in order of registration. -/
def names (registry : Registry σ) : List String := registry.passes.map RegisteredPass.name

section Lookup

variable {registry : Registry σ} {name : String} {pass : RegisteredPass σ}

theorem find?_eq_none_iff : registry.find? name = none ↔ name ∉ registry.names := by
  simp [find?, names]

theorem isSome_find?_iff : (registry.find? name).isSome ↔ name ∈ registry.names := by
  rw [Option.isSome_iff_ne_none, ne_eq, find?_eq_none_iff, not_not]

/-- Among distinct names, a name leads to the pass that has it. -/
theorem find?_name_eq_some (distinct : registry.names.Nodup) (member : pass ∈ registry.passes) :
    registry.find? pass.name = some pass := by
  cases found : registry.find? pass.name with
  | none => exact absurd (List.mem_map_of_mem member) (find?_eq_none_iff.1 found)
  | some other =>
      have sameName : other.name = pass.name := by simpa using List.find?_some found
      have otherMember : other ∈ registry.passes := List.mem_of_find?_eq_some found
      rw [List.inj_on_of_nodup_map distinct otherMember member sameName]

end Lookup

/-- Registers a pass in the registry itself: the name is looked up, then the pass
is put behind the others.  A failure leaves the registry as the edits up to then
have made it. -/
def registerInPlace (pass : RegisteredPass σ) :
    ExceptT PipelineError (StateM (Registry σ)) Unit := do
  let registry ← get
  if (registry.find? pass.name).isSome then
    throw (.duplicatePass pass.name)
  modify fun registry => ⟨registry.passes ++ [pass]⟩

/-- The name is looked up before the edit, so a refused registration leaves the
registry as it was. -/
theorem registerInPlace_eq (pass : RegisteredPass σ) (registry : Registry σ) :
    (registerInPlace pass).run.run registry =
      match registry.register pass with
      | .error failure => (.error failure, registry)
      | .ok after => (.ok (), after) := by
  unfold register
  -- Reading the registry is a step of evaluation, which leaves the test of the name.
  show (ite _ _ _ : ExceptT PipelineError (StateM (Registry σ)) Unit) registry = _
  cases (registry.find? pass.name).isSome with
  | false => rfl
  | true => rfl

/-- A registration is refused if the name is taken, and appends the pass if not. -/
theorem registerInPlace_eq_ite (pass : RegisteredPass σ) (registry : Registry σ) :
    (registerInPlace pass).run.run registry =
      if pass.name ∈ registry.names then (.error (.duplicatePass pass.name), registry)
      else (.ok (), ⟨registry.passes ++ [pass]⟩) := by
  rw [registerInPlace_eq, register]
  by_cases taken : pass.name ∈ registry.names
  · rw [if_pos (isSome_find?_iff.2 taken), if_pos taken]
  · rw [if_neg (mt isSome_find?_iff.1 taken), if_neg taken]

/-- Registrations, refused or not, lead from the empty or the built-in registry to
this one. -/
inductive Reached : Registry σ → Prop
  | empty : Reached empty
  | builtin : Reached builtin
  | register {registry : Registry σ} (pass : RegisteredPass σ) (reached : Reached registry) :
      Reached ((registerInPlace pass).run.run registry).2

theorem Reached.nodup {registry : Registry σ} (reached : registry.Reached) :
    registry.names.Nodup := by
  induction reached with
  | empty => exact List.nodup_nil
  | builtin =>
      show [BarrierPass.name, "verify"].Nodup
      decide
  | @register registry pass reached inductionHypothesis =>
      rw [registerInPlace_eq_ite]
      split
      · exact inductionHypothesis
      · next isNew =>
        unfold names
        rw [List.map_append, List.map_singleton, ← List.concat_eq_append]
        exact inductionHypothesis.concat isNew

/-! ## Assembly -/

section Assembly

variable {registry : Registry σ} {names : List String} {options : PassOptions}
  {journal written : Journal σ} {pipeline : Pipeline σ} {passes : List (RegisteredPass σ)}

/-- A pipeline of the names goes through the passes that are registered under them,
in order, with each run of loop passes in one group. -/
structure Assembles (registry : Registry σ) (names : List String) (options : PassOptions)
    (pipeline : Pipeline σ) : Prop where
  maxRounds_eq : pipeline.maxRounds = options.maxRounds
  components_eq : ∃ passes : List (RegisteredPass σ),
    (∀ pass ∈ passes, pass ∈ registry.passes) ∧ passes.map RegisteredPass.name = names ∧
      pipeline.stages.flatMap Stage.components =
        passes.map fun pass => pass.builder.build options
  separate : Stage.Separate pipeline.stages

theorem Assembles.known (assembles : registry.Assembles names options pipeline) :
    ∀ name ∈ names, name ∈ registry.names := by
  obtain ⟨passes, members, rfl, -⟩ := assembles.components_eq
  exact List.forall_mem_map.2 fun pass listed => List.mem_map_of_mem (members pass listed)

/-- The pipeline of the names that are registered. -/
def pipelineOf (registry : Registry σ) (names : List String) (options : PassOptions) :
    Pipeline σ where
  stages := Component.group <|
    (names.filterMap registry.find?).map fun pass => pass.builder.build options
  maxRounds := options.maxRounds

theorem map_name_filterMap_find? (known : ∀ name ∈ names, name ∈ registry.names) :
    (names.filterMap registry.find?).map RegisteredPass.name = names := by
  induction names with
  | nil => rfl
  | cons name names inductionHypothesis =>
      obtain ⟨isKnown, others⟩ := List.forall_mem_cons.1 known
      obtain ⟨pass, found⟩ := Option.isSome_iff_exists.1 (isSome_find?_iff.2 isKnown)
      have sameName : pass.name = name := by simpa using List.find?_some found
      rw [List.filterMap_cons_some found, List.map_cons, sameName, inductionHypothesis others]

/-- Among distinct names, the names of some passes lead back to these passes. -/
theorem filterMap_find?_map_name (distinct : registry.names.Nodup)
    (members : ∀ pass ∈ passes, pass ∈ registry.passes) :
    (passes.map RegisteredPass.name).filterMap registry.find? = passes := by
  induction passes with
  | nil => rfl
  | cons pass passes inductionHypothesis =>
      obtain ⟨member, others⟩ := List.forall_mem_cons.1 members
      rw [List.map_cons, List.filterMap_cons_some (find?_name_eq_some distinct member),
        inductionHypothesis others]

theorem assembles_pipelineOf (known : ∀ name ∈ names, name ∈ registry.names) :
    registry.Assembles names options (registry.pipelineOf names options) where
  maxRounds_eq := rfl
  components_eq := by
    refine ⟨names.filterMap registry.find?, fun pass listed => ?_,
      map_name_filterMap_find? known, Component.flatMap_group _⟩
    obtain ⟨name, -, found⟩ := List.mem_filterMap.1 listed
    exact List.mem_of_find?_eq_some found
  separate := Component.separate_group _

/-- Among distinct names there is no other pipeline of the names. -/
theorem Assembles.eq_pipelineOf (distinct : registry.names.Nodup)
    (assembles : registry.Assembles names options pipeline) :
    pipeline = registry.pipelineOf names options := by
  obtain ⟨sameLimit, ⟨passes, members, rfl, flattened⟩, separate⟩ := assembles
  unfold pipelineOf
  rw [filterMap_find?_map_name distinct members, ← flattened, Component.group_flatMap separate,
    ← sameLimit]

/-- Every pass is built, or the first name that is not registered is reported. -/
theorem mapM_component (registry : Registry σ) (options : PassOptions) (names : List String) :
    names.mapM (registry.component options) =
      match names.find? (· ∉ registry.names) with
      | some name => .error (.unknownPass name)
      | none =>
          .ok ((names.filterMap registry.find?).map fun pass => pass.builder.build options) := by
  induction names with
  | nil => rfl
  | cons name names inductionHypothesis =>
      rw [List.mapM_cons, inductionHypothesis, component]
      cases found : registry.find? name with
      | none =>
          have unknown := find?_eq_none_iff.1 found
          rw [List.find?_cons_of_pos (by simpa using unknown)]
          rfl
      | some pass =>
          have known : name ∈ registry.names := isSome_find?_iff.1 (by rw [found]; rfl)
          rw [List.find?_cons_of_neg (by simpa using known), List.filterMap_cons_some found]
          cases names.find? (· ∉ registry.names) with
          | none => rfl
          | some other => rfl

theorem build_eq_match (registry : Registry σ) (names : List String) (options : PassOptions)
    (journal : Journal σ) :
    registry.build names options journal =
      match names.find? (· ∉ registry.names) with
      | some name => .error (.unknownPass name)
      | none =>
          .ok (registry.pipelineOf names options,
            journal.write (.pipelineBuilt (registry.pipelineOf names options).names)) := by
  unfold build assemble
  rw [mapM_component]
  cases names.find? (· ∉ registry.names) with
  | none => rfl
  | some name => rfl

theorem find?_unknown_eq_none_iff : names.find? (· ∉ registry.names) = none ↔
    ∀ name ∈ names, name ∈ registry.names := by
  simp

theorem build_eq_ok_iff (distinct : registry.names.Nodup) :
    registry.build names options journal = .ok (pipeline, written) ↔
      registry.Assembles names options pipeline ∧
        written = journal.write (.pipelineBuilt pipeline.names) := by
  rw [build_eq_match]
  constructor
  · intro built
    split at built
    · cases built
    · next none =>
      cases built
      exact ⟨assembles_pipelineOf (find?_unknown_eq_none_iff.1 none), rfl⟩
  · rintro ⟨assembles, rfl⟩
    obtain rfl := assembles.eq_pipelineOf distinct
    rw [find?_unknown_eq_none_iff.2 assembles.known]

theorem build_eq_error_iff {failure : PipelineError} :
    registry.build names options journal = .error failure ↔
      ∃ name, names.find? (· ∉ registry.names) = some name ∧ failure = .unknownPass name := by
  rw [build_eq_match]
  constructor
  · intro failed
    split at failed
    · next name first =>
      cases failed
      exact ⟨name, first, rfl⟩
    · cases failed
  · rintro ⟨name, first, rfl⟩
    rw [first]

theorem exists_build_eq_ok_iff :
    (∃ assembled, registry.build names options journal = .ok assembled) ↔
      ∀ name ∈ names, name ∈ registry.names := by
  rw [← find?_unknown_eq_none_iff, build_eq_match]
  cases names.find? (· ∉ registry.names) with
  | none => exact ⟨fun _ => rfl, fun _ => ⟨_, rfl⟩⟩
  | some name => exact ⟨fun ⟨_, built⟩ => absurd built nofun, nofun⟩

end Assembly

/-- In a registry that registrations have led to, the names are distinct, and a
further registration appends a pass under a new name or, if the name is taken, is
refused and changes nothing.  A list of names is assembled exactly if all of them
are registered, into the one pipeline that belongs to it; otherwise the first name
that is not registered is reported. -/
theorem Reached.assembly_exact {registry : Registry σ} (reached : registry.Reached) :
    registry.names.Nodup ∧
      (∀ pass, (registerInPlace pass).run.run registry =
        if pass.name ∈ registry.names then (.error (.duplicatePass pass.name), registry)
        else (.ok (), ⟨registry.passes ++ [pass]⟩)) ∧
      ∀ names options journal,
        ((∃ assembled, registry.build names options journal = .ok assembled) ↔
          ∀ name ∈ names, name ∈ registry.names) ∧
        (∀ failure, registry.build names options journal = .error failure ↔
          ∃ name, names.find? (· ∉ registry.names) = some name ∧
            failure = .unknownPass name) ∧
        ∀ pipeline written, registry.build names options journal = .ok (pipeline, written) ↔
          registry.Assembles names options pipeline ∧
            written = journal.write (.pipelineBuilt pipeline.names) :=
  ⟨reached.nodup, fun pass => registerInPlace_eq_ite pass registry, fun _ _ _ =>
    ⟨exists_build_eq_ok_iff, fun _ => build_eq_error_iff, fun _ _ =>
      build_eq_ok_iff reached.nodup⟩⟩

example : (builtin : Registry Unit).build ["verify", "licm"] .standard (.start ()) =
    .error (.unknownPass "licm") := rfl

end Registry

namespace ExtendedRegistry

/-- A pass over the module that leaves it alone. -/
def tidy : RegisteredPass Unit :=
  ⟨"tidy", "Looks at the module", .module fun _ => ⟨"tidy", fun state => ⟨false, state⟩⟩⟩

/-- The pass is registered next to the built-in ones; a second time it is refused. -/
def registry : Registry Unit :=
  ((Registry.registerInPlace tidy).run.run
    ((Registry.registerInPlace tidy).run.run .builtin).2).2

theorem reached : registry.Reached := .register tidy (.register tidy .builtin)

def names : List String := [BarrierPass.name, BarrierPass.name, "tidy", BarrierPass.name]

/-- Two listings share a group, and the third one makes a group of its own. -/
theorem listings_grouped :
    registry.Reached ∧ registry.names = [BarrierPass.name, "verify", "tidy"] ∧
    ∃ pipeline written, registry.build names .standard (.start ()) = .ok (pipeline, written) ∧
      registry.Assembles names .standard pipeline ∧
      pipeline.names = ["loop-pass-manager", "tidy", "loop-pass-manager"] := by
  obtain ⟨-, -, assembly⟩ := Registry.Reached.assembly_exact reached
  obtain ⟨isBuilt_iff, -, built_iff⟩ := assembly names .standard (.start ())
  obtain ⟨⟨pipeline, written⟩, built⟩ := isBuilt_iff.2 (by decide)
  refine ⟨reached, rfl, pipeline, written, built, ((built_iff pipeline written).1 built).1, ?_⟩
  cases built
  rfl

end ExtendedRegistry

end Workgroup

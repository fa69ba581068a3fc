import MAPFEncodings.Completeness.Roaming
import MAPFEncodings.Runs.Deltas

/-! # Goals which cannot be reached

Nothing checks that goals are reachable, and an agent whose goal is cut off only has to roam. So the
formulas of a call are refused exactly if there are no joint walks on which the agents roam. Only
the clauses against duplicates ever rule out all of them because of the goal itself, and only at a
time at which they apply.
-/

namespace MAPFEncodings

open Cnf PathFinding

/-- The goal of an agent cannot be reached from its start. -/
def Instance.CutOff (inst : Instance) (a : ℕ) : Prop :=
  ¬Relation.ReflTransGen inst.Adj (inst.startOf a) (inst.goalOf a)

namespace Settings

/-- The formulas of all deltas from the initial one on are unsatisfiable, also in runs on an object
with any past, and no run succeeds. -/
structure Refuses (set : Settings) (lib : Externals) : Prop where
  deltas : ∀ delta, set.inputDelta ≤ delta → ∀ σ, ¬Models σ
    ((ISolver.init { set with inputDelta := delta } []).loaded lib { set with inputDelta := delta })
  runs : ∀ old s, ISolver.Reachable lib set ISolver.Truthful (.reenter set old) s →
    ∀ σ, ¬Models σ (s.loaded lib set)
  fails : ∀ old final, ¬ISolver.Returns lib set ISolver.Truthful (.reenter set old) final 0

/-- The members which the first formula of a delta is made from. -/
def encoderAt (set : Settings) (delta : ℕ) : Encoder :=
  (ISolver.init { set with inputDelta := delta } []).encoder

/-- Joint walks on which the agents roam, for one delta of the call. -/
def Admits (set : Settings) (delta : ℕ) (pos : ℕ → ℕ → ℕ) : Prop :=
  (set.encoderAt delta).Roams pos ∧ (set.useAvoid = true → (set.encoderAt delta).Shuns pos)

/-- There are none, from the initial delta on. -/
def Blocked (set : Settings) : Prop :=
  ∀ delta, set.inputDelta ≤ delta → ∀ pos, ¬set.Admits delta pos

end Settings

section Requests

variable {req : Request} {set : Settings} (sets : req.Sets set)
include sets

theorem encoderAt_poses (delta : ℕ) : req.Poses (set.encoderAt delta) where
  inst := sets.inst
  agents := sets.ags
  vertices := by
    rw [← sets.inst]
    rfl

theorem unreached_of_cutOff {delta a : ℕ} (bound : a < req.ags) (cutOff : req.inst.CutOff a) :
    (set.encoderAt delta).Unreached a := by
  have poses := encoderAt_poses sets delta
  rw [← poses.inst] at cutOff
  exact not_le.mp fun known =>
    cutOff ((poses.fromStart (poses.agents ▸ bound)).nonneg_iff.mp known)

/-- Clauses against duplicates block a call if a goal which is cut off is due at time zero or
later. -/
theorem blocked_of_due (single : set.config.duplicates = .forbid) {a : ℕ} (bound : a < req.ags)
    (cutOff : req.inst.CutOff a)
    (due : ∀ delta, set.inputDelta ≤ delta → 0 ≤ (set.encoderAt delta).due a) : set.Blocked := by
  rintro delta le pos ⟨roams, -⟩
  have poses := encoderAt_poses sets delta
  have early := roams.single single a (poses.agents ▸ bound)
    (unreached_of_cutOff sets bound cutOff)
  exact not_le.mpr early (due delta le)

/-- With a positive initial delta it is. -/
theorem blocked_of_positive (single : set.config.duplicates = .forbid)
    (positive : 0 < set.inputDelta) {a : ℕ} (bound : a < req.ags) (cutOff : req.inst.CutOff a) :
    set.Blocked := by
  refine blocked_of_due sets single bound cutOff fun delta le => ?_
  have poses := encoderAt_poses sets delta
  have boundE : a < (set.encoderAt delta).agents := poses.agents ▸ bound
  have home := (poses.toGoal boundE).source_eq
  have delta_eq : (set.encoderAt delta).delta = delta := rfl
  unfold Encoder.due Encoder.lastTimestep
  rw [Instance.lastTimestep_eq home]
  cases kind : (set.encoderAt delta).config.costFunction with
  | mks =>
    have nonneg := poses.timesteps_nonneg
    simp only [Instance.lastTimestep, home]
    omega
  | soc =>
    have least := (poses.fromStart boundE).lower ((set.encoderAt delta).inst.goalOf a)
    rw [← poses.spLength_eq boundE] at least
    simp only [Instance.lastTimestep, home]
    omega

end Requests

namespace ISolver

variable {req : Request} {lib : Externals} {set : Settings} {b s : ISolver}

/-- An opened delta has the members of the call. -/
theorem Opens.alike (opens : Opens set b) (lib : Externals) :
    (b.formula lib set).encoder.Alike (set.encoderAt b.encoder.delta) := by
  obtain ⟨inst, config, agents, vertices, delta⟩ := opens.members lib
  exact ⟨inst, config, agents, vertices, delta⟩

/-- A model of the first formula of a delta shows joint walks on which the agents roam. -/
theorem Opens.exists_admits (opens : Opens set b) (sets : req.Sets set)
    (contract : AtMostContract lib.encodeAtMostK) {a : ℕ} (bound : a < req.ags)
    (cutOff : req.inst.CutOff a) {σ : Valuation} (models : Models σ (b.loaded lib set)) :
    ∃ pos, set.Admits b.encoder.delta pos := by
  have poses := opens.formula_poses sets lib
  have steps := opens.steps lib
  have ready := opens.ready sets lib
  have alike := opens.alike lib
  rw [(opens.formula_eq lib).2.1, models_append, models_append] at models
  have obeys := (Encoder.routeClauses_obeys contract ready).sound models.1.2
  have unreached : (set.encoderAt b.encoder.delta).Unreached a :=
    unreached_of_cutOff sets bound cutOff
  rw [Encoder.Unreached, ← alike.inst] at unreached
  obtain ⟨pos, roams, stands⟩ := obeys.exists_roams poses ready steps (fun eager => by
    have conflicts := models.1.1
    rw [Encoder.conflictClauses, eager] at conflicts
    exact ((Encoder.conflictClausesEager_expresses ready).models_iff σ).mp conflicts)
    ⟨a, poses.agents ▸ bound, unreached⟩
  refine ⟨pos, roams.congr alike, fun avoid => ?_⟩
  have units := models.2
  rw [if_pos avoid] at units
  exact (Encoder.shuns_of_models ready steps units stands).congr alike

/-- Joint walks on which the agents roam are a model of the first formula of a delta. -/
theorem exists_model_of_admits (sets : req.Sets set) (contract : AtMostContract lib.encodeAtMostK)
    {delta : ℕ} {pos : ℕ → ℕ → ℕ} (admits : set.Admits delta pos)
    (inside : set.useAvoid = true → (set.encoderAt delta).LooksInside) : ∃ σ, Models σ
      ((init { set with inputDelta := delta } []).loaded lib { set with inputDelta := delta }) := by
  let later := { set with inputDelta := delta }
  have laterSets : req.Sets later := ⟨sets.inst, sets.ags, sets.backend⟩
  have opens : Opens later (init later []) := ⟨rfl, rfl, rfl, rfl, le_rfl, le_rfl, rfl, rfl⟩
  have ready := opens.ready laterSets lib
  have alike := opens.alike lib
  have same : (set.encoderAt delta).Alike ((init later []).formula lib later).encoder :=
    ⟨alike.inst.symm, alike.config.symm, alike.agents.symm, alike.vertices.symm, alike.delta.symm⟩
  obtain ⟨encoder, clauses, -⟩ := opens.formula_eq lib
  rw [clauses]
  refine (admits.1.congr same).exists_model contract (opens.formula_poses laterSets lib) ready
    (opens.steps lib) ?_ (fun avoid => (admits.2 avoid).congr same) ?_
  · rw [encoder]
    exact Encoder.createVariables_free lib _ _
  · rw [encoder]
    exact fun avoid a v t => (inside avoid).covers (opens.poses laterSets) opens.pos

/-- Without joint walks on which the agents roam all formulas are refused. -/
theorem refuses_of_blocked (sets : req.Sets set) (contract : AtMostContract lib.encodeAtMostK)
    (cutOff : ∃ a < req.ags, req.inst.CutOff a) (blocked : set.Blocked) : set.Refuses lib := by
  obtain ⟨a, bound, cutOff⟩ := cutOff
  have runs : ∀ old s, Reachable lib set Truthful (reenter set old) s →
      ∀ σ, ¬Models σ (s.loaded lib set) := by
    intro old s reachable σ models
    obtain ⟨b, -, opens, -, stage⟩ := reachable.stage sets contract
    obtain ⟨extra, loaded, -⟩ := loaded_eq opens stage
    rw [loaded, models_append] at models
    obtain ⟨pos, admits⟩ := opens.exists_admits sets contract bound cutOff models.1
    exact blocked _ opens.delta pos admits
  refine ⟨fun delta le σ models => ?_, runs, ?_⟩
  · let later := { set with inputDelta := delta }
    have laterSets : req.Sets later := ⟨sets.inst, sets.ags, sets.backend⟩
    have opens : Opens later (init later []) := ⟨rfl, rfl, rfl, rfl, le_rfl, le_rfl, rfl, rfl⟩
    obtain ⟨pos, admits⟩ := opens.exists_admits laterSets contract bound cutOff models
    exact blocked delta le pos admits
  · rintro old final ⟨s, answer, reachable, allowed, done⟩
    have models := allowed (iteration_done sets.backend done).ret
    rw [queried_satSolver sets.backend, Option.getD_some] at models
    exact runs old s reachable answer.model models

end ISolver

/-- A call for a goal which cannot be reached is refused if there are no joint walks on which the
agents roam. If no location to be avoided is looked up outside of the windows, it is refused only
then. -/
theorem refuses_iff {req : Request} {lib : Externals} {set : Settings} (sets : req.Sets set)
    (contract : AtMostContract lib.encodeAtMostK) (cutOff : ∃ a < req.ags, req.inst.CutOff a) :
    (set.Blocked → set.Refuses lib) ∧
    ((set.useAvoid = true → ∀ delta, set.inputDelta ≤ delta → (set.encoderAt delta).LooksInside) →
      (set.Refuses lib ↔ set.Blocked)) := by
  refine ⟨ISolver.refuses_of_blocked sets contract cutOff, fun inside =>
    ⟨fun refuses delta le pos admits => ?_, ISolver.refuses_of_blocked sets contract cutOff⟩⟩
  obtain ⟨σ, models⟩ := @ISolver.exists_model_of_admits req lib set sets contract delta pos admits
    fun avoid => inside avoid delta le
  exact refuses.deltas delta le σ models

/-! ## A severed goal -/

/-- A call of `Solve` for all agents of a request. -/
def Request.settings (req : Request) (config : Config) (delta : ℕ) : Settings where
  backend := .sat
  config := config
  inst := req.inst
  timeout := 10
  useAvoid := false
  printPlan := false
  cnfFile := false
  ags := req.ags
  inputDelta := delta
  oneshot := false
  keepPlan := false

theorem Request.settings_sets (req : Request) (config : Config) (delta : ℕ) :
    req.Sets (req.settings config delta) where
  inst := congrArg (fun avoid => { req.inst with avoidLocations := avoid })
    req.avoidLocations_inst.symm
  ags := rfl
  backend := rfl

theorem Request.severed_cutOff : severed.inst.CutOff 0 := by
  have apart : severed.inst.firstTimestep 0 (severed.inst.goalOf 0) = -1 := by decide
  intro path
  have known := (@fromStart severed 0 (by decide)).nonneg_iff.mpr path
  omega

/-- The agent waits at its start. Only the clauses against duplicates can tell that its goal, which
is due at the same time, is another vertex. -/
theorem severed_admits {config : Config} {delta : ℕ}
    (loose : config.duplicates = .allow ∨ delta = 0) :
    (Request.severed.settings config delta).Admits delta fun _ _ => 0 := by
  let e := (Request.severed.settings config delta).encoderAt delta
  have only {a : ℕ} (bound : a < e.agents) : a = 0 := Nat.lt_one_iff.mp bound
  have alone {a b : ℕ} (boundA : a < e.agents) (boundB : b < e.agents) : a = b :=
    (only boundA).trans (only boundB).symm
  have apart : Scenario.severed.inst.goalOf 0 = 1 := by decide
  have unreached : Scenario.severed.inst.firstTimestep 0 (Scenario.severed.inst.goalOf 0) < 0 := by
    decide
  have still {a v : ℕ} {dir : Dir} {t : ℤ} (step : e.Steps (fun _ _ => 0) a v dir t) :
      dir = .wait := by
    obtain ⟨n, -, -, rfl, next⟩ := step
    exact Scenario.severed.numbered.dir_unique (v := 0) (u := 0) (by decide) next rfl
  refine ⟨⟨fun a bound => ?_, fun a _ n _ => ⟨.wait, rfl⟩, fun a bound reached => ?_,
    fun _ a boundA b boundB t late here => ?_, fun forbid a bound _ => ?_, fun _ _ => ?_,
    fun _ a _ b _ v dir dir' t step step' => (still step).trans (still step').symm,
    fun _ a boundA b boundB distinct => absurd (alone boundA boundB) distinct, fun _ => ?_⟩,
    fun avoid => by cases avoid⟩
  · rw [only bound]
    exact (show 0 = Scenario.severed.inst.startOf 0 by decide)
  · rw [only bound] at reached
    exact absurd unreached reached
  · rw [only boundA] at late here
    rw [only boundB] at here
    obtain ⟨n, -, -, here⟩ | ⟨-, due, -⟩ := here
    · exact absurd (here.trans apart) zero_ne_one
    · exact absurd due late.ne'
  · rcases loose with allow | rfl
    · exact absurd (forbid.symm.trans allow) (by decide)
    · rw [only bound]
      change Scenario.severed.inst.lastTimestep 0 (Scenario.severed.inst.goalOf 0)
        (Scenario.severed.inst.getMksLB 1 + 0) 0 config.costFunction < 0
      cases config.costFunction <;> decide
  · change ∑ a ∈ Finset.range 1, _ ≤ _
    rw [Finset.sum_range_one]
    exact delay_le _ _
  · unfold Encoder.KeepsApart
    cases e.config.movement <;> cases e.config.variableKind <;> dsimp only
    · exact fun a boundA b boundB distinct => absurd (alone boundA boundB) distinct
    · exact fun a boundA b boundB distinct => absurd (alone boundA boundB) distinct
    · rintro v - dir u moves - t ⟨⟨a, -, step⟩, -⟩
      exact moves (still step)
    · exact fun a boundA b boundB distinct => absurd (alone boundA boundB) distinct
    · exact fun a boundA b boundB distinct => absurd (alone boundA boundB) distinct
    · rintro v - dir u - uDir moves t ⟨-, a, -, step⟩
      exact moves (still step)

/-- A call with duplicates returns success although the goal cannot be reached. -/
theorem severed_accepted :
    let set := Request.severed.settings ⟨.at_, .mks, .parallel, .eager, .allow⟩ 1
    Request.severed.inst.CutOff 0 ∧
      ∃ final, ISolver.Returns .binomial set ISolver.CaDiCaL (.init set []) final 0 := by
  intro set
  refine ⟨Request.severed_cutOff, ?_⟩
  obtain ⟨σ, models⟩ := @ISolver.exists_model_of_admits .severed .binomial set
    (Request.severed.settings_sets _ 1) binomialAtMost_contract 1 _ (severed_admits (.inl rfl))
    (fun avoid => by cases avoid)
  have limit : (0 : ℤ) ≤ 10 * 1000 := by decide
  obtain ⟨final, done⟩ := @ISolver.exists_done_of_found .binomial set (.init set [])
    ⟨0, 0, 10, σ, false⟩ rfl rfl rfl ⟨limit, limit⟩
  refine ⟨final, _, _, .start, .inl ⟨rfl, ?_⟩, done⟩
  rwa [ISolver.queried_satSolver rfl]

/-- The severed agent with another one, which can reach its goal. -/
def Scenario.bystander : Scenario where
  input := .data [[1, -1, 1, 1]]
  starts := [⟨0, 0⟩, ⟨0, 2⟩]
  goals := [⟨0, 2⟩, ⟨0, 3⟩]
  complete := by decide
  paired := by decide
  startsFree := by decide
  goalsFree := by decide
  calls := [2]
  callsFit := by decide

def Request.bystander : Request := ⟨.bystander, 2, by decide⟩

theorem Request.bystander_cutOff : bystander.inst.CutOff 0 := by
  have apart : bystander.inst.firstTimestep 0 (bystander.inst.goalOf 0) = -1 := by decide
  intro path
  have known := (@fromStart bystander 0 (by decide)).nonneg_iff.mpr path
  omega

/-- The severed goal is accepted with duplicates, and refused without them if its time is not
negative: from the first positive delta on, or if another agent needs a step. -/
theorem refuses_iff_severed :
    ¬(Request.severed.settings ⟨.at_, .mks, .parallel, .eager, .allow⟩ 1).Refuses .binomial ∧
    ¬(Request.severed.settings ⟨.shift, .soc, .pebble, .lazy, .forbid⟩ 0).Refuses .binomial ∧
    (Request.severed.settings ⟨.at_, .mks, .parallel, .eager, .forbid⟩ 1).Refuses .binomial ∧
    (Request.bystander.settings ⟨.at_, .mks, .parallel, .eager, .forbid⟩ 0).Refuses .binomial := by
  have cutOff : ∃ a < Request.severed.ags, Request.severed.inst.CutOff a :=
    ⟨0, by decide, Request.severed_cutOff⟩
  have severed (config : Config) (delta : ℕ) := @refuses_iff .severed .binomial _
    (Request.severed.settings_sets config delta) binomialAtMost_contract cutOff
  have accepted {config : Config} {delta : ℕ} (loose : config.duplicates = .allow ∨ delta = 0) :
      ¬(Request.severed.settings config delta).Refuses .binomial := fun refuses =>
    ((severed config delta).2 fun avoid => by cases avoid).mp refuses delta le_rfl _
      (severed_admits loose)
  refine ⟨accepted (.inl rfl), accepted (.inr rfl), (severed _ 1).1 ?_, ?_⟩
  · exact blocked_of_positive (Request.severed.settings_sets _ 1) rfl Nat.one_pos (by decide)
      Request.severed_cutOff
  · have sets := Request.bystander.settings_sets ⟨.at_, .mks, .parallel, .eager, .forbid⟩ 0
    refine (@refuses_iff _ .binomial _ sets binomialAtMost_contract
      ⟨0, by decide, Request.bystander_cutOff⟩).1 ?_
    refine blocked_of_due sets rfl (by decide) Request.bystander_cutOff fun delta _ => ?_
    change 0 ≤ (2 + (delta : ℤ)) - 0 - 1
    omega

end MAPFEncodings

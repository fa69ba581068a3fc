import MAPFEncodings.Completeness.Plans
import MAPFEncodings.Refinement.Progress
import MAPFEncodings.Runs.Iteration

/-! # Invariants of a run of `Solve`

Between two iterations the solver is either empty, before the first call for a delta, or it holds
the clauses of that delta. In both cases the recorded conflicts lie inside the windows of the
current delta. When the solver is called it therefore holds all clauses besides the conflict
clauses, and otherwise only clauses of the eager encoding.
-/

namespace MAPFEncodings

open Cnf PathFinding

/-- The settings of a call of `Solve` for a task. -/
structure Task.Sets (task : Task) (set : Settings) : Prop where
  inst : set.inst = task.inst
  ags : set.ags = task.ags
  backend : set.backend = .sat

/-- A call of `Solve(2, 0, false, true)` for the small task. -/
def Settings.rows (config : Config) : Settings where
  backend := .sat
  config := config
  inst := Scenario.rows.inst
  timeout := 10
  useAvoid := false
  printPlan := false
  cnfFile := false
  ags := 2
  inputDelta := 0
  oneshot := false
  keepPlan := true

theorem Task.rows_sets (config : Config) : Task.rows.Sets (.rows config) := ⟨rfl, rfl, rfl⟩

/-- The same call for two agents which would have to pass through each other. -/
def Settings.swapping (config : Config) : Settings :=
  { Settings.rows config with inst := Scenario.swapping.inst }

theorem Task.swapping_sets (config : Config) : Task.swapping.Sets (.swapping config) :=
  ⟨rfl, rfl, rfl⟩

namespace ISolver

variable {task : Task} {lib : Externals} {set : Settings} {s s' : ISolver} {answer : Answer} {hi : ℤ}

/-- Before the first call for a delta. -/
structure Fresh (task : Task) (set : Settings) (s : ISolver) : Prop where
  poses : task.Poses s.encoder
  config : s.encoder.config = set.config
  pos : 1 ≤ s.nrVars
  recorded : task.DistinctGoals → task.Recorded s.encoder.deadline s.conflicts
  satSolver : s.satSolver = none
  firstTry : s.firstTry = true

/-- The clauses over the tables of an encoder, and possibly some of its conflict clauses. -/
structure Holds (task : Task) (lib : Externals) (e : Encoder) (hi : ℤ) (F : List Clause) : Prop where
  routes : ∀ c ∈ (e.routeClauses lib hi).1, c ∈ F
  within : task.DistinctGoals →
    ∀ c ∈ F, c ∈ (e.routeClauses lib hi).1 ∨ Occurs c e.conflictClausesEager

/-- Before a further call for the same delta. -/
structure Resumed (task : Task) (lib : Externals) (set : Settings) (hi : ℤ) (s : ISolver) : Prop where
  poses : task.Poses s.encoder
  config : s.encoder.config = set.config
  prepared : s.encoder.Prepared s.encoder.deadline hi
  le : hi ≤ s.nrVars
  recorded : task.DistinctGoals → task.Recorded s.encoder.deadline s.conflicts
  holds : Holds task lib s.encoder hi (s.satSolver.getD [])
  lazy : set.config.lazyConst = .lazy
  firstTry : s.firstTry = false

/-- When the solver is called. -/
structure Called (task : Task) (lib : Externals) (set : Settings) (hi : ℤ) (s : ISolver) : Prop where
  poses : task.Poses (s.formula lib set).encoder
  config : (s.formula lib set).encoder.config = set.config
  prepared : (s.formula lib set).encoder.Prepared (s.formula lib set).encoder.deadline hi
  le : hi ≤ (s.formula lib set).lit
  recorded : task.DistinctGoals → task.Recorded (s.formula lib set).encoder.deadline s.conflicts
  holds : Holds task lib (s.formula lib set).encoder hi (s.loaded lib set)
  eager : set.config.lazyConst = .eager →
    ∀ c ∈ (s.formula lib set).encoder.conflictClausesEager, c ∈ s.loaded lib set

/-! ## Building -/

theorem Fresh.called (contract : AtMostContract lib.encodeAtMostK) (fresh : Fresh task set s) :
    Called task lib set (s.encoder.createVariables lib s.nrVars).2 s := by
  have none : s.encoder.inst.avoidLocations = [] := by
    rw [fresh.poses.inst]
    exact task.avoidLocations_inst
  obtain ⟨encoder, clauses, last⟩ := Encoder.createFormula_first lib s.nrVars none
    set.useAvoid s.conflicts
  have first : s.formula lib set =
      s.encoder.createFormula lib true set.useAvoid s.nrVars s.conflicts := by
    rw [formula, fresh.firstTry]
  rw [← first] at encoder clauses last
  have members := s.encoder.createVariables_members lib s.nrVars
  have prepared := (Encoder.createVariables_prepared lib s.nrVars fresh.poses fresh.pos).1
  rw [← s.encoder.deadline_createVariables lib s.nrVars, ← encoder] at prepared
  have poses : task.Poses (s.formula lib set).encoder := by
    rw [encoder]
    exact Encoder.createVariables_poses fresh.poses
  have recorded : task.DistinctGoals →
      task.Recorded (s.formula lib set).encoder.deadline s.conflicts := by
    rw [encoder, Encoder.deadline_createVariables]
    exact fresh.recorded
  have loaded : s.loaded lib set = (s.formula lib set).encoder.conflictClauses s.conflicts ++
      ((s.formula lib set).encoder.routeClauses lib (s.encoder.createVariables lib s.nrVars).2).1 := by
    rw [ISolver.loaded, fresh.satSolver, clauses, encoder]
    rfl
  refine ⟨poses, ?_, prepared, ?_, recorded, ⟨fun c member => ?_, fun goals c member => ?_⟩, ?_⟩
  · rw [encoder, members.2.1, fresh.config]
  · rw [last, ← encoder]
    exact (Encoder.routeClauses_block contract prepared).le
  · rw [loaded]
    exact List.mem_append_right _ member
  · rw [loaded] at member
    rcases List.mem_append.mp member with conflict | route
    · exact .inr (Encoder.conflictClauses_occurs poses prepared (fun _ => recorded goals)
        conflict)
    · exact .inl route
  · intro eager c member
    rw [loaded]
    apply List.mem_append_left _
    rwa [Encoder.conflictClauses, encoder, members.2.1, fresh.config, eager, ← encoder]

theorem Resumed.called (resumed : Resumed task lib set hi s) : Called task lib set hi s := by
  have again : s.formula lib set =
      s.encoder.createFormula lib false set.useAvoid s.nrVars s.conflicts := by
    rw [formula, resumed.firstTry]
  obtain ⟨encoder, clauses, last⟩ := s.encoder.createFormula_again lib s.nrVars
    set.useAvoid s.conflicts
  rw [← again] at encoder clauses last
  refine ⟨encoder ▸ resumed.poses, encoder ▸ resumed.config, encoder ▸ resumed.prepared,
    last ▸ resumed.le, encoder ▸ resumed.recorded, ⟨fun c member => ?_, fun goals c member => ?_⟩, ?_⟩
  · rw [encoder] at member
    exact List.mem_append_left _ (resumed.holds.routes c member)
  · rw [encoder]
    rcases List.mem_append.mp member with old | new
    · exact resumed.holds.within goals c old
    · rw [clauses] at new
      exact .inr (Encoder.conflictClauses_occurs resumed.poses resumed.prepared
        (fun _ => resumed.recorded goals) new)
  · intro eager
    exact absurd (eager.symm.trans resumed.lazy) (by decide)

/-! ## Models -/

namespace Called

variable (called : Called task lib set hi s)
include called

theorem routes (contract : AtMostContract lib.encodeAtMostK) {σ : Valuation}
    (models : Models σ (s.loaded lib set)) :
    (s.formula lib set).encoder.Routes (s.formula lib set).encoder.deadline σ :=
  (Encoder.routeClauses_block contract called.prepared).sound
    (models.mono called.holds.routes)

/-- A model is read as a plan within the bound of the cost, which may have conflicts. -/
theorem exists_follows (contract : AtMostContract lib.encodeAtMostK) {σ : Valuation}
    (models : Models σ (s.loaded lib set)) : ∃ pos,
      (s.formula lib set).encoder.Follows σ (s.formula lib set).encoder.deadline pos ∧
        ((s.formula lib set).encoder.readPlan σ).Shows task.ags task.inst.goalOf pos := by
  obtain ⟨pos, follows, extracts⟩ := (called.routes contract models).exists_follows called.prepared
  have shows := extracts.shows called.prepared.setting.fits called.prepared.together
  rw [called.poses.agents, called.poses.inst] at shows
  exact ⟨pos, follows, shows⟩

/-- Every cheap valid plan has a model. -/
theorem complete (contract : AtMostContract lib.encodeAtMostK) (goals : task.DistinctGoals)
    {pos : ℕ → ℕ → ℕ} (valid : task.Valid set.config.movement pos)
    (cheap : (task.cost pos set.config.costFunction : ℤ) ≤
      task.lowerBound set.config.costFunction + (s.formula lib set).encoder.delta) :
    ∃ σ, Models σ (s.loaded lib set) := by
  have block := (Encoder.routeClauses_block contract called.prepared).withBase
    (Encoder.conflictClausesEager_expresses called.prepared.ready)
  rw [← called.config] at valid cheap
  obtain ⟨σ, models, -⟩ := called.prepared.exists_model called.poses block valid cheap
  rw [models_append] at models
  refine ⟨σ, fun c member => ?_⟩
  rcases called.holds.within goals c member with route | conflict
  · exact models.1 c route
  · exact conflict.holds models.2

end Called

/-! ## Runs -/

/-- A plan with conflicts leads to a further call for the same delta. -/
theorem Called.resumed (called : Called task lib set hi s) (sat : set.backend = .sat)
    (contract : AtMostContract lib.encodeAtMostK)
    (truthful : Truthful (s.queried lib set) answer)
    (conflicted : Conflicted lib set s answer s') : Resumed task lib set hi s' := by
  have encoder : s'.encoder = (s.formula lib set).encoder :=
    conflicted.encoder.trans (queried_encoder sat)
  have models := truthful conflicted.ret
  rw [queried_satSolver sat, Option.getD_some] at models
  have solver : s'.satSolver.getD [] = s.loaded lib set := by
    rw [conflicted.satSolver, queried_satSolver sat, Option.getD_some]
  obtain ⟨pos, follows, len, -, shown, -⟩ := called.exists_follows contract models
  refine ⟨encoder ▸ called.poses, encoder ▸ called.config, encoder ▸ called.prepared, ?_,
    fun goals => ?_, ?_, conflicted.lazy, conflicted.firstTry⟩
  · rw [conflicted.nrVars, queried_nrVars sat]
    exact called.le
  · rw [encoder, conflicted.conflicts, queried_encoder sat, shown]
    exact follows.recorded called.poses called.prepared (called.routes contract models) goals _ len
  · rw [encoder, solver]
    exact called.holds

/-- A failed call is followed by the next delta, for which all windows are larger. -/
theorem Called.advanced (called : Called task lib set hi s) (sat : set.backend = .sat)
    (advanced : Advanced lib set s answer s') : Fresh task set s' := by
  have encoder := advanced.encoder
  rw [queried_encoder sat] at encoder
  refine ⟨?_, ?_, ?_, fun goals => ?_, advanced.satSolver, advanced.firstTry⟩
  · rw [encoder]
    exact ⟨called.poses.inst, called.poses.agents, called.poses.vertices⟩
  · rw [encoder]
    exact called.config
  · rw [advanced.nrVars, queried_nrVars sat]
    exact called.prepared.pos.trans called.le
  · rw [advanced.conflicts]
    refine (called.recorded goals).mono fun a _ => ?_
    rw [encoder]
    unfold Encoder.deadline Encoder.timesteps Encoder.cleanUp
    dsimp only
    split <;> exact Int.toNat_le_toNat (by push_cast; omega)

theorem init_fresh (sets : task.Sets set) (cnfPrintable : List Line) :
    Fresh task set (init set cnfPrintable) where
  poses := ⟨sets.inst, sets.ags, by rw [← sets.inst]; rfl⟩
  config := rfl
  pos := le_rfl
  recorded _ := ⟨by simp [init], by simp [init], by simp [init]⟩
  satSolver := rfl
  firstTry := rfl

/-- Every state at the head of the loop is of one of the two kinds. -/
theorem Reachable.fresh_or_resumed (sets : task.Sets set)
    (contract : AtMostContract lib.encodeAtMostK) {cnfPrintable : List Line}
    (reachable : Reachable lib set Truthful (init set cnfPrintable) s) :
    Fresh task set s ∨ ∃ hi, Resumed task lib set hi s := by
  induction reachable with
  | start => exact .inl (init_fresh sets cnfPrintable)
  | step _ allowed again ih =>
    obtain ⟨hi, called⟩ : ∃ hi, Called task lib set hi _ := by
      rcases ih with fresh | ⟨hi, resumed⟩
      · exact ⟨_, fresh.called contract⟩
      · exact ⟨hi, resumed.called⟩
    rcases iteration_again sets.backend again with conflicted | advanced
    · exact .inr ⟨hi, called.resumed sets.backend contract allowed conflicted⟩
    · exact .inl (called.advanced sets.backend advanced)

theorem Reachable.called (sets : task.Sets set) (contract : AtMostContract lib.encodeAtMostK)
    {cnfPrintable : List Line}
    (reachable : Reachable lib set Truthful (init set cnfPrintable) s) :
    ∃ hi, Called task lib set hi s := by
  rcases reachable.fresh_or_resumed sets contract with fresh | ⟨hi, resumed⟩
  · exact ⟨_, fresh.called contract⟩
  · exact ⟨hi, resumed.called⟩

/-- A more restricted environment reaches fewer states. -/
theorem Reachable.mono {oracle weaker : Oracle} (weak : ∀ q answer, oracle q answer → weaker q answer)
    {start : ISolver} (reachable : Reachable lib set oracle start s) :
    Reachable lib set weaker start s := by
  induction reachable with
  | start => exact .start
  | step _ allowed again ih => exact .step ih (weak _ _ allowed) again

theorem CaDiCaL.truthful {q : ISolver} (allowed : CaDiCaL q answer) : Truthful q answer := by
  intro ret
  rcases allowed with found | none
  · exact found.2
  · exact absurd (ret.symm.trans none.1) (by decide)

end ISolver

end MAPFEncodings

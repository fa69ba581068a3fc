import MAPFEncodings.Soundness.Plans

/-! # Soundness of the eager encodings

Every model of the formula is read as a valid plan within the bound of the cost. The formula may be
built after any others, so its first variable is arbitrary.
-/

namespace MAPFEncodings

open Cnf PathFinding

section

variable {lib : Externals} {task : Task} {e : Encoder} {lit : ℤ} {σ : Valuation}

/-- A model of the clauses over prepared tables shows a valid plan. -/
theorem Encoder.Prepared.exists_plan {hi : ℤ} (poses : task.Poses e)
    (prepared : e.Prepared e.deadline hi) (routes : e.Routes e.deadline σ) (apart : e.Apart σ) :
    ∃ pos, (e.readPlan σ).Shows task.ags task.inst.goalOf pos ∧ e.Follows σ e.deadline pos ∧
      task.Valid e.config.movement pos ∧ (task.cost pos e.config.costFunction : ℤ) ≤
        task.lowerBound e.config.costFunction + e.delta := by
  obtain ⟨pos, follows, extracts⟩ := routes.exists_follows prepared
  have shows := extracts.shows prepared.setting.fits prepared.together
  rw [poses.agents, poses.inst] at shows
  exact ⟨pos, shows, follows, follows.valid poses prepared routes.regulated apart,
    follows.cost_le poses prepared routes.regulated⟩

/-- A model of an eager formula shows a valid plan within the bound of the cost. -/
theorem createFormula_sound (contract : AtMostContract lib.encodeAtMostK)
    (poses : task.Poses e) (eager : e.config.lazyConst = .eager) (pos : 1 ≤ lit) {useAvoid : Bool}
    {conflicts : Conflicts}
    (models : Models σ (e.createFormula lib true useAvoid lit conflicts).clauses) :
    ∃ pos, ((e.createFormula lib true useAvoid lit conflicts).encoder.readPlan σ).Shows
        task.ags task.inst.goalOf pos ∧ task.Valid e.config.movement pos ∧
      (e.createFormula lib true useAvoid lit conflicts).encoder.Follows σ e.deadline pos ∧
      (task.cost pos e.config.costFunction : ℤ) ≤
        task.lowerBound e.config.costFunction + e.delta := by
  obtain ⟨prepared, block⟩ := e.createFormula_eager contract poses eager pos useAvoid conflicts
  obtain ⟨routes, apart⟩ := block.sound models
  obtain ⟨pos, shows, follows, valid, cheap⟩ :=
    prepared.exists_plan (Encoder.createVariables_poses poses) routes apart
  obtain ⟨-, config, -, -, delta⟩ := e.createVariables_members lib lit
  rw [config] at valid
  rw [config, delta] at cheap
  rw [e.deadline_createVariables] at follows
  exact ⟨pos, shows, valid, follows, cheap⟩

/-- Every model of an eager formula is read as a valid plan, wherever it puts further copies of the
agents. -/
theorem readPlan_valid (contract : AtMostContract lib.encodeAtMostK) (poses : task.Poses e)
    (eager : e.config.lazyConst = .eager) (pos : 1 ≤ lit) (useAvoid : Bool) (conflicts : Conflicts)
    (models : Models σ (e.createFormula lib true useAvoid lit conflicts).clauses) :
    ∃ pos, ((e.createFormula lib true useAvoid lit conflicts).encoder.readPlan σ).Shows
        task.ags task.inst.goalOf pos ∧ task.Valid e.config.movement pos := by
  obtain ⟨pos, shows, valid, -⟩ := createFormula_sound contract poses eager pos models
  exact ⟨pos, shows, valid⟩

theorem readPlan_valid_rows : let f := Formula.rows ⟨.at_, .mks, .parallel, .eager, .allow⟩ 1
    ∃ pos, (f.encoder.readPlan fun _ => true).Shows 2 Task.rows.inst.goalOf pos ∧
      Task.rows.Valid .parallel pos :=
  readPlan_valid binomialAtMost_contract (Task.rows_poses _ _) rfl le_rfl false ⟨[], [], []⟩
    (by decide +kernel)

/-- With pass variables the plan keeps every entered position and every traversed edge true, although
nothing ties the variable of an edge to its tail. -/
theorem readPlan_pass (contract : AtMostContract lib.encodeAtMostK) (poses : task.Poses e)
    (kind : e.config.variableKind = .pass) (eager : e.config.lazyConst = .eager) (pos : 1 ≤ lit)
    (useAvoid : Bool) (conflicts : Conflicts)
    (models : Models σ (e.createFormula lib true useAvoid lit conflicts).clauses) :
    let e' := (e.createFormula lib true useAvoid lit conflicts).encoder
    ∃ pos, (e'.readPlan σ).Shows task.ags task.inst.goalOf pos ∧ task.Valid e.config.movement pos ∧
      ∀ a < task.ags, ∀ t, t < e.deadline a → e'.At σ a (pos a t) t ∧ ∃ dir,
        task.inst.getNeighbor (pos a t) dir = some (pos a (t + 1)) ∧ e'.Pass σ a (pos a t) dir t := by
  obtain ⟨pos, shows, valid, follows, -⟩ := createFormula_sound contract poses eager pos models
  have members := e.createVariables_members lib lit
  refine ⟨pos, shows, valid, fun a bound t before => ?_⟩
  have boundA : a < (e.createVariables lib lit).1.agents := by rwa [members.2.2.1, poses.agents]
  rw [← poses.inst, ← members.1]
  exact ⟨follows.positions a boundA t before.le,
    follows.passes (members.2.1 ▸ kind) boundA before⟩

theorem readPlan_pass_rows : let f := Formula.rows ⟨.pass, .soc, .pebble, .eager, .forbid⟩ 0
    ∃ pos, (f.encoder.readPlan fun _ => true).Shows 2 Task.rows.inst.goalOf pos ∧
      Task.rows.Valid .pebble pos ∧ ∀ a < 2, ∀ t, t < (Encoder.rows f.encoder.config 0).deadline a →
        f.encoder.At (fun _ => true) a (pos a t) t ∧ ∃ dir,
          Task.rows.inst.getNeighbor (pos a t) dir = some (pos a (t + 1)) ∧
            f.encoder.Pass (fun _ => true) a (pos a t) dir t :=
  readPlan_pass binomialAtMost_contract (Task.rows_poses _ _) rfl rfl le_rfl false ⟨[], [], []⟩
    (by decide +kernel)

/-- With shift variables the plan follows variables which all agents share. It has no swapping
conflicts in either kind of movement. -/
theorem readPlan_shift (contract : AtMostContract lib.encodeAtMostK) (poses : task.Poses e)
    (kind : e.config.variableKind = .shift) (eager : e.config.lazyConst = .eager) (pos : 1 ≤ lit)
    (useAvoid : Bool) (conflicts : Conflicts)
    (models : Models σ (e.createFormula lib true useAvoid lit conflicts).clauses) :
    let e' := (e.createFormula lib true useAvoid lit conflicts).encoder
    ∃ pos, (e'.readPlan σ).Shows task.ags task.inst.goalOf pos ∧ task.Valid e.config.movement pos ∧
      task.problem.SwapFree pos ∧
      ∀ a < task.ags, ∀ t, t < e.deadline a → e'.At σ a (pos a t) t ∧ ∃ dir,
        task.inst.getNeighbor (pos a t) dir = some (pos a (t + 1)) ∧ e'.Shifts σ (pos a t) dir t := by
  obtain ⟨pos, shows, valid, follows, -⟩ := createFormula_sound contract poses eager pos models
  have members := e.createVariables_members lib lit
  refine ⟨pos, shows, valid, valid.swapFree, fun a bound t before => ?_⟩
  have boundA : a < (e.createVariables lib lit).1.agents := by rwa [members.2.2.1, poses.agents]
  rw [← poses.inst, ← members.1]
  exact ⟨follows.positions a boundA t before.le,
    follows.shifts (members.2.1 ▸ kind) boundA before⟩

theorem readPlan_shift_rows : let f := Formula.rows ⟨.shift, .soc, .pebble, .eager, .forbid⟩ 0
    ∃ pos, (f.encoder.readPlan fun _ => true).Shows 2 Task.rows.inst.goalOf pos ∧
      Task.rows.Valid .pebble pos ∧ Task.rows.problem.SwapFree pos ∧
        ∀ a < 2, ∀ t, t < (Encoder.rows f.encoder.config 0).deadline a →
          f.encoder.At (fun _ => true) a (pos a t) t ∧ ∃ dir,
            Task.rows.inst.getNeighbor (pos a t) dir = some (pos a (t + 1)) ∧
              f.encoder.Shifts (fun _ => true) (pos a t) dir t :=
  readPlan_shift binomialAtMost_contract (Task.rows_poses _ _) rfl rfl le_rfl false ⟨[], [], []⟩
    (by decide +kernel)

end

end MAPFEncodings

import MAPFEncodings.Soundness.Agreement

/-! # The clauses which `CreateMove_LeaveVertex_Pass` would add

No encoding calls this generator. Its clauses exclude no plan, since a pass variable is true in the
model of a plan only where the agent is. Together with the clauses against duplicates they leave
only one value for every pass variable.
-/

namespace MAPFEncodings

open Cnf PathFinding

namespace Encoder

variable {e : Encoder} {σ : Valuation} {L : ℕ → ℕ} {hi : ℤ} {pos : ℕ → ℕ → ℕ}

/-- Passes start where the agent is. -/
def Leaves (e : Encoder) (σ : Valuation) : Prop :=
  ∀ a < e.agents, ∀ v < e.vertices, ∀ dir t, e.Pass σ a v dir t → e.At σ a v t

theorem createMoveLeaveVertexPass_expresses (windows : e.Windows) {lo : ℤ}
    (readyAt : e.AtReady lo) (ready : e.PassReady hi) (le : lo ≤ hi) :
    Expresses hi e.createMoveLeaveVertexPass e.Leaves := by
  have tail {a v : ℕ} {dir : Dir} {t : ℤ} (boundA : a < e.agents) (boundV : v < e.vertices)
      (covers : (e.passEntry a v dir).Covers t) : (e.atEntry a v).Covers t := by
    obtain ⟨-, -, here, -⟩ := (windows.pass_covers_iff readyAt ready boundA boundV).mp covers
    exact here
  refine (Expresses.flatMap fun v memV => .flatMap fun p memP => .flatMap fun a memA =>
    .skip fun someA => .map fun t memT => .imp (ready.isVar a ?_ v ?_ p.1 t ?_)
      ((readyAt.isVar a ?_ v ?_ t ?_).mono le)).congr fun σ => ?_
  all_goals simp only [List.mem_range, Int.mem_range_iff, Grid.mem_neighbors_iff, Dir.mem_all,
    true_and] at *
  · exact memA
  · exact memV
  · exact ⟨someA, by omega, by omega⟩
  · exact memA
  · exact memV
  · exact tail memA memV ⟨someA, by omega, by omega⟩
  · constructor
    · rintro all a boundA v boundV dir t ⟨covers, holds⟩
      have window := covers.2
      obtain ⟨u, next, -⟩ := (windows.pass_covers_iff readyAt ready boundA boundV).mp covers
      exact ⟨tail boundA boundV covers,
        all v boundV (dir, u) next a boundA covers.1 t (by dsimp only; omega) holds⟩
    · rintro all v boundV ⟨dir, u⟩ next a boundA someA t bounds holds
      dsimp only at bounds someA
      exact (all a boundA v boundV dir t ⟨⟨someA, by omega, by omega⟩, holds⟩).2

/-- The model of a plan keeps the clauses. -/
theorem Represents.leaves (represents : e.Represents σ L pos) (kind : e.config.variableKind = .pass) :
    e.Leaves σ := by
  intro a boundA v boundV dir t passes
  obtain ⟨n, same, before, here, -⟩ :=
    (represents.passes kind a boundA v boundV dir t).mp passes
  exact (represents.positions a boundA v boundV t).mpr ⟨n, same, before.le, here⟩

/-- Without duplicates every pass before the deadline is a step of the plan. -/
theorem Follows.pass_iff (follows : e.Follows σ L pos) (prepared : e.Prepared L hi)
    (routes : e.Routes L σ) (kind : e.config.variableKind = .pass)
    (single : e.config.duplicates = .forbid) (leaves : e.Leaves σ) {a v n : ℕ} {dir : Dir}
    (boundA : a < e.agents) (boundV : v < e.vertices) (before : n < L a) :
    e.Pass σ a v dir n ↔ pos a n = v ∧ e.inst.getNeighbor v dir = some (pos a (n + 1)) := by
  have setting := prepared.setting
  have fits := setting.fits a boundA
  have only {u m : ℕ} (boundU : u < e.vertices) (le : m ≤ L a) (there : e.At σ a u m) :
      pos a m = u := by
    by_contra distinct
    exact routes.single single a boundA m (by omega) (by omega) _ (follows.cells a boundA m le) u
      boundU distinct ⟨follows.positions a boundA m le, there⟩
  constructor
  · intro passes
    obtain ⟨u, next, -⟩ :=
      (setting.pass_covers_iff (prepared.passReady kind) boundA boundV).mp passes.1
    have moves := routes.moves
    simp only [Moves, kind] at moves
    have arrived := moves.1 a boundA v boundV dir u next n passes
    refine ⟨only boundV before.le (leaves a boundA v boundV dir n passes), ?_⟩
    rw [next, only (setting.neighbor_lt boundV next) before arrived]
  · rintro ⟨rfl, next⟩
    obtain ⟨dir', next', passes⟩ := follows.passes kind boundA before
    rwa [setting.dir_unique boundV next next']

end Encoder

section

variable {task : Task} {e : Encoder} {lib : Externals} {lit : ℤ}

/-- The formula with the clauses of the unused generator. -/
def Formula.leaving (f : Formula) : List Clause := f.clauses ++ f.encoder.createMoveLeaveVertexPass

/-- Adding the unused clauses keeps the plans which can be found. Without duplicates every model then
shows its plan in the pass variables, step by step. -/
theorem leaving_exact (contract : AtMostContract lib.encodeAtMostK) (poses : task.Poses e)
    (kind : e.config.variableKind = .pass) (eager : e.config.lazyConst = .eager) (first : 1 ≤ lit)
    (useAvoid : Bool) (conflicts : Conflicts) :
    let f := e.createFormula lib true useAvoid lit conflicts
    (∀ pos, f.Finds task pos ↔ ∃ σ, Models σ f.leaving ∧
      (f.encoder.readPlan σ).Shows task.ags task.inst.goalOf pos) ∧
    (e.config.duplicates = .forbid → ∀ σ, Models σ f.leaving → ∃ pos,
      (f.encoder.readPlan σ).Shows task.ags task.inst.goalOf pos ∧
      ∀ a < task.ags, ∀ n < e.deadline a, ∀ v < e.vertices, ∀ dir,
        f.encoder.Pass σ a v dir n ↔
          pos a n = v ∧ task.inst.getNeighbor v dir = some (pos a (n + 1))) := by
  intro f
  obtain ⟨prepared, block⟩ := e.createFormula_eager contract poses eager first useAvoid conflicts
  obtain ⟨inst, config, agents, vertices, delta⟩ := e.createVariables_members lib lit
  have poses' := @Encoder.createVariables_poses e lib task lit poses
  have kind' : f.encoder.config.variableKind = .pass := (congrArg Config.variableKind config).trans kind
  have leaves := Encoder.createMoveLeaveVertexPass_expresses prepared.setting.windows prepared.atReady
    (prepared.passReady kind') le_rfl
  refine ⟨fun pos => ⟨?_, ?_⟩, ?_⟩
  · rintro ⟨σ, models, shows_⟩
    obtain ⟨read, shown, valid, -, cheap⟩ := createFormula_sound contract poses eager first models
    rw [← config] at valid
    rw [← config, ← delta] at cheap
    obtain ⟨σ', models', represents, shows'⟩ := prepared.exists_model poses' block valid cheap
    refine ⟨σ', models_append.mpr ⟨models', (leaves.models_iff σ').mpr (represents.leaves kind')⟩, ?_⟩
    exact shows'.congr fun a bound t => shown.unique shows_ bound t
  · rintro ⟨σ, models, shows_⟩
    exact ⟨σ, (models_append.mp models).1, shows_⟩
  · intro single σ models
    obtain ⟨base, added⟩ := models_append.mp models
    have routes := (block.sound base).1
    have leave := (leaves.models_iff σ).mp added
    obtain ⟨pos, shows_, -, follows, -⟩ := createFormula_sound contract poses eager first base
    rw [show (e.createFormula lib true useAvoid lit conflicts).encoder.deadline = e.deadline from
      e.deadline_createVariables lib lit] at prepared routes
    have single' : f.encoder.config.duplicates = .forbid :=
      (congrArg Config.duplicates config).trans single
    refine ⟨pos, shows_, fun a bound n before v cell dir => ?_⟩
    have known : a < f.encoder.agents := bound.trans_eq (agents.trans poses.agents).symm
    have steps : f.encoder.Pass σ a v dir n ↔ _ :=
      follows.pass_iff prepared routes kind' single' leave known (cell.trans_eq vertices.symm) before
    rwa [show (e.createFormula lib true useAvoid lit conflicts).encoder.inst = task.inst from
      inst.trans poses.inst] at steps

theorem leaving_exact_rows : (Formula.rows ⟨.pass, .soc, .pebble, .eager, .forbid⟩ 0).Finds .rows
      Task.rowsPlan ↔ ∃ σ, Models σ (Formula.rows ⟨.pass, .soc, .pebble, .eager, .forbid⟩ 0).leaving ∧
    ((Formula.rows ⟨.pass, .soc, .pebble, .eager, .forbid⟩ 0).encoder.readPlan σ).Shows 2
      Task.rows.inst.goalOf Task.rowsPlan :=
  (leaving_exact binomialAtMost_contract
    (Task.rows_poses ⟨.pass, .soc, .pebble, .eager, .forbid⟩ 0) rfl rfl (le_refl (1 : ℤ)) false
    ⟨[], [], []⟩).1 Task.rowsPlan

end

end MAPFEncodings

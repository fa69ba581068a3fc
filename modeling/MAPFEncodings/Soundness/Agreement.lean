import MAPFEncodings.Completeness.Plans
import MAPFEncodings.Model.Solver
import MAPFEncodings.Monosat.PassFormula
import MAPFEncodings.Monosat.ShiftExactness
import MAPFEncodings.Refinement.Recorded
import MAPFEncodings.Soundness.Encodings

/-! # The encodings agree

Which plans can be found for a delta depends on the minimized cost and on the movement which is
allowed, and neither on the variables of the encoding nor on the treatment of duplicates. The
encodings for monosat find plans for the same deltas.
-/

namespace MAPFEncodings

open Cnf PathFinding

/-- A plan shows only what its agents do. -/
theorem Plan.Shows.congr {plan : Plan} {n : ℕ} {goalOf : ℕ → ℕ} {pos pos' : ℕ → ℕ → ℕ}
    (shows_ : plan.Shows n goalOf pos) (same : ∀ a < n, ∀ t, pos a t = pos' a t) :
    plan.Shows n goalOf pos' := by
  obtain ⟨len, positive, rfl, parked⟩ := shows_
  refine ⟨len, positive, ?_, fun a bound t late => (same a bound t).symm.trans (parked a bound t late)⟩
  unfold planOf
  refine List.map_congr_left fun a member => List.map_congr_left fun t _ => ?_
  rw [same a (List.mem_range.mp member)]

variable {task : Task} {e e' : Encoder} {lib lib' : Externals} {lit lit' : ℤ} {useAvoid useAvoid' : Bool}
  {conflicts conflicts' : Conflicts}

/-- Positions which some model of the formula is read as. -/
def Formula.Finds (f : Formula) (task : Task) (pos : ℕ → ℕ → ℕ) : Prop :=
  ∃ σ, Models σ f.clauses ∧ (f.encoder.readPlan σ).Shows task.ags task.inst.goalOf pos

/-- Two encoders which minimize the same cost under the same movement and delta. -/
structure Encoder.Rival (e e' : Encoder) : Prop where
  costFunction : e.config.costFunction = e'.config.costFunction
  movement : e.config.movement = e'.config.movement
  delta : e.delta = e'.delta

theorem Encoder.Rival.symm (rival : e.Rival e') : e'.Rival e :=
  ⟨rival.costFunction.symm, rival.movement.symm, rival.delta.symm⟩

/-- What one encoding finds is found by the other one. -/
theorem Encoder.Rival.finds (rival : e.Rival e') (contract : AtMostContract lib.encodeAtMostK)
    (contract' : AtMostContract lib'.encodeAtMostK) (poses : task.Poses e) (poses' : task.Poses e')
    (eager : e.config.lazyConst = .eager) (eager' : e'.config.lazyConst = .eager) (first : 1 ≤ lit)
    (first' : 1 ≤ lit') {pos : ℕ → ℕ → ℕ}
    (finds : (e.createFormula lib true useAvoid lit conflicts).Finds task pos) :
    (e'.createFormula lib' true useAvoid' lit' conflicts').Finds task pos := by
  obtain ⟨σ, models, shows_⟩ := finds
  obtain ⟨read, shown, valid, -, cheap⟩ := createFormula_sound contract poses eager first models
  rw [rival.movement] at valid
  rw [rival.costFunction, rival.delta] at cheap
  obtain ⟨σ', models', shows'⟩ :=
    createFormula_complete contract' poses' eager' first' valid cheap
  exact ⟨σ', models', shows'.congr fun a bound t => shown.unique shows_ bound t⟩

/-- A formula of CaDiCaL is satisfiable exactly if the delta admits a plan. -/
theorem Encoder.satisfiable_iff (contract : AtMostContract lib.encodeAtMostK) (poses : task.Poses e)
    (eager : e.config.lazyConst = .eager) (first : 1 ≤ lit) :
    (∃ σ, Models σ (e.createFormula lib true useAvoid lit conflicts).clauses) ↔
      ∃ pos, task.Valid e.config.movement pos ∧ (task.cost pos e.config.costFunction : ℤ) ≤
        task.lowerBound e.config.costFunction + e.delta := by
  constructor
  · rintro ⟨σ, models⟩
    obtain ⟨pos, -, valid, -, cheap⟩ := createFormula_sound contract poses eager first models
    exact ⟨pos, valid, cheap⟩
  · rintro ⟨pos, valid, cheap⟩
    obtain ⟨σ, models, -⟩ := createFormula_complete contract poses eager first valid cheap
    exact ⟨σ, models⟩

/-- Some assignment satisfies the lines which monosat reads. -/
def Formula.Satisfiable (f : Formula) : Prop := ∃ σ, SatisfiesLines σ f.lines

/-- The formulas for monosat mean what they should. With shift variables this needs agents with
different starts and different goals. -/
structure Encoder.Portable (task : Task) (e : Encoder) : Prop where
  parallel : e.config.movement = .parallel
  tables : e.config.variableKind = .pass ∨ e.config.variableKind = .shift ∧ task.DistinctGoals ∧
    ∀ a < task.ags, ∀ b < task.ags, a ≠ b → task.inst.startOf a ≠ task.inst.startOf b

/-- The file for monosat has a solution exactly if the delta admits a plan. -/
theorem Encoder.Portable.satisfiable_iff (portable : e.Portable task)
    (contract : AtMostContract lib.encodeAtMostK) (poses : task.Poses e) :
    (e.createFormulaMonosat lib useAvoid).Satisfiable ↔
      ∃ pos, task.Valid .parallel pos ∧ (task.cost pos e.config.costFunction : ℤ) ≤
        task.lowerBound e.config.costFunction + e.delta := by
  obtain ⟨parallel, tables⟩ := portable
  unfold createFormulaMonosat Formula.Satisfiable
  rcases tables with kind | ⟨kind, goals, starts⟩
  · rw [kind]
    constructor
    · rintro ⟨σ, satisfies⟩
      exact monosatPass_sound contract poses kind parallel satisfies
    · rintro ⟨pos, valid, cheap⟩
      obtain ⟨σ, satisfies, -⟩ :=
        monosatPass_represents contract poses kind parallel useAvoid valid cheap
      exact ⟨σ, satisfies⟩
  · rw [kind]
    constructor
    · rintro ⟨σ, satisfies⟩
      obtain ⟨pos, -, valid, cheap⟩ := monosatShift_sound contract poses kind starts goals satisfies
      exact ⟨pos, valid, cheap⟩
    · rintro ⟨pos, valid, cheap⟩
      exact monosatShift_complete contract poses valid cheap

/-- All encodings of a request with the same cost, movement and delta agree: CaDiCaL finds the same
plans with every choice of variables and with or without duplicates, and monosat has a solution
exactly if there is one of these plans. -/
theorem encodings_agree (contract : AtMostContract lib.encodeAtMostK)
    (contract' : AtMostContract lib'.encodeAtMostK) (poses : task.Poses e) (poses' : task.Poses e')
    (rival : e.Rival e') (eager : e.config.lazyConst = .eager)
    (eager' : e'.config.lazyConst = .eager) (first : 1 ≤ lit) (first' : 1 ≤ lit')
    (useAvoid useAvoid' : Bool) (conflicts conflicts' : Conflicts) :
    (∀ pos, (e.createFormula lib true useAvoid lit conflicts).Finds task pos ↔
      (e'.createFormula lib' true useAvoid' lit' conflicts').Finds task pos) ∧
    (e'.Portable task → ((e'.createFormulaMonosat lib' useAvoid').Satisfiable ↔
      ∃ σ, Models σ (e.createFormula lib true useAvoid lit conflicts).clauses)) := by
  refine ⟨fun pos => ⟨fun finds => ?_, fun finds => ?_⟩, fun portable => ?_⟩
  · exact rival.finds contract contract' poses poses' eager eager' first first' finds
  · exact rival.symm.finds contract' contract poses' poses eager' eager first' first finds
  · rw [e.satisfiable_iff contract poses eager first, portable.satisfiable_iff contract' poses',
      rival.movement, rival.costFunction, rival.delta, portable.parallel]

theorem encodings_agree_rows :
    (Formula.rows ⟨.shift, .mks, .pebble, .eager, .forbid⟩ 0).Finds .rows Task.rowsPlan ↔
      (Formula.rows ⟨.at_, .mks, .pebble, .eager, .allow⟩ 0).Finds .rows Task.rowsPlan :=
  (encodings_agree binomialAtMost_contract binomialAtMost_contract
    (Task.rows_poses ⟨.shift, .mks, .pebble, .eager, .forbid⟩ 0)
    (Task.rows_poses ⟨.at_, .mks, .pebble, .eager, .allow⟩ 0) ⟨rfl, rfl, rfl⟩ rfl rfl
    (le_refl (1 : ℤ)) (le_refl (1 : ℤ)) false false ⟨[], [], []⟩ ⟨[], [], []⟩).1 Task.rowsPlan

end MAPFEncodings

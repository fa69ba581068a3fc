import MAPFEncodings.Monosat.PassExtraction
import MAPFEncodings.Soundness.Encodings

/-! # No ghost copies

The clauses against duplicates only exclude two positions of an agent at one time. That there is a
position at every time follows from the walk which extraction finds, so the positions of an agent
until its deadline are exactly those of the extracted plan.
-/

namespace MAPFEncodings

open Cnf PathFinding

namespace Encoder

variable {e : Encoder} {lib : Externals} {task : Task} {σ : Valuation} {L : ℕ → ℕ} {hi : ℤ}

/-- Until the deadline the plan shows every agent at its only true position. -/
def OnlyShown (e : Encoder) (σ : Valuation) (L : ℕ → ℕ) (plan : Plan) : Prop :=
  ∀ a < e.agents, ∀ t ≤ L a, ∃ v < e.vertices, plan.entry a t = some v ∧
    ∀ u < e.vertices, e.At σ a u t ↔ u = v

/-- A walk on true positions which extraction finds shows the only position. -/
theorem onlyShown_of_follow {next : ℕ → ℕ → ℕ → Option ℕ} {pos : ℕ → ℕ → ℕ}
    (fits : ∀ a < e.agents, (L a : ℤ) < e.maxTimestep) (single : e.Single σ)
    (follows : e.Follows σ L pos)
    (found : ∀ a < e.agents, ∀ t ≤ L a, follow (next a) (e.inst.startOf a) t = some (pos a t)) :
    e.OnlyShown σ L (e.extractRows next) := by
  intro a boundA t le
  have last := fits a boundA
  have cell := follows.cells a boundA t le
  have here := follows.positions a boundA t le
  refine ⟨pos a t, cell, ?_, fun u boundU => ⟨fun there => ?_, fun same => same ▸ here⟩⟩
  · rw [entry_extractRows boundA (by omega), found a boundA t le]
  · by_contra distinct
    exact single a boundA t (by omega) (by omega) u boundU _ cell distinct ⟨there, here⟩

/-- Without ghost copies extraction finds the required walk. -/
theorem PassModel.follow_eq (model : e.PassModel task σ L hi) (single : e.Single σ)
    {pos : ℕ → ℕ → ℕ} (follows : e.Follows σ L pos) {a t : ℕ} (boundA : a < e.agents)
    (le : t ≤ L a) :
    follow (fun v t => e.getNextVertexMonosat σ a v t) (e.inst.startOf a) t = some (pos a t) := by
  induction t with
  | zero => exact congrArg some (follows.starts a boundA).symm
  | succ t ih =>
    have fits := model.prepared.setting.fits a boundA
    have cell := follows.cells a boundA t (by omega)
    have there : e.At σ a (pos a (t + 1)) ((t : ℤ) + 1) := by
      exact_mod_cast follows.positions a boundA (t + 1) le
    obtain ⟨dir, next, passes⟩ := follows.passes model.kind boundA le
    have chosen : e.getNextVertexMonosat σ a (pos a t) ((t : ℤ) + 1) = some (pos a (t + 1)) := by
      cases answer : e.getNextVertexMonosat σ a (pos a t) ((t : ℤ) + 1) with
      | none =>
        exact absurd ⟨next, passes, there⟩
          ((getNextVertexMonosat_eq_none_iff model.prepared.ready model.kind boundA cell).mp answer dir _)
      | some u =>
        obtain ⟨dir', ⟨next', -, there'⟩, -⟩ :=
          (getNextVertexMonosat_eq_some_iff model.prepared.ready model.kind boundA cell).mp answer
        by_contra distinct
        exact single a boundA (t + 1) (by omega) (by omega) u
          (model.prepared.setting.neighbor_lt cell next') _ (follows.cells a boundA (t + 1) le)
          (fun same => distinct (congrArg some same)) ⟨there', there⟩
    rw [follow, ih (by omega), Option.bind_some]
    exact_mod_cast chosen

end Encoder

section

variable {lib : Externals} {task : Task} {e : Encoder}

/-- If duplicates are forbidden, every model has exactly one true position for each agent and each
timestep until the agent's deadline, the one in the extracted plan. This holds of both solvers. -/
theorem forbid_onlyShown (contract : AtMostContract lib.encodeAtMostK) (poses : task.Poses e)
    (forbid : e.config.duplicates = .forbid) :
    (∀ lit, 1 ≤ lit → ∀ useAvoid conflicts σ,
      let f := e.createFormula lib true useAvoid lit conflicts
      Models σ f.clauses → f.encoder.OnlyShown σ e.deadline
        (f.encoder.extractRows fun a v t => f.encoder.getNextVertex σ a v t)) ∧
    (e.config.variableKind = .pass → e.config.movement = .parallel → ∀ useAvoid σ,
      let f := e.createFormulaMonosatPass lib useAvoid
      SatisfiesLines σ f.lines → f.encoder.OnlyShown σ e.deadline
        (f.encoder.extractRows fun a v t => f.encoder.getNextVertexMonosat σ a v t)) := by
  constructor
  · intro lit pos useAvoid conflicts σ f models
    have prepared := (Encoder.createVariables_prepared lib lit poses pos).1
    obtain ⟨encoder, clauses, -⟩ :=
      Encoder.createFormula_first lib lit poses.noAvoid useAvoid conflicts
    have forbid' : (e.createVariables lib lit).1.config.duplicates = .forbid :=
      (e.createVariables_members lib lit).2.1 ▸ forbid
    rw [clauses, models_append] at models
    have routes := (Encoder.routeClauses_block contract prepared).sound models.2
    obtain ⟨pos, follows, extracts⟩ := routes.exists_follows prepared
    rw [encoder]
    exact Encoder.onlyShown_of_follow prepared.setting.fits (routes.single forbid') follows
      extracts.follows
  · intro kind parallel useAvoid σ f satisfies
    have model := Encoder.passModel contract poses kind parallel satisfies
    obtain ⟨encoder, -⟩ := Encoder.createFormulaMonosatPass_eq lib kind poses.noAvoid useAvoid
    have forbid' : f.encoder.config.duplicates = .forbid := by
      rw [encoder, (e.createVariables_members lib 1).2.1]
      exact forbid
    obtain ⟨pos, follows⟩ := model.path
    have single := model.regulated.single forbid'
    exact Encoder.onlyShown_of_follow model.prepared.setting.fits single follows
      fun a boundA t le => model.follow_eq single follows boundA le

theorem forbid_onlyShown_rows :
    let f := Formula.rows ⟨.pass, .soc, .parallel, .eager, .forbid⟩ 0
    f.encoder.OnlyShown (fun _ => true)
      (Encoder.rows ⟨.pass, .soc, .parallel, .eager, .forbid⟩ 0).deadline
      (f.encoder.extractRows fun a v t => f.encoder.getNextVertex (fun _ => true) a v t) :=
  (forbid_onlyShown binomialAtMost_contract (Task.rows_poses _ 0) rfl).1 1 le_rfl false
    ⟨[], [], []⟩ (fun _ => true) (by decide +kernel)

end

end MAPFEncodings

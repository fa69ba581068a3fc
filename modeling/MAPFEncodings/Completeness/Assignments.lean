import MAPFEncodings.Soundness.Walks

/-! # The assignment of a plan

A plan which meets the deadlines makes exactly the variables of its own positions, edges and shifts
true. All of them exist, because the walks stay inside the windows. If the plan is valid, every
clause about the tables' variables holds, and following the true variables leads along the plan.
-/

namespace MAPFEncodings

open Cnf PathFinding

namespace Encoder

variable {e : Encoder} {σ τ : Valuation} {L : ℕ → ℕ} {hi : ℤ} {pos : ℕ → ℕ → ℕ} {task : Task}

/-- The valuation makes exactly the variables of a plan true. -/
structure Represents (e : Encoder) (σ : Valuation) (L : ℕ → ℕ) (pos : ℕ → ℕ → ℕ) : Prop where
  positions : ∀ a < e.agents, ∀ v < e.vertices, ∀ t,
    e.At σ a v t ↔ ∃ n : ℕ, t = n ∧ n ≤ L a ∧ pos a n = v
  passes : e.config.variableKind = .pass → ∀ a < e.agents, ∀ v < e.vertices, ∀ dir t,
    e.Pass σ a v dir t ↔ ∃ n : ℕ, t = n ∧ n < L a ∧ pos a n = v ∧
      e.inst.getNeighbor v dir = some (pos a (n + 1))
  shifts : e.config.variableKind = .shift → ∀ v < e.vertices, ∀ dir t,
    e.Shifts σ v dir t ↔ ∃ a < e.agents, ∃ n : ℕ, t = n ∧ n < L a ∧ pos a n = v ∧
      e.inst.getNeighbor v dir = some (pos a (n + 1))

/-- Walks which are at their goals from the deadlines on. -/
structure Arrives (e : Encoder) (L : ℕ → ℕ) (pos : ℕ → ℕ → ℕ) : Prop where
  starts : ∀ a < e.agents, pos a 0 = e.inst.startOf a
  moves : ∀ a < e.agents, Distance.IsWalk e.inst.Adj (pos a)
  parks : ∀ a < e.agents, ∀ t, L a ≤ t → pos a t = e.inst.goalOf a

theorem Arrives.alive (arrives : e.Arrives L pos) (setting : e.Setting L) {a t : ℕ}
    (bound : a < e.agents) (le : t ≤ L a) : e.Alive L a (pos a t) t :=
  ((setting.deadline a bound).alive_of_isWalk (arrives.moves a bound) (arrives.starts a bound)
    (arrives.parks a bound _ le_rfl) le).2

theorem Arrives.cell (arrives : e.Arrives L pos) (setting : e.Setting L) {a : ℕ}
    (bound : a < e.agents) (t : ℕ) : pos a t < e.vertices := by
  induction t with
  | zero =>
    rw [arrives.starts a bound]
    exact setting.startCell a bound
  | succ t ih =>
    obtain ⟨dir, next⟩ := (setting.step_iff ih).mp (arrives.moves a bound t)
    exact setting.neighbor_lt ih next

theorem Arrives.exists_dir (arrives : e.Arrives L pos) (setting : e.Setting L) {a : ℕ}
    (bound : a < e.agents) (t : ℕ) : ∃ dir, e.inst.getNeighbor (pos a t) dir = some (pos a (t + 1)) :=
  (setting.step_iff (arrives.cell setting bound t)).mp (arrives.moves a bound t)

/-- The tables have all variables which a plan needs. -/
theorem Prepared.exists_represents (prepared : e.Prepared L hi) (arrives : e.Arrives L pos) :
    ∃ σ, e.Represents σ L pos := by
  have setting := prepared.setting
  obtain ⟨σ, positions, passes, shifts⟩ := prepared.free
    (fun a v t => ∃ n : ℕ, t = n ∧ n ≤ L a ∧ pos a n = v)
    (fun a v dir t => ∃ n : ℕ, t = n ∧ n < L a ∧ pos a n = v ∧
      e.inst.getNeighbor v dir = some (pos a (n + 1)))
    (fun v dir t => ∃ a < e.agents, ∃ n : ℕ, t = n ∧ n < L a ∧ pos a n = v ∧
      e.inst.getNeighbor v dir = some (pos a (n + 1)))
  refine ⟨σ, fun a boundA v boundV t => ?_, fun pass a boundA v boundV dir t => ?_,
    fun shift v boundV dir t => ?_⟩
  · rw [positions a boundA v boundV t]
    apply and_iff_right_of_imp
    rintro ⟨n, rfl, le, rfl⟩
    exact (setting.at_covers_iff prepared.atReady boundA boundV).mpr (arrives.alive setting boundA le)
  · rw [passes pass a boundA v boundV dir t]
    apply and_iff_right_of_imp
    rintro ⟨n, rfl, before, rfl, next⟩
    exact (setting.pass_covers_iff (prepared.passReady pass) boundA boundV).mpr
      ⟨_, next, arrives.alive setting boundA before.le,
        by exact_mod_cast arrives.alive setting boundA before⟩
  · rw [shifts shift v boundV dir t]
    apply and_iff_right_of_imp
    rintro ⟨a, boundA, n, rfl, before, rfl, next⟩
    have fits := setting.fits a boundA
    exact (setting.shift_exists_iff (prepared.shiftReady shift) boundV).mpr
      ⟨_, next, ⟨by omega, by omega⟩, a, boundA, arrives.alive setting boundA before.le,
        by exact_mod_cast arrives.alive setting boundA before⟩

/-- Auxiliary variables do not matter. -/
theorem Represents.congr (prepared : e.Prepared L hi) (agree : Agree hi σ τ)
    (represents : e.Represents σ L pos) : e.Represents τ L pos where
  positions a boundA v boundV t := by
    rw [← represents.positions a boundA v boundV t]
    exact (At.congr prepared.atReady agree boundA boundV).symm
  passes pass a boundA v boundV dir t := by
    rw [← represents.passes pass a boundA v boundV dir t]
    exact (Pass.congr (prepared.passReady pass) agree boundA boundV).symm
  shifts shift v boundV dir t := by
    rw [← represents.shifts shift v boundV dir t]
    exact (Shifts.congr (prepared.shiftReady shift) agree boundV).symm

namespace Represents

variable (represents : e.Represents σ L pos)
include represents

/-! ## Extraction -/

/-- The variables of a plan's step pass the test of `GetNextVertex`. -/
theorem candidate (setting : e.Setting L) (arrives : e.Arrives L pos) {a t : ℕ} {dir : Dir}
    (bound : a < e.agents) (before : t < L a)
    (next : e.inst.getNeighbor (pos a t) dir = some (pos a (t + 1))) :
    e.Candidate σ a (pos a t) dir (pos a (t + 1)) ((t : ℤ) + 1) := by
  have cell := arrives.cell setting bound
  have there : e.At σ a (pos a (t + 1)) ((t : ℤ) + 1) :=
    (represents.positions a bound _ (cell _) _).mpr ⟨t + 1, by push_cast; rfl, before, rfl⟩
  unfold Candidate
  cases kind : e.config.variableKind <;> simp only [add_sub_cancel_right]
  · exact there
  · exact (represents.passes kind a bound _ (cell _) dir _).mpr ⟨t, rfl, before, rfl, next⟩
  · exact ⟨there.1,
      (represents.shifts kind _ (cell _) dir _).mpr ⟨a, bound, t, rfl, before, rfl, next⟩⟩

/-- No other variables pass the test. -/
theorem eq_of_candidate (setting : e.Setting L) (arrives : e.Arrives L pos)
    (vertexFree : ∀ a < e.agents, ∀ b < e.agents, a ≠ b → ∀ t, pos a t ≠ pos b t) {a t u : ℕ}
    {dir : Dir} (bound : a < e.agents) (next : e.inst.getNeighbor (pos a t) dir = some u)
    (test : e.Candidate σ a (pos a t) dir u ((t : ℤ) + 1)) : u = pos a (t + 1) := by
  have cell := arrives.cell setting bound t
  unfold Candidate at test
  cases kind : e.config.variableKind <;> simp only [kind, add_sub_cancel_right] at test
  · obtain ⟨n, time, -, here⟩ :=
      (represents.positions a bound u (setting.neighbor_lt cell next) _).mp test
    obtain rfl : n = t + 1 := by omega
    exact here.symm
  · obtain ⟨n, time, -, -, next'⟩ := (represents.passes kind a bound _ cell dir _).mp test
    obtain rfl : t = n := by omega
    exact Option.some.inj (next.symm.trans next')
  · obtain ⟨b, boundB, n, time, -, here, next'⟩ := (represents.shifts kind _ cell dir _).mp test.2
    obtain rfl : t = n := by omega
    have same : b = a := by
      by_contra distinct
      exact vertexFree b boundB a bound distinct t here
    subst same
    exact Option.some.inj (next.symm.trans next')

theorem getNextVertex_eq (setting : e.Setting L) (arrives : e.Arrives L pos)
    (vertexFree : ∀ a < e.agents, ∀ b < e.agents, a ≠ b → ∀ t, pos a t ≠ pos b t) {a t : ℕ}
    (bound : a < e.agents) (before : t < L a) :
    e.getNextVertex σ a (pos a t) ((t : ℤ) + 1) = some (pos a (t + 1)) := by
  obtain ⟨dir, next⟩ := arrives.exists_dir setting bound t
  exact Encoder.getNextVertex_eq next (represents.candidate setting arrives bound before next)
    fun dir' u' next' => represents.eq_of_candidate setting arrives vertexFree bound next'

end Represents

end Encoder

end MAPFEncodings

import MAPFEncodings.Runs.Lazy

/-! # Optimality of `Solve`

The loop starts at the lower bound of the cost and increases it by one only after a failed call,
which means that no valid plan is as cheap. The plan of the first successful call is therefore
optimal. Lazy calls need distinct goals for this, which every instance with a valid plan has.
-/

namespace MAPFEncodings

open Cnf PathFinding

/-- The logged cost of the kind which is minimized. -/
def Log.cost (log : Log) : CostFunction → ℤ
  | .mks => log.solutionMks
  | .soc => log.solutionSoc

/-- Agents which park apart have distinct goals. -/
theorem Task.Valid.distinctGoals {task : Task} {movement : Movement} {pos : ℕ → ℕ → ℕ}
    (valid : task.Valid movement pos) : task.DistinctGoals := by
  intro a boundA b boundB distinct same
  have memA : a ∈ task.problem.agents := Finset.mem_range.mpr boundA
  have memB : b ∈ task.problem.agents := Finset.mem_range.mpr boundB
  obtain ⟨T, parkedA⟩ := valid.walks.parks a memA
  obtain ⟨T', parkedB⟩ := valid.walks.parks b memB
  apply valid.vertexFree a memA b memB distinct (max T T')
  rw [parkedA _ (le_max_left _ _), parkedB _ (le_max_right _ _)]
  exact same

namespace ISolver

variable {task : Task} {lib : Externals} {set : Settings} {s : ISolver} {cnfPrintable : List Line}

theorem formula_delta (lib : Externals) (set : Settings) (s : ISolver) :
    (s.formula lib set).encoder.delta = s.encoder.delta := by
  unfold formula
  cases s.firstTry
  · rfl
  · exact (s.encoder.createVariables_members lib s.nrVars).2.2.2.2

/-- No valid plan is cheaper than the bound of the current delta. -/
theorem Reachable.lowerBound_le (sets : task.Sets set) (contract : AtMostContract lib.encodeAtMostK)
    (zero : set.inputDelta = 0)
    (reachable : Reachable lib set CaDiCaL (init set cnfPrintable) s) {pos : ℕ → ℕ → ℕ}
    (valid : task.Valid set.config.movement pos) :
    task.lowerBound set.config.costFunction + s.encoder.delta ≤
      task.cost pos set.config.costFunction := by
  induction reachable with
  | start =>
    have bound := Task.lowerBound_le valid.walks set.config.costFunction
    change _ + ((set.inputDelta : ℕ) : ℤ) ≤ _
    rw [zero]
    simpa using bound
  | @step s s' answer before allowed again ih =>
    obtain ⟨hi, called⟩ :=
      (before.mono fun _ _ => CaDiCaL.truthful).called sets contract
    rcases iteration_again sets.backend again with conflicted | advanced
    · rw [conflicted.encoder, queried_encoder sets.backend, formula_delta]
      exact ih
    · have costly := called.failed sets.backend contract valid.distinctGoals allowed advanced.ret valid
      rw [advanced.encoder, queried_encoder sets.backend]
      push_cast
      omega

/-- If `Solve` succeeds, it has logged the least cost of a valid plan and kept such a plan. -/
theorem solve_optimal (sets : task.Sets set) (contract : AtMostContract lib.encodeAtMostK)
    (zero : set.inputDelta = 0) (keep : set.keepPlan = true) {final : ISolver}
    (returns : Returns lib set CaDiCaL (init set cnfPrintable) final 0) :
    ∃ log pos, final.log = some log ∧ final.plan.Shows task.ags task.inst.goalOf pos ∧
      task.Valid set.config.movement pos ∧
      log.cost set.config.costFunction = task.cost pos set.config.costFunction ∧
      ∀ pos', task.Valid set.config.movement pos' →
        task.cost pos set.config.costFunction ≤ task.cost pos' set.config.costFunction := by
  obtain ⟨s, answer, reachable, allowed, done⟩ := returns
  have sat := sets.backend
  obtain ⟨hi, called⟩ := (reachable.mono fun _ _ => CaDiCaL.truthful).called sets contract
  have finished := iteration_done sat done
  obtain ⟨pos, shows, valid, cheap⟩ := called.finished sat contract allowed.truthful finished
  rw [formula_delta] at cheap
  have least := fun pos' (valid' : task.Valid set.config.movement pos') =>
    reachable.lowerBound_le sets contract zero valid'
  obtain ⟨log, logged, mks, soc⟩ := finished.log
  refine ⟨log, pos, logged, ?_, valid, ?_, fun pos' valid' => ?_⟩
  · rwa [finished.plan (by simp [wantsPlan, keep])]
  · have exact_ := le_antisymm cheap (least pos valid)
    rw [exact_]
    rw [queried_encoder sat] at mks soc
    cases kind : set.config.costFunction with
    | mks =>
      change log.solutionMks = task.inst.getMksLB task.ags + s.encoder.delta
      rw [mks, called.poses.timesteps_eq, formula_delta]
    | soc =>
      change log.solutionSoc = task.inst.getSocLB task.ags + s.encoder.delta
      rw [soc, called.config, kind]
      dsimp only
      rw [called.poses.inst, called.poses.agents, formula_delta]
  · have bound := least pos' valid'
    omega

theorem solve_optimal_rows : ∃ (log : Log) (pos : ℕ → ℕ → ℕ), Task.rows.Valid .pebble pos ∧
    log.cost .soc = Task.rows.cost pos .soc ∧
      ∀ pos', Task.rows.Valid .pebble pos' → Task.rows.cost pos .soc ≤ Task.rows.cost pos' .soc := by
  let set := Settings.rows ⟨.shift, .soc, .pebble, .eager, .forbid⟩
  let answer : Answer := ⟨1, 1, 10, fun _ => true, false⟩
  obtain ⟨final, done⟩ : ∃ final, (init set []).iteration .binomial set answer = .done final 0 :=
    exists_done_of_found _ _ _ rfl rfl rfl ⟨by decide, by decide⟩
  obtain ⟨log, pos, -, -, best⟩ := solve_optimal (Task.rows_sets _) binomialAtMost_contract rfl rfl
    ⟨_, _, .start, .inl ⟨rfl, by decide +kernel⟩, done⟩
  exact ⟨log, pos, best⟩

end ISolver

end MAPFEncodings

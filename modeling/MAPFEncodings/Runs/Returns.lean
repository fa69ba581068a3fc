import MAPFEncodings.Runs.Histories
import MAPFEncodings.Runs.TimeLimit

/-! # What the return values of `Solve` mean

With a complete solver a call succeeds for the least delta which admits a plan, a single call fails
only if its delta admits none, and the remaining value means that the time has run out. Every way
out frees the tables and the solver.
-/

namespace MAPFEncodings

open Cnf PathFinding

/-- There is a valid plan within the bound of a delta. -/
def Task.Admits (task : Task) (config : Config) (delta : ℕ) : Prop :=
  ∃ pos, task.Valid config.movement pos ∧
    (task.cost pos config.costFunction : ℤ) ≤ task.lowerBound config.costFunction + delta

/-- The small task with one of the encodings. -/
abbrev Settings.shifting : Settings := .rows ⟨.shift, .soc, .pebble, .eager, .forbid⟩

namespace ISolver

variable {task : Task} {lib : Externals} {set : Settings} {old s s' final : ISolver} {answer : Answer}
  {ret : ℤ}

/-! ## Ways out of the loop -/

/-- Nothing which was allocated for a formula is left. -/
structure Released (s : ISolver) : Prop where
  satSolver : s.satSolver = none
  atTable : s.encoder.atTable = []
  passTable : s.encoder.passTable = []
  shiftTable : s.encoder.shiftTable = []
  shiftTimesStart : s.encoder.shiftTimesStart = []
  shiftTimesEnd : s.encoder.shiftTimesEnd = []

theorem released_nextDelta (s : ISolver) : s.nextDelta.Released := ⟨rfl, rfl, rfl, rfl, rfl, rfl⟩

theorem released_timesUp (s : ISolver) : s.timesUp.Released := ⟨rfl, rfl, rfl, rfl, rfl, rfl⟩

theorem released_of_decide {res : ℤ} (done : s.decide_ set res = .done final ret) :
    final.Released := by
  unfold decide_ at done
  split at done
  · cases done
  · split at done
    · injection done with same
      exact same ▸ released_nextDelta s
    · split at done
      · injection done with same
        exact same ▸ released_nextDelta s
      · split at done
        · injection done with same
          exact same ▸ released_nextDelta s
        · cases done

/-- Both encodings free everything before they return. -/
theorem released_of_done (done : s.iteration lib set answer = .done final ret) : final.Released := by
  unfold iteration at done
  dsimp only at done
  split at done
  · injection done with same
    exact same ▸ released_timesUp _
  · split at done
    · injection done with same
      exact same ▸ released_timesUp _
    · exact released_of_decide done

variable (set answer) in
private theorem invoke_res (sat : set.backend = .sat) (q : ISolver) :
    (q.invoke set answer).2 = if answer.ret = 10 then 0 else 1 := by
  unfold invoke invokeImplementation
  simp only [sat]
  split <;> rfl

private theorem invoke_plan (sat : set.backend = .sat) (q : ISolver) (ret : answer.ret ≠ 10) :
    (q.invoke set answer).1.plan = [] := by
  unfold invoke invokeImplementation
  simp only [sat, if_neg ret, Option.getD_none]

/-- With CaDiCaL a value besides success means that the time is up, or that a single call has found
nothing. -/
theorem iteration_returns (sat : set.backend = .sat)
    (done : s.iteration lib set answer = .done final ret) :
    (ret = 0 ∧ ∃ log, final.log = some log ∧ log.res = 0) ∨ (ret = 1 ∧ ¬s.InTime answer) ∨
      (ret = -1 ∧ set.oneshot = true ∧ answer.ret ≠ 10 ∧ final.plan = [] ∧
        ∃ log, final.log = some log ∧ log.res = 1) := by
  obtain ⟨time, -⟩ := queried_kept lib set s
  unfold iteration at done
  dsimp only at done
  split at done
  · next late =>
    change answer.buildTime > (s.queried lib set).timeLeft at late
    injection done with _ same
    exact .inr (.inl ⟨same.symm, fun inTime => absurd inTime.1 (by omega)⟩)
  · split at done
    · next late =>
      change answer.solveTime > (s.queried lib set).timeLeft - answer.buildTime at late
      injection done with _ same
      exact .inr (.inl ⟨same.symm, fun inTime => absurd inTime.2 (by omega)⟩)
    · by_cases found : answer.ret = 10
      · rw [invoke_res set answer sat, if_pos found] at done
        unfold decide_ at done
        split at done
        · cases done
        · injection done with state same
          exact .inl ⟨same.symm, _, by rw [← state]; rfl, rfl⟩
      · rw [invoke_res set answer sat, if_neg found] at done
        unfold decide_ at done
        rw [if_neg (fun both => absurd both.1 one_ne_zero), if_neg one_ne_zero,
          if_neg (by decide)] at done
        split at done
        · next single =>
          injection done with state same
          refine .inr (.inr ⟨same.symm, single, found, ?_, _, by rw [← state]; rfl, rfl⟩)
          rw [← state]
          exact invoke_plan sat _ found
        · cases done

/-! ## Deltas which have been given up -/

/-- Every delta below the current one has been given up because no plan is within its bound. -/
theorem Reachable.exhausted (sets : task.Sets set) (contract : AtMostContract lib.encodeAtMostK)
    (reachable : Reachable lib set CaDiCaL (reenter set old) s) :
    set.inputDelta ≤ s.encoder.delta ∧
      ∀ d, set.inputDelta ≤ d → d < s.encoder.delta → ¬task.Admits set.config d := by
  induction reachable with
  | start => exact ⟨le_rfl, fun d le lt => absurd lt (not_lt.mpr le)⟩
  | @step s s' answer before allowed again ih =>
    obtain ⟨b, -, within⟩ := (before.mono fun _ _ => CaDiCaL.truthful).within sets contract
    rcases iteration_again sets.backend again with conflicted | advanced
    · rw [conflicted.encoder, queried_encoder sets.backend, formula_delta]
      exact ih
    · have delta : s'.encoder.delta = s.encoder.delta + 1 := by
        rw [advanced.encoder, queried_encoder sets.backend, formula_delta]
      rw [delta]
      refine ⟨by omega, fun d le lt => ?_⟩
      rcases Nat.lt_succ_iff_lt_or_eq.mp lt with earlier | rfl
      · exact ih.2 d le earlier
      · rintro ⟨pos, valid, cheap⟩
        have costly := (within.called contract).failed sets.backend contract valid.distinctGoals
          allowed advanced.ret valid
        rw [formula_delta] at costly
        omega

private theorem firstTry_of_decide {res : ℤ} (single : set.oneshot = true)
    (again : s.decide_ set res = .again s') : s'.firstTry = false := by
  unfold decide_ at again
  split at again
  · injection again with same
    rw [← same]
  · split at again
    · cases again
    · split at again
      · cases again
      · cases again

/-- A single call stays on its delta. -/
theorem again_of_oneshot (single : set.oneshot = true)
    (again : s.iteration lib set answer = .again s') : s'.firstTry = false := by
  unfold iteration at again
  dsimp only at again
  split at again
  · cases again
  · split at again
    · cases again
    · exact firstTry_of_decide single again

theorem Reachable.delta_of_oneshot (sat : set.backend = .sat) (single : set.oneshot = true)
    {oracle : Oracle} (reachable : Reachable lib set oracle (reenter set old) s) :
    s.encoder.delta = set.inputDelta := by
  induction reachable with
  | start => rfl
  | step _ _ again ih =>
    have conflicted := conflicted_of_again sat again (again_of_oneshot single again)
    rw [conflicted.encoder, queried_encoder sat, formula_delta]
    exact ih

/-! ## Return values -/

/-- The logged cost is the bound of the delta. -/
theorem Called.logged {hi : ℤ} (called : Called task lib set hi s) (sat : set.backend = .sat)
    (finished : Finished lib set s answer final) : ∃ log, final.log = some log ∧
      log.cost set.config.costFunction =
        task.lowerBound set.config.costFunction + s.encoder.delta := by
  obtain ⟨log, logged, mks, soc⟩ := finished.log
  refine ⟨log, logged, ?_⟩
  rw [queried_encoder sat] at mks soc
  cases kind : set.config.costFunction with
  | mks =>
    change log.solutionMks = task.inst.getMksLB task.ags + s.encoder.delta
    rw [mks, called.poses.timesteps_eq, formula_delta]
  | soc =>
    change log.solutionSoc = task.inst.getSocLB task.ags + s.encoder.delta
    rw [soc, called.config, kind]
    dsimp only
    rw [called.poses.inst, called.poses.agents, formula_delta]

/-- The loop succeeds at the least delta which admits a plan, and keeps such a plan if one is
wanted. -/
structure Succeeds (task : Task) (set : Settings) (final : ISolver) (d : ℕ) (log : Log) : Prop where
  least : IsLeast {d | set.inputDelta ≤ d ∧ task.Admits set.config d} d
  single : set.oneshot = true → d = set.inputDelta
  logged : final.log = some log
  cost : log.cost set.config.costFunction = task.lowerBound set.config.costFunction + d
  plan : wantsPlan set = true → ∃ pos, final.plan.Shows task.ags task.inst.goalOf pos ∧
    task.Valid set.config.movement pos ∧ (task.cost pos set.config.costFunction : ℤ) ≤
      task.lowerBound set.config.costFunction + d

section

variable (sets : task.Sets set) (contract : AtMostContract lib.encodeAtMostK)
  (reachable : Reachable lib set CaDiCaL (reenter set old) s)
  (allowed : CaDiCaL (s.queried lib set) answer)
include sets contract reachable allowed

theorem succeeds_of_done (done : s.iteration lib set answer = .done final 0) :
    ∃ log, Succeeds task set final s.encoder.delta log := by
  have sat := sets.backend
  obtain ⟨b, -, within⟩ := (reachable.mono fun _ _ => CaDiCaL.truthful).within sets contract
  have called := within.called contract
  have finished := iteration_done sat done
  obtain ⟨log, logged, cost⟩ := called.logged sat finished
  obtain ⟨pos, shows, valid, cheap⟩ := called.finished sat contract allowed.truthful finished
  rw [formula_delta] at cheap
  obtain ⟨atLeast, exhausted⟩ := reachable.exhausted sets contract
  refine ⟨log, ⟨⟨atLeast, pos, valid, cheap⟩, ?_⟩, reachable.delta_of_oneshot sat, logged, cost,
    fun wants => ?_⟩
  · rintro d ⟨le, admits⟩
    exact not_lt.mp fun lt => exhausted d le lt admits
  · rw [finished.plan wants]
    exact ⟨pos, shows, valid, cheap⟩

/-- A single call which has found nothing had nothing to find. -/
theorem not_admits_of_single (single : set.oneshot = true) (failed : answer.ret ≠ 10) :
    ¬task.Admits set.config set.inputDelta := by
  rintro ⟨pos, valid, cheap⟩
  obtain ⟨b, -, within⟩ := (reachable.mono fun _ _ => CaDiCaL.truthful).within sets contract
  have costly := (within.called contract).failed sets.backend contract valid.distinctGoals allowed
    failed valid
  rw [formula_delta, reachable.delta_of_oneshot sets.backend single] at costly
  omega

end

/-- What a call which has returned says about the request. -/
structure Decides (task : Task) (lib : Externals) (set : Settings) (start final : ISolver) (ret : ℤ) :
    Prop where
  found : ret = 0 → ∃ d log, Succeeds task set final d log
  /-- A single call fails only if there is nothing to be found, and leaves no plan. -/
  failed : ret = -1 → set.oneshot = true ∧ ¬task.Admits set.config set.inputDelta ∧ final.plan = []
  /-- Otherwise an answer came after the limit of the call. -/
  late : ret ≠ 0 → ret ≠ -1 → ret = 1 ∧ ∃ s answer, Reachable lib set CaDiCaL start s ∧
    CaDiCaL (s.queried lib set) answer ∧ ¬s.InLimit set answer
  released : final.Released

/-- Every return value of `Solve` means what it stands for, whatever the object has been used for
before and from whichever delta the search starts. -/
theorem solve_decides (sets : task.Sets set) (contract : AtMostContract lib.encodeAtMostK)
    (fits : MachineInt.Fits (set.timeout * 1000))
    (returns : Returns lib set CaDiCaL (reenter set old) final ret) :
    Decides task lib set (reenter set old) final ret := by
  obtain ⟨s, answer, reachable, allowed, done⟩ := returns
  have released := released_of_done done
  rcases iteration_returns sets.backend done with
    ⟨rfl, -⟩ | ⟨rfl, late⟩ | ⟨rfl, single, failed, plan, -⟩
  · exact ⟨fun _ => ⟨_, succeeds_of_done sets contract reachable allowed done⟩, nofun,
      fun nonzero => absurd rfl nonzero, released⟩
  · rw [reachable.inTime_iff fits] at late
    exact ⟨nofun, nofun, fun _ _ => ⟨rfl, s, answer, reachable, allowed, late⟩, released⟩
  · exact ⟨nofun, fun _ => ⟨single, not_admits_of_single sets contract reachable allowed single
      failed, plan⟩, fun _ other => absurd rfl other, released⟩

/-- The small task is solved at once. -/
theorem rows_returns (old : ISolver) :
    ∃ final, Returns .binomial Settings.shifting CaDiCaL (reenter Settings.shifting old) final 0 := by
  let answer : Answer := ⟨1, 1, 10, fun _ => true, false⟩
  have inTime : (init Settings.shifting []).InTime answer := ⟨by decide, by decide⟩
  obtain ⟨final, done⟩ : ∃ final, (reenter Settings.shifting old).iteration .binomial
      Settings.shifting answer = .done final 0 := exists_done_of_found _ _ _ rfl rfl rfl inTime
  refine ⟨final, _, answer, .start, .inl ⟨rfl, ?_⟩, done⟩
  rw [queried_satSolver rfl]
  exact (by decide +kernel : Models answer.model
    ((init Settings.shifting []).loaded .binomial Settings.shifting))

theorem solve_decides_rows : ∃ final, Decides .rows .binomial Settings.shifting
    (reenter Settings.shifting (init Settings.shifting [])) final 0 := by
  obtain ⟨final, returns⟩ := rows_returns (init Settings.shifting [])
  exact ⟨final, solve_decides (Task.rows_sets _) binomialAtMost_contract (by decide) returns⟩

end ISolver

end MAPFEncodings

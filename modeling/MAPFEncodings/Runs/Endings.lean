import MAPFEncodings.Runs.Returns
import MAPFEncodings.ToMathlib.Termination

/-! # `Solve` comes to an end

A call for a task which has a plan, and every single call, ends by itself: there are finitely many
deltas to be given up, and finitely many plans with conflicts for each of them. Any other call ends
when its time is up, whatever the solvers answer.
-/

namespace MAPFEncodings

open Cnf PathFinding Termination

theorem Task.Admits.mono {task : Task} {config : Config} {d d' : ℕ} (admits : task.Admits config d)
    (le : d ≤ d') : task.Admits config d' := by
  obtain ⟨pos, valid, cheap⟩ := admits
  exact ⟨pos, valid, by omega⟩

namespace ISolver

variable {task : Task} {lib : Externals} {set : Settings} {old b s s' final : ISolver}
  {answer : Answer} {answers : List Answer} {ret : ℤ} {oracle : Oracle}

/-- One iteration is followed by another one. -/
def Continues (lib : Externals) (set : Settings) (oracle : Oracle) (s s' : ISolver) : Prop :=
  ∃ answer, oracle (s.queried lib set) answer ∧ s.iteration lib set answer = .again s'

/-- CaDiCaL answers before the limit of the call has passed. -/
def Prompt (set : Settings) : Oracle := fun s answer => CaDiCaL s answer ∧ s.InLimit set answer

/-- A state of a call, with the refinements of its delta. -/
structure Refining (task : Task) (lib : Externals) (set : Settings) (old b : ISolver)
    (answers : List Answer) (s : ISolver) : Prop where
  reachable : Reachable lib set CaDiCaL (reenter set old) s
  fresh : Fresh task set b
  refinement : Refinement lib set CaDiCaL b answers s

theorem Refining.refined (refining : Refining task lib set old b answers s) (sat : set.backend = .sat)
    (contract : AtMostContract lib.encodeAtMostK) (goals : task.DistinctGoals) :
    Refined task lib set (b.encoder.createVariables lib b.nrVars).2 b.encoder.delta answers s :=
  (refining.refinement.mono fun _ _ => CaDiCaL.truthful).refined sat contract goals refining.fresh

/-- A further iteration refines the delta or opens the next one. -/
theorem Refining.next (refining : Refining task lib set old b answers s) (sets : task.Sets set)
    (contract : AtMostContract lib.encodeAtMostK) (goals : task.DistinctGoals)
    (allowed : CaDiCaL (s.queried lib set) answer)
    (again : s.iteration lib set answer = .again s') :
    (s'.encoder.delta = s.encoder.delta ∧ Refining task lib set old b (answers ++ [answer]) s') ∨
      (s'.encoder.delta = s.encoder.delta + 1 ∧ Refining task lib set old s' [] s') := by
  have sat := sets.backend
  have reachable := refining.reachable.step allowed again
  rcases iteration_again sat again with conflicted | advanced
  · refine .inl ⟨?_, reachable, refining.fresh,
      refining.refinement.step allowed again conflicted.firstTry⟩
    rw [conflicted.encoder, queried_encoder sat, formula_delta]
  · refine .inr ⟨?_, reachable, ?_, .start⟩
    · rw [advanced.encoder, queried_encoder sat, formula_delta]
    · exact (refining.refined sat contract goals).called.advanced sat advanced

/-- The refinements of one delta come to an end. -/
theorem Refining.leaves (refining : Refining task lib set old b answers s) (sets : task.Sets set)
    (contract : AtMostContract lib.encodeAtMostK) (goals : task.DistinctGoals) :
    ¬Endless (fun s s' => Continues lib set CaDiCaL s s' ∧ s'.encoder.delta = s.encoder.delta) s := by
  rintro ⟨run, rfl, steps⟩
  have refine_ (n : ℕ) : ∃ answers', n ≤ answers'.length ∧
      Refining task lib set old b answers' (run n) := by
    induction n with
    | zero => exact ⟨answers, Nat.zero_le _, refining⟩
    | succ n ih =>
      obtain ⟨answers', long, refining'⟩ := ih
      obtain ⟨⟨answer, allowed, again⟩, same⟩ := steps n
      rcases refining'.next sets contract goals allowed again with ⟨-, next⟩ | ⟨other, -⟩
      · exact ⟨_, by simpa using long, next⟩
      · omega
  obtain ⟨answers', long, refining'⟩ :=
    refine_ (2 ^ (b.encoder.createVariables lib b.nrVars).2.toNat + 1)
  have differ := (refining'.refined sets.backend contract goals).differ
  have bound := length_le_of_not_agree (List.pairwise_map.mpr differ)
  rw [List.length_map] at bound
  omega

/-- There are finitely many deltas to be given up. -/
theorem not_endless (sets : task.Sets set) (contract : AtMostContract lib.encodeAtMostK)
    (solvable : (∃ d, task.Admits set.config d) ∨ set.oneshot = true ∧ task.DistinctGoals) :
    ¬Endless (Continues lib set CaDiCaL) (reenter set old) := by
  have goals : task.DistinctGoals := by
    rcases solvable with ⟨d, pos, valid, -⟩ | ⟨-, goals⟩
    · exact valid.distinctGoals
    · exact goals
  obtain ⟨last, le⟩ : ∃ last, ∀ s, Reachable lib set CaDiCaL (reenter set old) s →
      s.encoder.delta ≤ last := by
    rcases solvable with ⟨d, admits⟩ | ⟨single, -⟩
    · refine ⟨max set.inputDelta d, fun s reachable => not_lt.mp fun lt => ?_⟩
      exact (reachable.exhausted sets contract).2 _ (le_max_left _ _) lt
        (admits.mono (le_max_right _ _))
    · exact ⟨set.inputDelta, fun s reachable =>
        (reachable.delta_of_oneshot sets.backend single).le⟩
  refine not_endless_of_phases (fun s => ∃ b answers, Refining task lib set old b answers s)
    (fun s => s.encoder.delta) last ?_ ?_ ?_ ?_ ⟨_, [], .start, reenter_fresh sets old, .start⟩
  · rintro s s' ⟨b, answers, refining⟩ ⟨answer, allowed, again⟩
    rcases refining.next sets contract goals allowed again with ⟨-, next⟩ | ⟨-, next⟩
    · exact ⟨_, _, next⟩
    · exact ⟨_, _, next⟩
  · rintro s s' ⟨b, answers, refining⟩ ⟨answer, allowed, again⟩
    rcases refining.next sets contract goals allowed again with ⟨same, -⟩ | ⟨more, -⟩ <;> omega
  · rintro s ⟨b, answers, refining⟩
    exact le s refining.reachable
  · rintro s ⟨b, answers, refining⟩
    exact refining.leaves sets contract goals

/-- A call which has something to find, or which tries only once, ends by itself. If all answers are
in time, it succeeds unless its only delta admits no plan. -/
theorem solve_ends (sets : task.Sets set) (contract : AtMostContract lib.encodeAtMostK)
    (solvable : (∃ d, task.Admits set.config d) ∨ set.oneshot = true ∧ task.DistinctGoals)
    (fits : MachineInt.Fits (set.timeout * 1000)) (old : ISolver) :
    ¬Endless (Continues lib set CaDiCaL) (reenter set old) ∧
      ∀ final ret, Returns lib set (Prompt set) (reenter set old) final ret → (ret = 0 ∨ ret = -1) ∧
        (ret = -1 ↔ set.oneshot = true ∧ ¬task.Admits set.config set.inputDelta) := by
  refine ⟨not_endless sets contract solvable, ?_⟩
  rintro final ret ⟨s, answer, reachable, ⟨allowed, inTime⟩, done⟩
  have complete := reachable.mono fun _ _ => And.left
  obtain ⟨building, solving, -⟩ := queried_clock lib set s
  unfold InLimit at inTime
  rw [building, solving] at inTime
  rcases iteration_returns sets.backend done with
    ⟨rfl, -⟩ | ⟨-, late⟩ | ⟨rfl, single, failed, -⟩
  · refine ⟨.inl rfl, iff_of_false (by decide) ?_⟩
    rintro ⟨single, nothing⟩
    obtain ⟨log, succeeds⟩ := succeeds_of_done sets contract complete allowed done
    exact nothing (succeeds.single single ▸ succeeds.least.1.2)
  · exact absurd ((complete.inTime_iff fits).mpr inTime) late
  · exact ⟨.inr rfl, iff_of_true rfl
      ⟨single, not_admits_of_single sets contract complete allowed single failed⟩⟩

theorem solve_ends_rows :
    let set := Settings.rows ⟨.shift, .mks, .pebble, .lazy, .allow⟩
    ¬Endless (Continues .binomial set CaDiCaL) (reenter set (init set [])) ∧
      ∀ final ret, Returns .binomial set (Prompt set) (reenter set (init set [])) final ret →
        (ret = 0 ∨ ret = -1) ∧ (ret = -1 ↔ set.oneshot = true ∧
          ¬Task.rows.Admits set.config set.inputDelta) :=
  solve_ends (Task.rows_sets ⟨.shift, .mks, .pebble, .lazy, .allow⟩) binomialAtMost_contract
    (.inl ⟨0, Task.rowsPlan, Task.rows_valid,
      le_trans (Int.ofNat_le.mpr Task.rows_cost) (by decide)⟩) (by decide) _

/-! ## The time limit -/

section

variable (set : Settings) (takes : ∀ q answer, oracle q answer → 1 ≤ answer.buildTime + answer.solveTime)
include takes

/-- Whatever a call starts with, an iteration which is followed by another one leaves less time. -/
theorem not_endless_in_time (old : ISolver) :
    ¬Endless (Continues lib set oracle) (reenter set old) := by
  refine not_endless_of_budget (Reachable lib set oracle (reenter set old))
    (fun s => s.timeLeft.toNat) ?_ ?_ .start
  · rintro s s' reachable ⟨answer, allowed, again⟩
    exact reachable.step allowed again
  · rintro s s' reachable ⟨answer, allowed, again⟩
    obtain ⟨⟨soon, sooner⟩, -, -, left, -⟩ := iteration_elapses again
    have := takes _ _ allowed
    omega

/-- If every iteration takes at least a millisecond, a call ends whatever the solver answers, after at
most as many iterations as its limit has milliseconds. -/
theorem solve_ends_in_time (fits : MachineInt.Fits (set.timeout * 1000)) (nonneg : 0 ≤ set.timeout)
    (old : ISolver) :
    ¬Endless (Continues lib set oracle) (reenter set old) ∧
      ∀ s, Reachable lib set oracle (reenter set old) s →
        s.buildingTime + s.solvingTime + s.timeLeft = set.timeout * 1000 ∧
          (0 ≤ s.timeLeft ∧ s.timeLeft + 100 < 2 ^ 31) ∧
          s.solverCalls ≤ s.buildingTime + s.solvingTime := by
  refine ⟨not_endless_in_time set takes old, fun s reachable => ?_⟩
  obtain ⟨sum, left⟩ := reachable.accounts fits
  exact ⟨sum, ⟨left nonneg, timelimit_fits set takes fits reachable⟩,
    reachable.solverCalls_le set takes⟩

end

theorem solve_ends_in_time_rows :
    let set : Settings := { Settings.shifting with backend := .smt }
    let oracle : Oracle := fun _ answer => 1 ≤ answer.buildTime + answer.solveTime
    ¬Endless (Continues .binomial set oracle) (reenter set (init set [])) ∧
      ∀ s, Reachable .binomial set oracle (reenter set (init set [])) s →
        s.buildingTime + s.solvingTime + s.timeLeft = set.timeout * 1000 ∧
          (0 ≤ s.timeLeft ∧ s.timeLeft + 100 < 2 ^ 31) ∧
          s.solverCalls ≤ s.buildingTime + s.solvingTime :=
  solve_ends_in_time _ (fun _ _ takes => takes) (by decide) (by decide) _

end ISolver

end MAPFEncodings

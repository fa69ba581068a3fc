import MAPFEncodings.Model.Timing
import MAPFEncodings.Runs.Invariant

/-! # A solver stopped by its time limit is not taken for an unsatisfiable formula

`InvokeSolverImplementation` maps an unknown result and an unsatisfiable formula to the same value.
The two are told apart by `TimesUp` alone, so every way in which a solver is stopped has to overrun
the limit: the margin of 100 ms, the countdown in steps of 50 ms and the rounding to seconds do.
-/

namespace MAPFEncodings

/-- A waiting thread calls `terminate()` no earlier than its limit. -/
theorem waitForTerminate_le {ended : ℕ → Bool} {sleep : ℕ → ℕ}
    (sleeps : ∀ clock, 50 * 1000000 ≤ sleep clock) {clock terminated : ℕ} {timeLeftMs : ℤ}
    (waits : waitForTerminate ended sleep clock timeLeftMs = some terminated) :
    clock + timeLeftMs * 1000000 ≤ terminated := by
  induction clock, timeLeftMs using waitForTerminate.induct ended sleep with
  | case1 clock timeLeftMs positive found =>
    rw [waitForTerminate, if_pos positive, if_pos found] at waits
    cases waits
  | case2 clock timeLeftMs positive running ih =>
    rw [waitForTerminate, if_pos positive, if_neg running] at waits
    have rest := ih waits
    have slept := sleeps clock
    push_cast at rest
    omega
  | case3 clock timeLeftMs elapsed found =>
    rw [waitForTerminate, if_neg elapsed, if_pos found] at waits
    cases waits
  | case4 clock timeLeftMs elapsed running =>
    rw [waitForTerminate, if_neg elapsed, if_neg running] at waits
    obtain rfl := Option.some.inj waits
    omega

/-- The seconds given to `timeout` are more than the limit. -/
theorem lt_timeoutSeconds {timelimit : ℤ} (nonneg : 0 ≤ timelimit) :
    timelimit < (timeoutSeconds timelimit).toNat * 1000 := by
  unfold timeoutSeconds
  rw [Int.tdiv_eq_ediv_of_nonneg nonneg]
  omega

theorem lt_milliseconds {ns : ℕ} {ms : ℤ} (enough : (ms + 1) * 1000000 ≤ ns) :
    ms < milliseconds ns := by
  unfold milliseconds
  omega

/-- However the solver is stopped by the limit `time_left + 100`, more than `time_left` has passed. -/
theorem StoppedByLimit.timesUp {backend : Backend} {timeLeft : ℤ} {start stop : ℕ} {answer : Answer}
    (nonneg : 0 ≤ timeLeft) (stopped : StoppedByLimit (timeLeft + 100) start stop backend answer) :
    timesUp start stop timeLeft = true ∧ answer.solveTime = milliseconds (stop - start) := by
  have overrun (late : (timeLeft + 1) * 1000000 ≤ (stop - start : ℕ)) :
      MAPFEncodings.timesUp start stop timeLeft = true :=
    decide_eq_true (lt_milliseconds late)
  cases stopped with
  | unknown ended sleep started terminated sleeps after waits before ret solveTime =>
    refine ⟨overrun ?_, solveTime⟩
    have := waitForTerminate_le sleeps waits
    omega
  | killed started after waits ret solveTime =>
    refine ⟨overrun ?_, solveTime⟩
    have := @lt_timeoutSeconds (timeLeft + 100) (by omega)
    omega

/-- The settings of the small task with a time limit of zero seconds. -/
def Settings.impatient (backend : Backend) : Settings where
  backend := backend
  config := ⟨.pass, .mks, .parallel, .eager, .allow⟩
  inst := Scenario.rows.inst
  timeout := 0
  useAvoid := false
  printPlan := false
  cnfFile := false
  ags := 2
  inputDelta := 0
  oneshot := false
  keepPlan := true

namespace ISolver

variable (lib : Externals) (set : Settings) (s : ISolver) (answer : Answer)

/-- Building a formula keeps the delta. -/
theorem queried_delta : (s.queried lib set).encoder.delta = s.encoder.delta := by
  have variables_ (e : Encoder) (lit : ℤ) : (e.createVariables lib lit).1.delta = e.delta := by
    unfold Encoder.createVariables
    cases e.config.variableKind <;> rfl
  change (({ s with conflictsPresent := false }.createSolver set).created lib set).encoder.delta = _
  rw [created_prepared]
  unfold created
  cases set.backend with
  | sat =>
    cases first : s.firstTry
    · rfl
    · exact variables_ _ _
  | smt =>
    unfold Encoder.createFormulaMonosat
    cases s.encoder.config.variableKind <;> rfl

/-- A call which is stopped by its limit is followed by a successful test of `TimesUp`, and `Solve`
returns 1 without trying the next delta. -/
theorem stoppedByLimit_returns (start stop : ℕ) (reached : answer.buildTime ≤ s.timeLeft)
    (stopped : StoppedByLimit (s.timeLeft - answer.buildTime + 100) start stop set.backend answer) :
    MAPFEncodings.timesUp start stop (s.timeLeft - answer.buildTime) = true ∧
      ∃ final, s.iteration lib set answer = .done final 1 ∧
        final.encoder.delta = s.encoder.delta := by
  obtain ⟨late, measured⟩ := stopped.timesUp (by omega)
  obtain ⟨timeLeft, -⟩ := queried_kept lib set s
  refine ⟨late, ?_⟩
  have overrun : answer.solveTime > s.timeLeft - answer.buildTime := by
    rw [measured]
    exact of_decide_eq_true late
  unfold iteration
  dsimp only
  change ∃ final, (if answer.buildTime > (s.queried lib set).timeLeft then _ else _) = _ ∧ _
  rw [timeLeft, if_neg (by omega)]
  change ∃ final, (if answer.solveTime > (s.queried lib set).timeLeft - answer.buildTime then _
    else _) = _ ∧ _
  rw [timeLeft, if_pos overrun]
  refine ⟨_, rfl, ?_⟩
  rw [← s.queried_delta lib set]
  change (if wantsPlan set then (s.queried lib set).encoder
    else (s.queried lib set).encoder.cleanUp).cleanUp.delta = _
  split <;> rfl

/-- CaDiCaL is stopped after two sleeps, and monosat after one second. -/
theorem stoppedByLimit_returns_rows :
    (MAPFEncodings.timesUp 0 100000000 0 = true ∧ ∃ final,
      (init (.impatient .sat) []).iteration .binomial (.impatient .sat) ⟨0, 100, 0, fun _ => false, false⟩ =
          .done final 1 ∧ final.encoder.delta = 0) ∧
      MAPFEncodings.timesUp 0 1000000000 0 = true ∧ ∃ final,
        (init (.impatient .smt) []).iteration .binomial (.impatient .smt)
          ⟨0, 1000, 31744, fun _ => false, false⟩ = .done final 1 ∧ final.encoder.delta = 0 := by
  have waits : waitForTerminate (fun _ => false) (fun _ => 50000000) 0 100 = some 100000000 := by
    simp [waitForTerminate]
  exact ⟨stoppedByLimit_returns .binomial (.impatient .sat) (init (.impatient .sat) [])
      ⟨0, 100, 0, fun _ => false, false⟩ 0 100000000 le_rfl
      (.unknown (fun _ => false) (fun _ => 50000000) 0 100000000 (fun _ => le_rfl) le_rfl waits le_rfl
        rfl rfl),
    stoppedByLimit_returns .binomial (.impatient .smt) (init (.impatient .smt) [])
      ⟨0, 1000, 31744, fun _ => false, false⟩ 0 1000000000 le_rfl
      (.killed 0 le_rfl (by decide) rfl rfl)⟩

/-! ## The time of a call -/

/-- What an iteration adds to the times and to the number of calls. -/
structure Elapses (s : ISolver) (answer : Answer) (s' : ISolver) : Prop where
  inTime : s.InTime answer
  buildingTime : s'.buildingTime = s.buildingTime + answer.buildTime
  solvingTime : s'.solvingTime = s.solvingTime + answer.solveTime
  timeLeft : s'.timeLeft = s.timeLeft - answer.buildTime - answer.solveTime
  solverCalls : s'.solverCalls = s.solverCalls + 1

/-- All answers of a call until now, with this one, come before the limit which the call has been
given. -/
def InLimit (set : Settings) (s : ISolver) (answer : Answer) : Prop :=
  s.buildingTime + s.solvingTime + answer.buildTime ≤ set.timeout * 1000 ∧
    s.buildingTime + s.solvingTime + answer.buildTime + answer.solveTime ≤ set.timeout * 1000

variable {lib set s answer} {s' old : ISolver} {oracle : Oracle}

/-- Deciding what to do next takes no time. -/
theorem decide_again_clock {res : ℤ} (again : s.decide_ set res = .again s') :
    s'.buildingTime = s.buildingTime ∧ s'.solvingTime = s.solvingTime ∧ s'.timeLeft = s.timeLeft ∧
      s'.solverCalls = s.solverCalls := by
  unfold decide_ at again
  split at again
  · injection again with same
    exact same ▸ ⟨rfl, rfl, rfl, rfl⟩
  · split at again
    · cases again
    · split at again
      · cases again
      · split at again
        · cases again
        · injection again with same
          exact same ▸ ⟨rfl, rfl, rfl, rfl⟩

theorem queried_clock (lib : Externals) (set : Settings) (s : ISolver) :
    (s.queried lib set).buildingTime = s.buildingTime ∧
      (s.queried lib set).solvingTime = s.solvingTime ∧
      (s.queried lib set).timeLeft = s.timeLeft ∧
      (s.queried lib set).solverCalls = s.solverCalls := by
  unfold queried build createSolver
  cases set.backend <;> exact ⟨rfl, rfl, rfl, rfl⟩

theorem iteration_elapses (again : s.iteration lib set answer = .again s') : Elapses s answer s' := by
  obtain ⟨building, solving, left, calls⟩ := queried_clock lib set s
  unfold iteration at again
  dsimp only at again
  split at again
  · cases again
  · next soon =>
    split at again
    · cases again
    · next sooner =>
      change ¬answer.buildTime > (s.queried lib set).timeLeft at soon
      change ¬answer.solveTime > (s.queried lib set).timeLeft - answer.buildTime at sooner
      obtain ⟨building', solving', left', calls'⟩ := decide_again_clock again
      refine ⟨⟨by omega, by omega⟩, building'.trans ?_, solving'.trans ?_, left'.trans ?_,
        calls'.trans ?_⟩
      · exact congrArg (· + answer.buildTime) building
      · exact congrArg (· + answer.solveTime) solving
      · exact congrArg (· - answer.buildTime - answer.solveTime) left
      · exact congrArg (· + 1) calls

section

variable (fits : MachineInt.Fits (set.timeout * 1000))
  (reachable : Reachable lib set oracle (reenter set old) s)
include fits reachable

/-- The times of a call add up to its limit, with either solver and whatever it answers. -/
theorem Reachable.accounts :
    s.buildingTime + s.solvingTime + s.timeLeft = set.timeout * 1000 ∧
      (0 ≤ set.timeout → 0 ≤ s.timeLeft) := by
  induction reachable with
  | start =>
    have left : (reenter set old).timeLeft = set.timeout * 1000 := MachineInt.wrap_eq_self fits
    rw [left]
    refine ⟨?_, fun nonneg => Int.mul_nonneg nonneg (by decide)⟩
    change 0 + 0 + set.timeout * 1000 = _
    omega
  | step _ _ again ih =>
    obtain ⟨⟨soon, sooner⟩, building, solving, left, -⟩ := iteration_elapses again
    rw [building, solving, left]
    exact ⟨by omega, fun _ => by omega⟩

/-- What `TimesUp` compares is whether the limit of the call has passed. -/
theorem Reachable.inTime_iff : s.InTime answer ↔ s.InLimit set answer := by
  have accounts := (reachable.accounts fits).1
  unfold InTime InLimit
  omega

end

section

variable (set : Settings) (takes : ∀ q answer, oracle q answer → 1 ≤ answer.buildTime + answer.solveTime)
include takes

/-- Every call of the solver takes its time. -/
theorem Reachable.solverCalls_le (reachable : Reachable lib set oracle (reenter set old) s) :
    s.solverCalls ≤ s.buildingTime + s.solvingTime := by
  induction reachable with
  | start => exact le_rfl
  | step _ allowed again ih =>
    obtain ⟨-, building, solving, -, more⟩ := iteration_elapses again
    have := takes _ _ allowed
    rw [building, solving, more]
    push_cast
    omega

/-- The sum `time_left + 100` can be held whenever the limit in milliseconds can. -/
theorem timelimit_fits (fits : MachineInt.Fits (set.timeout * 1000))
    (reachable : Reachable lib set oracle (reenter set old) s) : s.timeLeft + 100 < 2 ^ 31 := by
  have accounts := (reachable.accounts fits).1
  have spent := reachable.solverCalls_le set takes
  have := fits.2
  omega

end

end ISolver

end MAPFEncodings

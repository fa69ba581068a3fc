import MAPFEncodings.Runs.Iteration
import MAPFEncodings.Runs.TimeLimit

/-! # A failing monosat process

`system` returns 2560 and 5120 for monosat's exit codes 10 and 20. Every other status means that
there is no answer: the binary is missing, the file was not understood, or the process was killed.
`InvokeSolverImplementation` returns its error value only if the assignment is missing after a
satisfiable formula, so that `Solve` takes every failure for an unsatisfiable formula.
-/

namespace MAPFEncodings

/-- The status is neither the one of a satisfiable nor the one of an unsatisfiable formula. -/
def Failed (answer : Answer) : Prop := answer.ret ≠ exitStatus 10 ∧ answer.ret ≠ exitStatus 20

/-- The settings of the small task for monosat. -/
def Settings.monosat (oneshot : Bool) : Settings where
  backend := .smt
  config := ⟨.pass, .mks, .parallel, .eager, .allow⟩
  inst := Scenario.rows.inst
  timeout := 10
  useAvoid := false
  printPlan := false
  cnfFile := true
  ags := 2
  inputDelta := 0
  oneshot := oneshot
  keepPlan := true

/-- The answer when the binary is missing: the shell's exit code is 127. -/
def Answer.missingBinary : Answer := ⟨0, 0, 32512, fun _ => false, false⟩

namespace ISolver

/-- `Solve` returns 1, which is documented as timeout or error. -/
def Outcome.ReportsError : Outcome → Prop
  | .done _ ret => ret = 1
  | .again _ => False

variable {lib : Externals} {set : Settings} {s : ISolver} {answer : Answer}

/-- A status other than 2560 gives the result 1 and no plan. -/
theorem invoke_of_failed (smt : set.backend = .smt) (failed : answer.ret ≠ exitStatus 10)
    (q : ISolver) : (q.invoke set answer).2 = 1 := by
  have other : answer.ret ≠ 2560 := failed
  simp only [invoke, invokeImplementation, smt, if_neg other]

/-- An iteration in time decides about the result of `InvokeSolver`. -/
private theorem iteration_inTime (inTime : s.InTime answer) : ∃ q r : ISolver,
    s.iteration lib set answer =
        (r.logStatistics (q.invoke set answer).2).decide_ set (q.invoke set answer).2 ∧
      r.encoder.delta = s.encoder.delta := by
  have timeLeft := (queried_kept lib set s).1
  let q : ISolver := { s.queried lib set with
    buildingTime := (s.queried lib set).buildingTime + answer.buildTime
    timeLeft := (s.queried lib set).timeLeft - answer.buildTime }
  let r : ISolver := { (q.invoke set answer).1 with
    solvingTime := (q.invoke set answer).1.solvingTime + answer.solveTime
    timeLeft := (q.invoke set answer).1.timeLeft - answer.solveTime }
  refine ⟨q, r, ?_, ?_⟩
  · have built : ¬answer.buildTime > (s.queried lib set).timeLeft := by
      rw [timeLeft]
      exact not_lt.mpr inTime.1
    have solved : ¬answer.solveTime > (q.invoke set answer).1.timeLeft := by
      change ¬answer.solveTime > (s.queried lib set).timeLeft - answer.buildTime
      rw [timeLeft]
      exact not_lt.mpr inTime.2
    unfold iteration
    exact (if_neg built).trans (if_neg solved)
  · rw [← s.queried_delta lib set]
    change (if wantsPlan set then (s.queried lib set).encoder
      else (s.queried lib set).encoder.cleanUp).delta = _
    split <;> rfl

/-- A single attempt which fails in time returns -1, and an optimizing run goes on with the next
delta. -/
theorem iteration_failed_cases (smt : set.backend = .smt) (failed : Failed answer)
    (inTime : s.InTime answer) :
    (set.oneshot = true → ∃ final, s.iteration lib set answer = .done final (-1)) ∧
      (set.oneshot = false → ∃ next, s.iteration lib set answer = .again next ∧
        next.encoder.delta = s.encoder.delta + 1) := by
  obtain ⟨q, r, eq, delta⟩ := @iteration_inTime lib set s answer inTime
  rw [invoke_of_failed smt failed.1 q] at eq
  rw [eq, ← delta]
  unfold decide_
  rw [if_neg (fun found => one_ne_zero found.1), if_neg one_ne_zero, if_neg (by decide)]
  cases set.oneshot
  · exact ⟨fun impossible => absurd impossible (by decide), fun _ => ⟨_, rfl, rfl⟩⟩
  · exact ⟨fun _ => ⟨_, rfl⟩, fun impossible => absurd impossible (by decide)⟩

variable (lib set s answer) in
/-- No failing status within the time limit is ever reported as an error: a single attempt returns
-1, documented as unsatisfiable, and an optimizing run goes on with the next delta. -/
theorem failed_not_reported (smt : set.backend = .smt) (failed : Failed answer)
    (inTime : s.InTime answer) :
    ¬(s.iteration lib set answer).ReportsError ∧
      (set.oneshot = true → ∃ final, s.iteration lib set answer = .done final (-1)) ∧
      (set.oneshot = false → ∃ next, s.iteration lib set answer = .again next ∧
        next.encoder.delta = s.encoder.delta + 1) := by
  obtain ⟨single, optimizing⟩ := @iteration_failed_cases lib set s answer smt failed inTime
  refine ⟨fun reported => ?_, single, optimizing⟩
  cases oneshot : set.oneshot
  · obtain ⟨_, eq, -⟩ := optimizing oneshot
    rw [eq] at reported
    exact reported
  · obtain ⟨_, eq⟩ := single oneshot
    rw [eq] at reported
    exact absurd (show (-1 : ℤ) = 1 from reported) (by decide)

theorem failed_not_reported_missingBinary :
    ¬((init (.monosat true) []).iteration .binomial (.monosat true) .missingBinary).ReportsError ∧
      ((Settings.monosat true).oneshot = true → ∃ final, (init (.monosat true) []).iteration .binomial
        (.monosat true) .missingBinary = .done final (-1)) ∧
      ((Settings.monosat true).oneshot = false → ∃ next, (init (.monosat true) []).iteration .binomial
        (.monosat true) .missingBinary = .again next ∧
          next.encoder.delta = (init (.monosat true) []).encoder.delta + 1) :=
  failed_not_reported .binomial (.monosat true) (init (.monosat true) []) .missingBinary rfl
    ⟨by decide, by decide⟩ ⟨by decide, by decide⟩

/-- Without the binary a single attempt claims that there is no plan. -/
theorem missingBinary_unsatisfiable :
    Failed .missingBinary ∧ (init (.monosat true) []).InTime .missingBinary ∧
      ¬((init (.monosat true) []).iteration .binomial (.monosat true) .missingBinary).ReportsError ∧
      ∃ final, Returns .binomial (.monosat true) (fun _ answer => answer = .missingBinary)
        (init (.monosat true) []) final (-1) := by
  have failed : Failed .missingBinary := ⟨by decide, by decide⟩
  have inTime : (init (.monosat true) []).InTime .missingBinary := ⟨by decide, by decide⟩
  obtain ⟨final, eq⟩ := (@iteration_failed_cases .binomial (.monosat true) (init (.monosat true) [])
    .missingBinary rfl failed inTime).1 rfl
  refine ⟨failed, inTime, fun reported => ?_, final, _, _, .start, rfl, eq⟩
  rw [eq] at reported
  exact absurd (show (-1 : ℤ) = 1 from reported) (by decide)

end ISolver

end MAPFEncodings

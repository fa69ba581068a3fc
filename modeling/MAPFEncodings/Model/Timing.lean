import MAPFEncodings.Model.Solver

/-! # The clock, and how a solver is stopped

Times on the measuring clock are natural numbers of nanoseconds. What the environment decides is
given by functions: how long each `sleep_for` takes, and when the flag `ended` is set.
-/

namespace MAPFEncodings

/-- `duration_cast<milliseconds>(...).count()`, which truncates. -/
def milliseconds (nanoseconds : ℕ) : ℤ := (nanoseconds / 1000000 : ℕ)

/-- The comparison of `TimesUp`. -/
def timesUp (start current : ℕ) (timelimit : ℤ) : Bool :=
  decide (milliseconds (current - start) > timelimit)

/-- `_MAPFSAT_SAT::WaitForTerminate`, from a time on: the time at which `terminate()` is called, if
`ended` is not found set before. A sleep which starts at `clock` takes `sleep clock`. -/
def waitForTerminate (ended : ℕ → Bool) (sleep : ℕ → ℕ) (clock : ℕ) (timeLeftMs : ℤ) : Option ℕ :=
  if 0 < timeLeftMs then
    if ended clock then none
    else waitForTerminate ended sleep (clock + sleep clock) (timeLeftMs - 50)
  else if ended clock then none else some clock
termination_by timeLeftMs.toNat
decreasing_by omega

/-- The argument of the command `timeout`, in seconds. -/
def timeoutSeconds (timelimit : ℤ) : ℤ := timelimit.tdiv 1000 + 1

/-- The status which `system` returns for an exit code. -/
def exitStatus (code : ℤ) : ℤ := code * 256

/-- The exit code with which `timeout` reports that it has stopped its command. -/
def timeoutCode : ℤ := 124

/-- A call of `InvokeSolver(timelimit)` between the times `start` and `stop` in which the solver is
stopped by its limit: CaDiCaL returns `UNKNOWN`, at some time after `terminate()` was called by the
thread which waits, or monosat is stopped by the command `timeout`. Sleeping and waiting take at
least as long as asked for. -/
inductive StoppedByLimit (timelimit : ℤ) (start stop : ℕ) : Backend → Answer → Prop
  | unknown {answer : Answer} (ended : ℕ → Bool) (sleep : ℕ → ℕ) (started terminated : ℕ)
      (sleeps : ∀ clock, 50 * 1000000 ≤ sleep clock) (after : start ≤ started)
      (waits : waitForTerminate ended sleep started timelimit = some terminated)
      (before : terminated ≤ stop) (ret : answer.ret = 0)
      (solveTime : answer.solveTime = milliseconds (stop - start)) :
    StoppedByLimit timelimit start stop .sat answer
  | killed {answer : Answer} (started : ℕ) (after : start ≤ started)
      (waits : started + (timeoutSeconds timelimit).toNat * 1000000000 ≤ stop)
      (ret : answer.ret = exitStatus timeoutCode)
      (solveTime : answer.solveTime = milliseconds (stop - start)) :
    StoppedByLimit timelimit start stop .smt answer

end MAPFEncodings

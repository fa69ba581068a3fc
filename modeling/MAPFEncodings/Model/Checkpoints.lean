import MAPFEncodings.Model.Timing

/-! # `CreateFormula` with its checks of the time

Between the sections of both implementations stands a call of `TimesUp`, and if it succeeds the formula
is given up with the value `-1`.
-/

namespace MAPFEncodings

open Cnf

/-- The generators which are called until a check fails, and whether one does. -/
def callUntil (late : ℕ → Bool) : ℕ → List (List Call) → List Call × Bool
  | _, [] => ([], false)
  | i, part :: parts =>
    if late i then (part, true)
    else (part ++ (callUntil late (i + 1) parts).1, (callUntil late (i + 1) parts).2)

/-- The readings of the clock while a formula is built: in `Solve` before and after the call, and in
`CreateFormula` when it is entered and at its checks. -/
structure Readings where
  start : ℕ
  entered : ℕ
  check : ℕ → ℕ
  stop : ℕ
  start_le : start ≤ entered
  entered_le (i : ℕ) : entered ≤ check i
  le_stop (i : ℕ) : check i ≤ stop

namespace ISolver

variable (lib : Externals) (set : Settings) (s : ISolver)

/-- `nr_vars = CreateFormula(time_left)` with the checks. -/
def buildChecked (r : Readings) : ISolver :=
  let f := s.created lib set
  let (calls, up) :=
    callUntil (fun i => MAPFEncodings.timesUp r.entered (r.check i) s.timeLeft) 0 f.checked
  if up then { { s.execute set calls with encoder := f.encoder }.timesUp with nrVars := -1 }
  else { s.execute set (calls ++ f.rest) with encoder := f.encoder, nrVars := f.lit }

/-- The body of `while (true)` from the call of `InvokeSolver` on. -/
def solveBuilt (buildTime : ℤ) (answer : Answer) : Outcome :=
  let s :=
    { s with
      buildingTime := s.buildingTime + buildTime
      timeLeft := s.timeLeft - buildTime }
  let (s, res) := s.invoke set answer
  if answer.solveTime > s.timeLeft then .done s.timesUp 1 else
  let s :=
    { s with
      solvingTime := s.solvingTime + answer.solveTime
      timeLeft := s.timeLeft - answer.solveTime }
  (s.logStatistics res).decide_ set res

/-- The body of `while (true)` with the checks. -/
def iterationChecked (r : Readings) (answer : Answer) : Outcome :=
  let s := ({ s with conflictsPresent := false }.createSolver set).buildChecked lib set r
  if MAPFEncodings.timesUp r.start r.stop s.timeLeft then .done s.timesUp 1 else
  s.solveBuilt set (milliseconds (r.stop - r.start)) answer

/-- The states at the head of the loop with the checks. -/
inductive ReachableChecked (oracle : Oracle) (start : ISolver) : ISolver → Prop
  | start : ReachableChecked oracle start start
  | step {s s' : ISolver} {answer : Answer} (r : Readings)
      (before : ReachableChecked oracle start s) (allowed : oracle (s.queried lib set) answer)
      (measured : answer.buildTime = milliseconds (r.stop - r.start))
      (again : s.iterationChecked lib set r answer = .again s') : ReachableChecked oracle start s'

/-- A call of `Solve` with the checks may return `ret` and leave the solver in state `final`. -/
def ReturnsChecked (oracle : Oracle) (start final : ISolver) (ret : ℤ) : Prop :=
  ∃ s answer r, ReachableChecked lib set oracle start s ∧ oracle (s.queried lib set) answer ∧
    answer.buildTime = milliseconds (r.stop - r.start) ∧
    s.iterationChecked lib set r answer = .done final ret

end ISolver

end MAPFEncodings

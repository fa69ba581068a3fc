import MAPFEncodings.Model.Monosat
import MAPFEncodings.ToMathlib.MachineInt

/-! # `_MAPFSAT_ISolver::Solve`

One iteration of the loop of `Solve` is a function of the solver's members and of what the
environment does: the answer of the solver and the time which passes. Both encodings share the
loop; the virtual functions are chosen by `Backend`.
-/

namespace MAPFEncodings

open Cnf

/-- The classes `_MAPFSAT_SAT` and `_MAPFSAT_SMT`. -/
inductive Backend where
  | sat
  | smt
deriving DecidableEq, Repr

/-- What the constructor, `SetData` and the arguments of `Solve` fix. -/
structure Settings where
  backend : Backend
  config : Config
  inst : Instance
  timeout : ℤ
  useAvoid : Bool
  printPlan : Bool
  cnfFile : Bool
  ags : ℕ
  inputDelta : ℕ
  oneshot : Bool
  keepPlan : Bool

/-- The contents of the file named by `cnf_file`. -/
structure CnfFile where
  variables_ : ℤ
  clauses : ℕ
  lines : List Line

/-- The members of `_MAPFSAT_Logger` which `Solve` writes. -/
structure Log where
  nrVars : ℤ
  counters : Counters
  buildingTime : ℤ
  solvingTime : ℤ
  solutionMks : ℤ
  solutionSoc : ℤ
  solverCalls : ℕ
  res : ℤ

/-- The members and local variables which change during `Solve`. -/
structure ISolver where
  encoder : Encoder
  timeLeft : ℤ
  buildingTime : ℤ
  solvingTime : ℤ
  solverCalls : ℕ
  nrVars : ℤ
  counters : Counters
  cnfPrintable : List Line
  file : Option CnfFile
  conflicts : Conflicts
  conflictsPresent : Bool
  firstTry : Bool
  satSolver : Option (List Clause)
  plan : Plan
  log : Option Log

/-- What happens outside: the milliseconds which building and solving take, the solver's status,
its assignment, and whether monosat left an assignment to read. -/
structure Answer where
  buildTime : ℤ
  solveTime : ℤ
  ret : ℤ
  model : Valuation
  witnessFile : Bool

/-- `CleanUp`. -/
def Encoder.cleanUp (e : Encoder) : Encoder :=
  { e with
    atTable := []
    passTable := []
    shiftTable := []
    shiftTimesStart := []
    shiftTimesEnd := [] }

namespace ISolver

/-- The statements of `Solve` before its loop. Clearing the stream `cnf_printable` resets its
error state and keeps its contents, here and below. -/
def init (set : Settings) (cnfPrintable : List Line) : ISolver where
  encoder :=
    { inst := set.inst
      config := set.config
      agents := set.ags
      vertices := set.inst.numberOfVertices
      delta := set.inputDelta
      maxTimestep := 0
      atTable := []
      passTable := []
      shiftTable := []
      shiftTimesStart := []
      shiftTimesEnd := [] }
  timeLeft := MachineInt.wrap (set.timeout * 1000)
  buildingTime := 0
  solvingTime := 0
  solverCalls := 0
  nrVars := 1
  counters := .zero
  cnfPrintable := cnfPrintable
  file := none
  conflicts := ⟨[], [], []⟩
  conflictsPresent := false
  firstTry := true
  satSolver := none
  plan := []
  log := none

/-- `Solve` on an object which has been used before: the members which the statements before the
loop do not assign keep their values. -/
def reenter (set : Settings) (old : ISolver) : ISolver :=
  let start := init set old.cnfPrintable
  { start with
    encoder :=
      { start.encoder with
        maxTimestep := old.encoder.maxTimestep
        shiftTimesStart := old.encoder.shiftTimesStart
        shiftTimesEnd := old.encoder.shiftTimesEnd }
    file := old.file
    conflictsPresent := old.conflictsPresent
    plan := old.plan
    log := old.log }

variable (lib : Externals) (set : Settings) (s : ISolver)

/-- `CreateSolver`, if there is none. Monosat is a separate program. -/
def createSolver : ISolver :=
  match set.backend with
  | .sat => { s with satSolver := some (s.satSolver.getD []) }
  | .smt => s

def releaseSolver : ISolver := { s with satSolver := none }

/-- The effect of the calls of generators: `AddClause` hands a clause to the solver, and prints it if
there is a file. -/
def execute (calls : List Call) : ISolver :=
  { s with
    counters := (calls.flatMap Call.statements).foldl Statement.exec s.counters
    cnfPrintable := if set.cnfFile then s.cnfPrintable ++ calls.flatMap Call.lines else s.cnfPrintable
    satSolver := s.satSolver.map (· ++ calls.flatMap Call.clauses) }

/-- The call of the virtual function `CreateFormula`. -/
def created : Formula :=
  match set.backend with
  | .sat => s.encoder.createFormula lib s.firstTry set.useAvoid s.nrVars s.conflicts
  | .smt => s.encoder.createFormulaMonosat lib set.useAvoid

/-- `nr_vars = CreateFormula(time_left)`. -/
def build : ISolver :=
  { s.execute set (s.created lib set).calls with
    encoder := (s.created lib set).encoder
    nrVars := (s.created lib set).lit }

/-- The condition under which a plan is extracted. -/
def wantsPlan : Bool := set.printPlan || set.keepPlan || set.config.lazyConst == .lazy

/-- `InvokeSolverImplementation` of both encodings: the result, and the plan if one is read. -/
def invokeImplementation (answer : Answer) : ℤ × Option Plan :=
  match set.backend with
  | .sat =>
    if answer.ret = 10 then
      (0, if wantsPlan set then some (s.encoder.readPlan answer.model) else none)
    else (1, none)
  | .smt =>
    if answer.ret = 2560 then
      if wantsPlan set then
        if answer.witnessFile then
          (0, some (s.encoder.extractPlan fun a v t =>
            s.encoder.getNextVertexMonosat answer.model a v t))
        else (-1, none)
      else (0, none)
    else (1, none)

/-- `InvokeSolver`. -/
def invoke (answer : Answer) : ISolver × ℤ :=
  let file := if set.cnfFile then some ⟨s.nrVars - 1, s.counters.clauses, s.cnfPrintable⟩ else s.file
  let encoder := if wantsPlan set then s.encoder else s.encoder.cleanUp
  let (res, read) := { s with encoder := encoder }.invokeImplementation set answer
  let plan := read.getD []
  let lazily := !plan.isEmpty && set.config.lazyConst == .lazy
  let conflicts := if lazily then generateConflicts set.config.movement plan else s.conflicts
  ({ s with
      encoder := encoder
      file := file
      plan := plan
      conflicts := conflicts
      conflictsPresent := s.conflictsPresent || (lazily && conflicts.present)
      solverCalls := s.solverCalls + 1 }, res)

/-- The section "log statistics". -/
def logStatistics (res : ℤ) : ISolver :=
  { s with
    log := some
      { nrVars := s.nrVars
        counters := s.counters
        buildingTime := s.buildingTime
        solvingTime := s.solvingTime
        solutionMks := s.encoder.inst.getMksLB s.encoder.agents + s.encoder.delta
        solutionSoc := match s.encoder.config.costFunction with
          | .mks => 0
          | .soc => s.encoder.inst.getSocLB s.encoder.agents + s.encoder.delta
        solverCalls := s.solverCalls
        res := res } }

/-- The preparation of the next delta. -/
def nextDelta : ISolver :=
  { s.releaseSolver with
    encoder := { s.encoder.cleanUp with delta := s.encoder.delta + 1 }
    firstTry := true }

/-- `TimesUp` frees what a run has allocated. -/
def timesUp : ISolver := { s.releaseSolver with encoder := s.encoder.cleanUp }

/-- How an iteration of the loop ends. -/
inductive Outcome where
  | again (s : ISolver)
  | done (s : ISolver) (ret : ℤ)

/-- The section "what to do next?". -/
def decide_ (res : ℤ) : Outcome :=
  if res = 0 ∧ set.config.lazyConst = .lazy ∧ s.conflictsPresent then
    .again { s with firstTry := false }
  else if res = 0 then .done s.nextDelta 0
  else if res = -1 then .done s.nextDelta 1
  else if set.oneshot then .done s.nextDelta (-1)
  else .again s.nextDelta

/-- The body of `while (true)`. -/
def iteration (answer : Answer) : Outcome :=
  let s := ({ s with conflictsPresent := false }.createSolver set).build lib set
  if answer.buildTime > s.timeLeft then .done s.timesUp 1 else
  let s :=
    { s with
      buildingTime := s.buildingTime + answer.buildTime
      timeLeft := s.timeLeft - answer.buildTime }
  let (s, res) := s.invoke set answer
  if answer.solveTime > s.timeLeft then .done s.timesUp 1 else
  let s :=
    { s with
      solvingTime := s.solvingTime + answer.solveTime
      timeLeft := s.timeLeft - answer.solveTime }
  (s.logStatistics res).decide_ set res

/-! ## Runs -/

/-- What is asked of the answers in a run, given the members when the solver is called. -/
abbrev Oracle := ISolver → Answer → Prop

/-- Whenever the status is SAT, the assignment satisfies the clauses. -/
def Truthful : Oracle := fun s answer =>
  answer.ret = 10 → Models answer.model (s.satSolver.getD [])

/-- CaDiCaL is sound and complete: it returns a model, or there is none. -/
def CaDiCaL : Oracle := fun s answer =>
  (answer.ret = 10 ∧ Models answer.model (s.satSolver.getD [])) ∨
    (answer.ret = 20 ∧ ∀ σ, ¬Models σ (s.satSolver.getD []))

/-- The members when the solver is called. -/
def queried : ISolver := ({ s with conflictsPresent := false }.createSolver set).build lib set

/-- The states at the head of the loop. -/
inductive Reachable (oracle : Oracle) (start : ISolver) : ISolver → Prop
  | start : Reachable oracle start start
  | step {s s' : ISolver} {answer : Answer} (before : Reachable oracle start s)
      (allowed : oracle (s.queried lib set) answer)
      (again : s.iteration lib set answer = .again s') : Reachable oracle start s'

/-- A call of `Solve` may return `ret` and leave the solver in state `final`. -/
def Returns (oracle : Oracle) (start final : ISolver) (ret : ℤ) : Prop :=
  ∃ s answer, Reachable lib set oracle start s ∧ oracle (s.queried lib set) answer ∧
    s.iteration lib set answer = .done final ret

end ISolver

end MAPFEncodings

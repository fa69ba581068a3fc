import MAPFEncodings.Model.InputFiles
import MAPFEncodings.Model.Solver

/-! # `main`: solving with more and more agents

`PickEncoding` reads the name of an encoding. After a successful call the loop of `main` asks the same
instance and the same solver for more agents, and `PrintStatistics` writes a record of each call. The
options are the values which `getopt` and the conversions `stoi` and `atoi` have returned.
-/

namespace MAPFEncodings

open Text

/-! ## Picking an encoding -/

/-- What `parsed_options[0]` is compared with and the value which is then assigned; the tables below are
those of the other fields. -/
def costOptions : List (List Char × CostFunction) := [(chars "mks", .mks), (chars "soc", .soc)]

def movesOptions : List (List Char × Movement) :=
  [(chars "parallel", .parallel), (chars "pebble", .pebble)]

def varOptions : List (List Char × Variables × Backend) :=
  [(chars "at", .at_, .sat), (chars "pass", .pass, .sat), (chars "shift", .shift, .sat),
    (chars "monosat-pass", .pass, .smt), (chars "monosat-shift", .shift, .smt)]

def lazyOptions : List (List Char × LazyConst) := [(chars "eager", .eager), (chars "lazy", .lazy)]

def dupliOptions : List (List Char × Duplicates) :=
  [(chars "single", .forbid), (chars "dupli", .allow)]

/-- The assertions of the constructors. -/
def Backend.Implements (backend : Backend) (config : Config) : Prop :=
  match backend with
  | .sat => True
  | .smt => (config.variableKind = .pass ∨ config.variableKind = .shift) ∧
      config.movement = .parallel ∧ config.lazyConst = .eager

instance (backend : Backend) (config : Config) : Decidable (backend.Implements config) := by
  cases backend <;> unfold Backend.Implements <;> infer_instance

/-- The value of `PickEncoding`: `NULL`, a solver, or none because an assertion has failed. -/
inductive Picked where
  | unknown
  | solver (backend : Backend) (config : Config)
  | aborted (config : Config)
deriving DecidableEq, Repr

/-- `PickEncoding`. -/
def pickEncoding (enc : List Char) : Picked :=
  let parsedOptions := getlines '_' enc
  if parsedOptions.length ≠ 5 then .unknown else
  let option (i : ℕ) := parsedOptions.getD i []
  match costOptions.lookup (option 0), movesOptions.lookup (option 1), varOptions.lookup (option 2),
    lazyOptions.lookup (option 3), dupliOptions.lookup (option 4) with
  | some cost, some moves, some (var, satsolver), some lazily, some dupli =>
    if satsolver.Implements ⟨var, cost, moves, lazily, dupli⟩ then
      .solver satsolver ⟨var, cost, moves, lazily, dupli⟩
    else .aborted ⟨var, cost, moves, lazily, dupli⟩
  | _, _, _, _, _ => .unknown

/-! ## The loop -/

/-- The options which reach the loop. -/
structure Options where
  backend : Backend
  config : Config
  timeout : ℤ
  cnfFile : Bool
  quiet : Bool
  printPlan : Bool
  oneshot : Bool
  agents : Option ℤ
  increment : Option ℤ
  delta : ℕ

namespace Options

variable (o : Options) (available : ℕ)

/-- `current_agents` before the loop. -/
def currentAgents : ℕ := (o.agents.map toSize).getD available

/-- `increment` before the loop. -/
def incrementBy : ℕ :=
  let increment := (o.increment.map toSize).getD available
  if increment = 0 then available else increment

/-- What `SetData` and the arguments of `Solve` fix for a number of agents. -/
def settings (inst : Instance) (ags : ℕ) : Settings where
  backend := o.backend
  config := o.config
  inst := inst
  timeout := o.timeout
  useAvoid := false
  printPlan := o.printPlan && !o.quiet
  cnfFile := o.cnfFile
  ags := ags
  inputDelta := o.delta
  oneshot := o.oneshot
  keepPlan := false

end Options

/-- `_MAPFSAT_Logger::NewInstance`, as far as `Solve` overwrites it. -/
def Log.newInstance (log : Log) : Log where
  nrVars := 0
  counters := { log.counters with clauses := 0 }
  buildingTime := 0
  solvingTime := 0
  solutionMks := 0
  solutionSoc := 0
  solverCalls := log.solverCalls
  res := 1

def ISolver.newInstance (s : ISolver) : ISolver := { s with log := s.log.map Log.newInstance }

/-- What `PrintStatistics` writes: `agents`, `mksLB` and `socLB` are set by `NewInstance`. -/
structure Record where
  agents : ℕ
  mksLB : ℤ
  socLB : ℤ
  log : Log

/-- The column `solution`. -/
def Record.sat (record : Record) : Bool := decide (record.log.res = 0)

/-- The variables of the loop. -/
structure Session where
  inst : Instance
  solver : ISolver
  currentAgents : ℕ
  printed : List Record

namespace Session

/-- The record of the last call, if `Solve` has logged anything. -/
def record (inst : Instance) (ags : ℕ) (solver : ISolver) : List Record :=
  solver.log.toList.map fun log => ⟨ags, inst.getMksLB ags, inst.getSocLB ags, log⟩

/-- The body of the loop, with the value which `Solve` has returned. -/
inductive Round (lib : Externals) (o : Options) (oracle : ISolver.Oracle) (s : Session) :
    Session → ℤ → Prop
  | solve {final : ISolver} {ret : ℤ}
      (returns : ISolver.Returns lib (o.settings (s.inst.setAgents s.currentAgents) s.currentAgents)
        oracle (.reenter (o.settings (s.inst.setAgents s.currentAgents) s.currentAgents)
          s.solver.newInstance) final ret) :
      Round lib o oracle s
        { inst := s.inst.setAgents s.currentAgents
          solver := final
          currentAgents :=
            if ret = 0 then (s.currentAgents + o.incrementBy s.inst.agents.length) % 2 ^ 64
            else s.currentAgents
          printed :=
            if ret = 1 then s.printed
            else s.printed ++ record (s.inst.setAgents s.currentAgents) s.currentAgents final }
        ret

/-- The variables before an iteration of the loop. -/
inductive Reaches (lib : Externals) (o : Options) (oracle : ISolver.Oracle) (start : Session) :
    Session → Prop
  | start : Reaches lib o oracle start start
  | round {s s' : Session} (before : Reaches lib o oracle start s) (solved : Round lib o oracle s s' 0)
      (more : s'.currentAgents ≤ s'.inst.agents.length) : Reaches lib o oracle start s'

/-- The variables after the loop. -/
def Ends (lib : Externals) (o : Options) (oracle : ISolver.Oracle) (start final : Session) : Prop :=
  ∃ s ret, Reaches lib o oracle start s ∧ Round lib o oracle s final ret ∧
    (ret = 0 → final.inst.agents.length < final.currentAgents)

/-- The loop begins with an object on which `SetData` has been called, unless there are fewer agents
than asked for. -/
def init (o : Options) (inst : Instance) (solver : ISolver) : Option Session :=
  if o.currentAgents inst.agents.length ≤ inst.agents.length then
    some ⟨inst, solver, o.currentAgents inst.agents.length, []⟩
  else none

end Session

end MAPFEncodings

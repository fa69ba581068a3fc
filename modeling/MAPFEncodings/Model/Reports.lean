import MAPFEncodings.Model.Session

/-! # What is printed

The statistics of a call in the formats of `PrintStatistics`, and the plan of `PrintPlan` with the
lines of `VerifyPlan` above it.
-/

namespace MAPFEncodings

open Text

/-! ## `PrintStatistics` -/

/-- The names which the constructor of `_MAPFSAT_Logger` takes. -/
structure LogNames where
  mapName : List Char
  scenName : List Char
  encoding : List Char
deriving DecidableEq, Repr

/-- The numbers of a record in the order in which they are written. -/
def Record.numbers (record : Record) : List ℤ :=
  [record.agents, record.mksLB, record.socLB, record.log.solutionMks, record.log.solutionSoc,
    record.log.buildingTime, record.log.solvingTime, record.log.solverCalls, record.log.nrVars,
    record.log.counters.clauses, record.log.counters.move, record.log.counters.dupli,
    record.log.counters.conflict, record.log.counters.soc, record.log.counters.unit]

def Record.solution (record : Record) : List Char :=
  if record.log.res = 0 then chars "sat" else chars "unsat"

/-- The columns of both formats. -/
def Record.columns (names : LogNames) (record : Record) : List (List Char) :=
  names.mapName :: names.scenName :: names.encoding ::
    (record.numbers.map ofInt ++ [record.solution])

/-- The names of the columns. -/
def labels : List (List Char) :=
  [chars "Map name:             ", chars "Scenario name:        ", chars "Encoding used:        ",
    chars "Number of agents:     ", chars "Mks lower bound:      ", chars "Soc lower bound:      ",
    chars "Solution mks:         ", chars "Solution soc:         ", chars "CNF building time:    ",
    chars "SAT solving time:     ", chars "Nr of solver calls:   ", chars "Nr of variables:      ",
    chars "Nr of clauses         ", chars "Nr of move clauses:   ", chars "Nr of dupli clauses:  ",
    chars "Nr of conf clauses:   ", chars "Nr of soc clauses:    ", chars "Nr of unit clauses:   ",
    chars "Found solution:       "]

def title : List Char := chars "========== Results =========="

/-- `PrintStatistics` with the member `print_type`. -/
def Record.text (printType : ℕ) (names : LogNames) (record : Record) : List Char :=
  (if printType = 1 then terminated '\t' (record.columns names) ++ chars "\n" else []) ++
  if printType = 2 then
    chars "\n" ++ title ++ chars "\n" ++
      terminated '\n' (List.zipWith (· ++ ·) labels (record.columns names)) ++ chars "\n\n"
  else []

/-! ## `PrintPlan` -/

/-- A position as it is stored. -/
def locationText (position : Option ℕ) : List Char := ofInt (position.elim (-1) fun v => (v : ℤ))

def Report.text : Report → List Char
  | vertex a1 a2 t location => chars "Vertex conflict! Agents " ++ Nat.toDigits 10 a1 ++ chars ", " ++
      Nat.toDigits 10 a2 ++ chars ", timestep " ++ Nat.toDigits 10 t ++ chars ", location " ++
      locationText location ++ chars "\n"
  | swapping a1 a2 t v u => chars "Swapping conflict! Agents " ++ Nat.toDigits 10 a1 ++ chars ", " ++
      Nat.toDigits 10 a2 ++ chars ", timestep " ++ Nat.toDigits 10 t ++ chars ", edge (" ++
      locationText v ++ chars "," ++ locationText u ++ chars ")\n"
  | pebble mover location t present => chars "Pebble conflict! Agent " ++ Nat.toDigits 10 mover ++
      chars " moved into " ++ locationText location ++ chars " in " ++ Nat.toDigits 10 t ++
      chars ", but " ++ Nat.toDigits 10 present ++ chars " was present in previous timestep.\n"

/-- The line of one agent. -/
def rowText (row : List (Option ℕ)) (a : ℕ) : List Char :=
  chars "Agent #" ++ Nat.toDigits 10 a ++ chars " : " ++
    row.flatMap (fun position => locationText position ++ chars " ") ++ chars "\n"

/-- `PrintPlan`. -/
def printPlan (movement : Movement) (agents : ℕ) (plan : Plan) : List Char :=
  (verifyPlan movement plan).flatMap Report.text ++
    (chars "Found plan [agents = " ++ Nat.toDigits 10 agents ++ chars "] [timesteps = " ++
      Nat.toDigits 10 (plan.getD 0 []).length ++ chars "]\n") ++
    plan.zipIdx.flatMap (fun p => rowText p.1 p.2) ++ chars "\n"

end MAPFEncodings

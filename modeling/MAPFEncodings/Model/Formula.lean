import MAPFEncodings.Model.Statements

/-! # `CreateFormula`

Both implementations of `CreateFormula` call the generators in sections, and after each section comes
a check of the time. A lazy formula is extended by calls which return after the section "conflicts",
without the checks behind it. Here the sections are lists of generators, a formula is what their calls
execute one after another, and its clauses and lines are read off the statements.
-/

namespace MAPFEncodings

open Cnf

/-! ## Generators -/

/-- The functions which call `AddClause`. -/
inductive Generator where
  | createPossitionStart
  | createPossitionGoal
  | createPossitionNoneAtGoal
  | createPossitionNoneAtGoalShift
  | createConfVertex
  | createConfSwappingAt
  | createConfSwappingPass
  | createConfSwappingShift
  | createConfPebbleAt
  | createConfPebblePass
  | createConfPebbleShift
  | createMoveNoDuplicates
  | createMoveNextVertexAt
  | createMoveEnterVertexPass
  | createMoveNextEdgePass
  | createMoveExactlyOneShift
  | createMoveExactlyOneIncomingShift
  | createMoveNextVertexShift
  | createConstLimitSoc
  | createConstLimitSocAllAt
  | createConstLimitSocShift
  | createConfVertexOnDemand
  | createConfSwappingAtOnDemand
  | createConfSwappingPassOnDemand
  | createConfSwappingShiftOnDemand
  | createConfPebbleAtOnDemand
  | createConfPebblePassOnDemand
  | createConfPebbleShiftOnDemand
  | createConstAvoid
  | createMoveGraphMonosatPass
  | createMoveGraphMonosatShift
deriving DecidableEq, Repr

/-- The category of a generator's clauses. -/
def Generator.counter : Generator → ClauseKind
  | createPossitionStart => .unit
  | createPossitionGoal => .unit
  | createPossitionNoneAtGoal => .unit
  | createPossitionNoneAtGoalShift => .unit
  | createConfVertex => .conflict
  | createConfSwappingAt => .conflict
  | createConfSwappingPass => .conflict
  | createConfSwappingShift => .conflict
  | createConfPebbleAt => .conflict
  | createConfPebblePass => .conflict
  | createConfPebbleShift => .conflict
  | createMoveNoDuplicates => .dupli
  | createMoveNextVertexAt => .move
  | createMoveEnterVertexPass => .move
  | createMoveNextEdgePass => .move
  | createMoveExactlyOneShift => .move
  | createMoveExactlyOneIncomingShift => .move
  | createMoveNextVertexShift => .move
  | createConstLimitSoc => .soc
  | createConstLimitSocAllAt => .soc
  | createConstLimitSocShift => .soc
  | createConfVertexOnDemand => .conflict
  | createConfSwappingAtOnDemand => .conflict
  | createConfSwappingPassOnDemand => .conflict
  | createConfSwappingShiftOnDemand => .conflict
  | createConfPebbleAtOnDemand => .conflict
  | createConfPebblePassOnDemand => .conflict
  | createConfPebbleShiftOnDemand => .conflict
  | createConstAvoid => .conflict
  | createMoveGraphMonosatPass => .unit
  | createMoveGraphMonosatShift => .unit

/-- The call of a generator: its statements, and the next unused variable after it. Most generators
use no variables of their own. -/
def Encoder.call (e : Encoder) (lib : Externals) (conflicts : Conflicts) (lit : ℤ) :
    Generator → List Statement × ℤ
  | .createPossitionStart => (e.createPossitionStartStatements, lit)
  | .createPossitionGoal => (e.createPossitionGoalStatements, lit)
  | .createPossitionNoneAtGoal => (e.createPossitionNoneAtGoalStatements, lit)
  | .createPossitionNoneAtGoalShift => (e.createPossitionNoneAtGoalShiftStatements, lit)
  | .createConfVertex => (e.createConfVertexStatements, lit)
  | .createConfSwappingAt => (e.createConfSwappingAtStatements, lit)
  | .createConfSwappingPass => (e.createConfSwappingPassStatements, lit)
  | .createConfSwappingShift => (e.createConfSwappingShiftStatements, lit)
  | .createConfPebbleAt => (e.createConfPebbleAtStatements, lit)
  | .createConfPebblePass => (e.createConfPebblePassStatements, lit)
  | .createConfPebbleShift => (e.createConfPebbleShiftStatements, lit)
  | .createMoveNoDuplicates => e.createMoveNoDuplicatesStatements lib lit
  | .createMoveNextVertexAt => (e.createMoveNextVertexAtStatements, lit)
  | .createMoveEnterVertexPass => (e.createMoveEnterVertexPassStatements, lit)
  | .createMoveNextEdgePass => (e.createMoveNextEdgePassStatements, lit)
  | .createMoveExactlyOneShift => (e.createMoveExactlyOneShiftStatements, lit)
  | .createMoveExactlyOneIncomingShift => (e.createMoveExactlyOneIncomingShiftStatements, lit)
  | .createMoveNextVertexShift => (e.createMoveNextVertexShiftStatements, lit)
  | .createConstLimitSoc => e.createConstLimitSocStatements lib lit
  | .createConstLimitSocAllAt => e.createConstLimitSocAllAtStatements lib lit
  | .createConstLimitSocShift => e.createConstLimitSocShiftStatements lib lit
  | .createConfVertexOnDemand => (e.createConfVertexOnDemandStatements conflicts.vertex, lit)
  | .createConfSwappingAtOnDemand => (e.createConfSwappingAtOnDemandStatements conflicts.swap, lit)
  | .createConfSwappingPassOnDemand =>
    (e.createConfSwappingPassOnDemandStatements conflicts.swap, lit)
  | .createConfSwappingShiftOnDemand =>
    (e.createConfSwappingShiftOnDemandStatements conflicts.swap, lit)
  | .createConfPebbleAtOnDemand => (e.createConfPebbleAtOnDemandStatements conflicts.pebble, lit)
  | .createConfPebblePassOnDemand => (e.createConfPebblePassOnDemandStatements conflicts.pebble, lit)
  | .createConfPebbleShiftOnDemand =>
    (e.createConfPebbleShiftOnDemandStatements conflicts.pebble, lit)
  | .createConstAvoid => (e.createConstAvoidStatements, lit)
  | .createMoveGraphMonosatPass => e.createMoveGraphMonosatPassStatements lit
  | .createMoveGraphMonosatShift => e.createMoveGraphMonosatShiftStatements lit

/-! ## Sections -/

namespace Config

variable (c : Config)

/-- The generator of the clauses against collisions on edges. -/
def movingConflict : Generator :=
  match c.lazyConst, c.movement, c.variableKind with
  | .eager, .parallel, .at_ => .createConfSwappingAt
  | .eager, .parallel, .pass => .createConfSwappingPass
  | .eager, .parallel, .shift => .createConfSwappingShift
  | .eager, .pebble, .at_ => .createConfPebbleAt
  | .eager, .pebble, .pass => .createConfPebblePass
  | .eager, .pebble, .shift => .createConfPebbleShift
  | .lazy, .parallel, .at_ => .createConfSwappingAtOnDemand
  | .lazy, .parallel, .pass => .createConfSwappingPassOnDemand
  | .lazy, .parallel, .shift => .createConfSwappingShiftOnDemand
  | .lazy, .pebble, .at_ => .createConfPebbleAtOnDemand
  | .lazy, .pebble, .pass => .createConfPebblePassOnDemand
  | .lazy, .pebble, .shift => .createConfPebbleShiftOnDemand

/-- The section "conflicts" of `_MAPFSAT_SAT`. -/
def conflicts : List Generator :=
  match c.lazyConst with
  | .eager => [.createConfVertex, c.movingConflict]
  | .lazy => [.createConfVertexOnDemand, c.movingConflict]

def noneAtGoal (g : Generator) : List Generator :=
  match c.costFunction with
  | .mks => []
  | .soc => [g]

/-- The section "start - goal possitions" of `_MAPFSAT_SAT`. -/
def positions : List Generator :=
  [.createPossitionStart, .createPossitionGoal] ++ c.noneAtGoal .createPossitionNoneAtGoal

def noDuplicates : List Generator :=
  match c.duplicates with
  | .forbid => [.createMoveNoDuplicates]
  | .allow => []

/-- The generators of `_MAPFSAT_SAT` for the movement of agents. -/
def movements : List Generator :=
  match c.variableKind with
  | .at_ => [.createMoveNextVertexAt]
  | .pass => [.createMoveEnterVertexPass, .createMoveNextEdgePass]
  | .shift =>
    [.createMoveNextVertexAt, .createMoveExactlyOneShift, .createMoveNextVertexShift]

def limitSoc : Generator :=
  match c.duplicates with
  | .forbid => .createConstLimitSoc
  | .allow => .createConstLimitSocAllAt

/-- The section "limit cost". -/
def limit (delta : ℕ) (g : Generator) : List Generator :=
  if c.costFunction = .soc ∧ 0 < delta then [g] else []

/-- The sections of the first call of `_MAPFSAT_SAT::CreateFormula` for a delta. -/
def sections (useAvoid : Bool) (delta : ℕ) : List (List Generator) :=
  [[], c.conflicts, c.positions, c.noDuplicates ++ c.movements, c.limit delta c.limitSoc,
    if useAvoid then [.createConstAvoid] else []]

/-- The sections of `_MAPFSAT_SMT::CreateFormula` with `variables == 2`. The generators against
conflicts are called twice. -/
def sectionsMonosatPass (useAvoid : Bool) (delta : ℕ) : List (List Generator) :=
  [[.createMoveGraphMonosatPass], c.noneAtGoal .createPossitionNoneAtGoal,
    [.createConfVertex, .createConfSwappingPass],
    [.createConfVertex, .createConfSwappingPass] ++ c.noDuplicates, c.limit delta c.limitSoc,
    if useAvoid then [.createConstAvoid] else []]

/-- The sections of `_MAPFSAT_SMT::CreateFormula` with `variables == 3`. -/
def sectionsMonosatShift (delta : ℕ) : List (List Generator) :=
  [[.createMoveGraphMonosatShift], c.noneAtGoal .createPossitionNoneAtGoalShift,
    [.createConfSwappingShift],
    [.createMoveExactlyOneShift, .createMoveExactlyOneIncomingShift],
    c.limit delta .createConstLimitSocShift, []]

end Config

/-! ## Formulas -/

/-- A generator which has been called. -/
structure Call where
  generator : Generator
  statements : List Statement

def Call.clauses (call : Call) : List Clause := call.statements.filterMap Statement.clause?

def Call.lines (call : Call) : List Line :=
  call.statements.filterMap (Statement.line? call.generator.counter)

/-- What a call of `CreateFormula` leaves behind: the tables, the generators called before each check
of the time and those behind the last one, and the next unused variable. -/
structure Formula where
  encoder : Encoder
  checked : List (List Call)
  rest : List Call
  lit : ℤ

abbrev Emission := ClauseKind × Clause

def Line.emission? : Line → Option Emission
  | clause kind c => some (kind, c)
  | _ => none

namespace Formula

variable (f : Formula)

def calls : List Call := f.checked.flatten ++ f.rest

def statements : List Statement := f.calls.flatMap Call.statements

def lines : List Line := f.calls.flatMap Call.lines

/-- The clauses with the categories of their generators. -/
def emitted : List Emission := f.lines.filterMap Line.emission?

def clauses : List Clause := f.calls.flatMap Call.clauses

end Formula

namespace Encoder

variable (e : Encoder) (lib : Externals)

/-- Generators are called one after another, from the next unused variable on. -/
def callAll (conflicts : Conflicts) (lit : ℤ) (generators : List Generator) : List Call × ℤ :=
  List.mapState (fun lit g =>
    (⟨g, (e.call lib conflicts lit g).1⟩, (e.call lib conflicts lit g).2)) lit generators

/-- The sections of a formula, with a check of the time behind each. -/
def write (conflicts : Conflicts) (lit : ℤ) (sections : List (List Generator)) : Formula :=
  let (checked, lit) := List.mapState (e.callAll lib conflicts) lit sections
  ⟨e, checked, [], lit⟩

/-- `int timesteps = inst->GetMksLB(agents) + delta`. -/
def timesteps : ℤ := e.inst.getMksLB e.agents + e.delta

/-- The part of `_MAPFSAT_SAT::CreateFormula` which creates variables. -/
def createVariables (lit : ℤ) : Encoder × ℤ :=
  let (e', lit') := e.createAt lib lit e.timesteps
  match e.config.variableKind with
  | .at_ => (e', lit')
  | .pass => e'.createPass lib lit' e.timesteps
  | .shift => e'.createShift lit' e.timesteps

/-- `_MAPFSAT_SAT::CreateFormula`. Later calls for the same delta find the variables and the
movement clauses in place. -/
def createFormula (firstTry useAvoid : Bool) (nrVars : ℤ) (conflicts : Conflicts) : Formula :=
  if firstTry then
    let (e, lit) := e.createVariables lib nrVars
    e.write lib conflicts lit (e.config.sections useAvoid e.delta)
  else
    let (rest, lit) := e.callAll lib conflicts nrVars e.config.conflicts
    ⟨e, [[]], rest, lit⟩

/-- `_MAPFSAT_SMT::CreateFormula` with `variables == 2`. -/
def createFormulaMonosatPass (useAvoid : Bool) : Formula :=
  let (e, lit) := e.createAt lib 1 e.timesteps
  let (e, lit) := e.createPass lib lit e.timesteps
  e.write lib ⟨[], [], []⟩ lit (e.config.sectionsMonosatPass useAvoid e.delta)

/-- `_MAPFSAT_SMT::CreateFormula` with `variables == 3`. -/
def createFormulaMonosatShift : Formula :=
  let (e, lit) := e.createShift 1 e.timesteps
  e.write lib ⟨[], [], []⟩ lit (e.config.sectionsMonosatShift e.delta)

/-- `_MAPFSAT_SMT::CreateFormula`; there is no encoding with position variables only. -/
def createFormulaMonosat (useAvoid : Bool) : Formula :=
  match e.config.variableKind with
  | .at_ => e.write lib ⟨[], [], []⟩ 1 [[], [], [], [], [], []]
  | .pass => e.createFormulaMonosatPass lib useAvoid
  | .shift => e.createFormulaMonosatShift lib

end Encoder

end MAPFEncodings

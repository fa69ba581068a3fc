import MAPFEncodings.Model.Formula
import MAPFEncodings.ToMathlib.MachineInt

/-! # Variables as values of type `int`

The next unused variable is counted in `int lit`, and `first_variable`, the literals of a clause and
what PBLib is given and returns are of this type as well. Additions in two's complement wrap around,
so each of them holds what is left of the number without bounds. Timesteps, and the numbers of nodes
with the keys under which they are found, are taken as they are.
-/

namespace MAPFEncodings

open Cnf MachineInt

def TEGAgent.asInt (entry : TEGAgent) : TEGAgent :=
  { entry with firstVariable := wrap entry.firstVariable }

def Shift.asInt (entry : Shift) : Shift := { entry with firstVariable := wrap entry.firstVariable }

def Encoder.asInt (e : Encoder) : Encoder :=
  { e with
    atTable := e.atTable.map (List.map TEGAgent.asInt)
    passTable := e.passTable.map (List.map (List.map TEGAgent.asInt))
    shiftTable := e.shiftTable.map (List.map Shift.asInt) }

def Clause.asInt (c : Clause) : Clause := c.map wrap

/-- PBLib is given values of type `int` and returns such. -/
def Externals.asInt (lib : Externals) : Externals :=
  { lib with
    encodeAtMostK := fun lits k fresh =>
      let (last, formula) := lib.encodeAtMostK (lits.map wrap) k (wrap fresh)
      (wrap last, formula.map Clause.asInt) }

def Statement.asInt : Statement → Statement
  | addClause c => addClause (Clause.asInt c)
  | increment kind => increment kind
  | digraph graph => digraph graph
  | edge graph source target var => edge graph source target (wrap var)
  | reach graph source target lit => reach graph source target (wrap lit)

def Call.asInt (call : Call) : Call :=
  { call with statements := call.statements.map Statement.asInt }

def Formula.asInt (f : Formula) : Formula where
  encoder := f.encoder.asInt
  checked := f.checked.map (List.map Call.asInt)
  rest := f.rest.map Call.asInt
  lit := wrap f.lit

namespace Encoder

variable (e : Encoder) (lib : Externals)

/-- The sections of a formula over tables with such numbers. -/
def writeInt (conflicts : Conflicts) (lit : ℤ) (sections : List (List Generator)) : Formula :=
  (e.asInt.write lib.asInt conflicts (wrap lit) sections).asInt

/-- `_MAPFSAT_SAT::CreateFormula` in the first call for a delta. -/
def createFormulaInt (useAvoid : Bool) (nrVars : ℤ) (conflicts : Conflicts) : Formula :=
  let (e, lit) := e.createVariables lib nrVars
  e.writeInt lib conflicts lit (e.config.sections useAvoid e.delta)

/-- `_MAPFSAT_SMT::CreateFormula`. -/
def createFormulaMonosatInt (useAvoid : Bool) : Formula :=
  match e.config.variableKind with
  | .at_ => e.writeInt lib ⟨[], [], []⟩ 1 [[], [], [], [], [], []]
  | .pass =>
    let (e, lit) := e.createAt lib 1 e.timesteps
    let (e, lit) := e.createPass lib lit e.timesteps
    e.writeInt lib ⟨[], [], []⟩ lit (e.config.sectionsMonosatPass useAvoid e.delta)
  | .shift =>
    let (e, lit) := e.createShift 1 e.timesteps
    e.writeInt lib ⟨[], [], []⟩ lit (e.config.sectionsMonosatShift e.delta)

end Encoder

end MAPFEncodings

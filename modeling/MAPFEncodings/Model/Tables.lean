import MAPFEncodings.Model.Instance
import MAPFEncodings.ToMathlib.Cnf
import Mathlib.Data.Int.Range

/-! # Variable tables

The members of `_MAPFSAT_ISolver` which the formula generators read, and the three functions which
number the variables. A table entry stores the number of its first variable and the timesteps it
covers; the number zero marks an entry without variables, whose other fields are never written.
-/

namespace MAPFEncodings

open Cnf

/-- `variables`: which kind of variables an encoding uses besides positions. -/
inductive Variables where
  | at_
  | pass
  | shift
deriving DecidableEq, Repr

/-- `movement`. -/
inductive Movement where
  | parallel
  | pebble
deriving DecidableEq, Repr

/-- `lazy_const`. -/
inductive LazyConst where
  | eager
  | lazy
deriving DecidableEq, Repr

/-- `duplicates`. -/
inductive Duplicates where
  | forbid
  | allow
deriving DecidableEq, Repr

/-- The options given to the constructors of the encodings. -/
structure Config where
  variableKind : Variables
  costFunction : CostFunction
  movement : Movement
  lazyConst : LazyConst
  duplicates : Duplicates
deriving DecidableEq, Repr

/-- `_MAPFSAT_TEGAgent`. -/
structure TEGAgent where
  firstVariable : ℤ
  firstTimestep : ℤ
  lastTimestep : ℤ
deriving DecidableEq, Repr, Inhabited

/-- `_MAPFSAT_Shift`. -/
structure Shift where
  firstVariable : ℤ
  timestep : List ℤ
deriving DecidableEq, Repr, Inhabited

/-- What comes from outside the repository: PBLib's cardinality encoder, which returns the last
variable it used, and the contents of freshly allocated memory. -/
structure Externals where
  encodeAtMostK : List ℤ → ℤ → ℤ → ℤ × List Clause
  uninitialized : ℕ → ℕ → Dir → TEGAgent

/-- The members of `_MAPFSAT_ISolver` which describe the formula of one solver call. -/
structure Encoder where
  inst : Instance
  config : Config
  agents : ℕ
  vertices : ℕ
  delta : ℕ
  maxTimestep : ℤ
  atTable : List (List TEGAgent)
  passTable : List (List (List TEGAgent))
  shiftTable : List (List Shift)
  shiftTimesStart : List ℤ
  shiftTimesEnd : List ℤ

namespace TEGAgent

/-- The entry has variables and one of them belongs to timestep `t`. -/
def Covers (e : TEGAgent) (t : ℤ) : Prop :=
  e.firstVariable ≠ 0 ∧ e.firstTimestep ≤ t ∧ t ≤ e.lastTimestep

instance (e : TEGAgent) (t : ℤ) : Decidable (e.Covers t) := inferInstanceAs (Decidable (_ ∧ _))

/-- The offset arithmetic of all generators: the variable of timestep `t`. -/
def var (e : TEGAgent) (t : ℤ) : ℤ := e.firstVariable + (t - e.firstTimestep)

end TEGAgent

/-- The repeated search `find(timestep.begin(), timestep.end(), t)` with its test: the variable of
timestep `t`, if there is one. -/
def Shift.var? (s : Shift) (t : ℤ) : Option ℤ :=
  let ind := s.timestep.idxOf t
  if ind = s.timestep.length then none else some (s.firstVariable + ind)

namespace Encoder

variable (e : Encoder)

/-- `at[a][v]`. -/
def atEntry (a v : ℕ) : TEGAgent := (e.atTable.getD a []).getD v default

/-- `pass[a][v][dir]`. -/
def passEntry (a v : ℕ) (dir : Dir) : TEGAgent :=
  ((e.passTable.getD a []).getD v []).getD dir.index default

/-- `shift[v][dir]`. -/
def shiftEntry (v : ℕ) (dir : Dir) : Shift := (e.shiftTable.getD v []).getD dir.index default

def timesStart (v : ℕ) : ℤ := e.shiftTimesStart.getD v (-1)

def timesEnd (v : ℕ) : ℤ := e.shiftTimesEnd.getD v (-1)

/-- `LastTimestep` for the solver's delta and cost function. -/
def lastTimestep (a v : ℕ) (timesteps : ℤ) : ℤ :=
  e.inst.lastTimestep a v timesteps e.delta e.config.costFunction

/-- An entry for the timesteps `first, …, last`, which consumes one variable for each. -/
def allocate (lit first last : ℤ) : TEGAgent × ℤ := (⟨lit, first, last⟩, lit + (last - first + 1))

/-- An entry whose only written field is the zero marker. -/
def unallocated (lib : Externals) (a v : ℕ) (dir : Dir) (lit : ℤ) : TEGAgent × ℤ :=
  ({ lib.uninitialized a v dir with firstVariable := 0 }, lit)

/-- `CreateAt`. -/
def createAt (lib : Externals) (lit timesteps : ℤ) : Encoder × ℤ :=
  let table := List.mapState (fun lit a =>
    List.mapState (fun lit v =>
      if e.inst.firstTimestep a v ≤ e.lastTimestep a v timesteps then
        allocate lit (e.inst.firstTimestep a v) (e.lastTimestep a v timesteps)
      else unallocated lib a v .wait lit) lit (List.range e.vertices)) lit (List.range e.agents)
  ({ e with atTable := table.1, maxTimestep := timesteps }, table.2)

/-- `CreatePass`. -/
def createPass (lib : Externals) (lit timesteps : ℤ) : Encoder × ℤ :=
  let table := List.mapState (fun lit a =>
    List.mapState (fun lit v =>
      List.mapState (fun lit dir =>
        match e.inst.neighbor? v dir with
        | none => unallocated lib a v dir lit
        | some u =>
          if e.inst.firstTimestep a v < e.lastTimestep a u timesteps then
            allocate lit (e.inst.firstTimestep a v) (e.lastTimestep a u timesteps - 1)
          else unallocated lib a v dir lit) lit Dir.all) lit (List.range e.vertices))
    lit (List.range e.agents)
  ({ e with passTable := table.1 }, table.2)

/-- The timesteps at which some agent can traverse an edge. -/
def shiftTimes (timesteps : ℤ) (v : ℕ) (dir : Dir) : List ℤ :=
  match e.inst.neighbor? v dir with
  | none => []
  | some u => (Int.range 0 timesteps).filter fun t => (List.range e.agents).any fun a =>
      decide (e.inst.firstTimestep a v ≤ t ∧ e.lastTimestep a u timesteps > t)

/-- The updates of `shift_times_start[v]` and `shift_times_end[v]` for a new timestep. -/
def updateTimes (times : ℤ × ℤ) (t : ℤ) : ℤ × ℤ :=
  (if times.1 = -1 ∨ times.1 > t then t else times.1, if times.2 < t then t else times.2)

/-- `CreateShift`. -/
def createShift (lit timesteps : ℤ) : Encoder × ℤ :=
  let table := List.mapState (fun lit v =>
    List.mapState (fun lit dir =>
      (Shift.mk lit (e.shiftTimes timesteps v dir), lit + (e.shiftTimes timesteps v dir).length))
      lit Dir.all) lit (List.range e.vertices)
  let times := (List.range e.vertices).map fun v =>
    (Dir.all.flatMap (e.shiftTimes timesteps v)).foldl updateTimes (-1, -1)
  ({ e with
      shiftTable := table.1
      shiftTimesStart := times.map Prod.fst
      shiftTimesEnd := times.map Prod.snd
      maxTimestep := timesteps }, table.2)

end Encoder

end MAPFEncodings

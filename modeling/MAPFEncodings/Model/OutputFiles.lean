import MAPFEncodings.Model.Solver
import MAPFEncodings.ToMathlib.Text

/-! # The files between the solver and monosat

The texts which the generators and `AddClause` write into `cnf_printable`, the file in which monosat
finds them, and how `_MAPFSAT_SMT` reads the file in which monosat leaves an assignment.
-/

namespace MAPFEncodings

open Cnf Text

/-- What is written for a line. -/
def Line.text : Line → List Char
  | digraph graph => chars "digraph int 0 0 " ++ Nat.toDigits 10 graph ++ chars "\n"
  | edge graph source target var => chars "edge " ++ Nat.toDigits 10 graph ++ chars " " ++
      Nat.toDigits 10 source ++ chars " " ++ Nat.toDigits 10 target ++ chars " " ++ ofInt var ++
      chars "\n"
  | reach graph source target lit => chars "reach " ++ Nat.toDigits 10 graph ++ chars " " ++
      Nat.toDigits 10 source ++ chars " " ++ Nat.toDigits 10 target ++ chars " " ++ ofInt lit ++
      chars "\n"
  | clause _ c => c.flatMap (fun x => ofInt x ++ chars " ") ++ chars "0\n"

/-- What `InvokeSolver` writes into the file. -/
def CnfFile.text (file : CnfFile) : List Char :=
  chars "p cnf " ++ ofInt file.variables_ ++ chars " " ++ Nat.toDigits 10 file.clauses ++
    chars "\n" ++ file.lines.flatMap Line.text ++ chars "\n"

/-- The file which is written when the solver is called. -/
def ISolver.written (s : ISolver) : CnfFile := ⟨s.nrVars - 1, s.counters.clauses, s.cnfPrintable⟩

/-- One part of the line which is read from `tmp.out`. There is no result if `eval` is indexed outside
its bounds. -/
def readPart (eval : List Bool) (part : List Char) : Option (List Bool) :=
  if part = chars "v" then some eval
  else if part = chars "0" then some eval
  else
    let var := atoi part
    if var ≠ 0 ∧ |var| ≤ eval.length then some (eval.set (var.natAbs - 1) (decide (0 < var))) else none

/-- The vector `eval` after `tmp.out` has been read. -/
def readEval (nrVars : ℕ) (input : List Char) : Option (List Bool) :=
  (getlines ' ' (input.takeWhile (· ≠ '\n'))).foldlM readPart (List.replicate nrVars false)

/-- How `GetNextVertex` reads a variable. -/
def evalOf (eval : List Bool) : Valuation := fun x => eval.getD (x - 1).toNat false

end MAPFEncodings

import MAPFEncodings.Model.Extraction
import MAPFEncodings.Model.Formula
import Mathlib.Logic.Relation

/-! # `_MAPFSAT_SMT`: movement as reachability

Plans are read from the passes or shifts of an assignment. What the solver makes of the file is stated
by `Line.Holds`.
-/

namespace MAPFEncodings

open Cnf

namespace Encoder

variable (e : Encoder)

/-- `_MAPFSAT_SMT::GetNextVertex` for a vertex `v ≠ -1`. -/
def getNextVertexMonosat (eval : Valuation) (a v : ℕ) (t : ℤ) : Option ℕ :=
  (e.inst.neighbors v Dir.all).findSome? fun (dir, u) =>
    match e.config.variableKind with
    | .at_ => none
    | .pass =>
      if (e.passEntry a v dir).Covers (t - 1) ∧ eval ((e.passEntry a v dir).var (t - 1)) ∧
          eval ((e.atEntry a u).var t) then some u
      else none
    | .shift => if ((e.shiftEntry v dir).var? (t - 1)).any eval then some u else none

/-- The plan which `_MAPFSAT_SMT` reads from an assignment. -/
def readPlanMonosat (eval : Valuation) : Plan :=
  e.extractPlan fun a v t => e.getNextVertexMonosat eval a v t

end Encoder

/-! ## Meaning of the file -/

/-- The nodes of a graph which an edge with a true variable connects. -/
def LinkedIn (lines : List Line) (graph : ℕ) (σ : Valuation) (m n : ℕ) : Prop :=
  ∃ x, Line.edge graph m n x ∈ lines ∧ σ x = true

/-- The solver's reading of a line: a `reach` literal is true exactly if the target can be reached
from the source over edges whose variables are true. -/
def Line.Holds (lines : List Line) (σ : Valuation) : Line → Prop
  | digraph _ => True
  | edge _ _ _ _ => True
  | reach graph source target lit =>
    litHolds σ lit = true ↔ Relation.ReflTransGen (LinkedIn lines graph σ) source target
  | clause _ c => Clause.holds σ c = true

/-- An assignment satisfies every line of a file. -/
def SatisfiesLines (σ : Valuation) (lines : List Line) : Prop := ∀ line ∈ lines, line.Holds lines σ

end MAPFEncodings

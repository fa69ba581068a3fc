import MAPFEncodings.Model.Conflicts
import MAPFEncodings.PathFinding.Deadline

/-! # Plans read from models

`GetNextVertex`, the loop around it in `InvokeSolverImplementation`, and the functions which work
on the member `plan`. A position is `none` where the source stores `-1`.
-/

namespace MAPFEncodings

open Cnf PathFinding

/-- The member `plan`: one row of positions for each agent. -/
abbrev Plan := List (List (Option ℕ))

/-- `plan[a][t]`. -/
def Plan.entry (plan : Plan) (a t : ℕ) : Option ℕ := (plan.getD a []).getD t none

namespace Encoder

variable (e : Encoder)

/-- `_MAPFSAT_SAT::GetNextVertex` for a vertex `v ≠ -1`. -/
def getNextVertex (val : Valuation) (a v : ℕ) (t : ℤ) : Option ℕ :=
  (e.inst.neighbors v Dir.all).findSome? fun (dir, u) =>
    match e.config.variableKind with
    | .at_ =>
      if (e.atEntry a u).Covers t ∧ val ((e.atEntry a u).var t) then some u else none
    | .pass =>
      if (e.passEntry a v dir).Covers (t - 1) ∧ val ((e.passEntry a v dir).var (t - 1)) then some u
      else none
    | .shift =>
      if (e.atEntry a u).Covers t ∧ ((e.shiftEntry v dir).var? (t - 1)).any val then some u else none

/-- The loop of `InvokeSolverImplementation`: each agent follows a choice of next vertices from
its start; the marker `-1` is passed on. Without timesteps the rows are empty, where the source
writes `plan[a][0]` behind the end of the row. -/
def extractRows (next : ℕ → ℕ → ℕ → Option ℕ) : Plan :=
  (List.range e.agents).map fun a =>
    (List.range e.maxTimestep.toNat).map (follow (next a) (e.inst.startOf a))

end Encoder

/-! ## `NormalizePlan` -/

/-- The loop over `t = n - 1, …, 0`: parked positions become the goal, and the last position away
from the goal determines the number of timesteps. -/
def normalizeRow (goal : ℕ) : ℕ → List (Option ℕ) × ℕ → List (Option ℕ) × ℕ
  | 0, state => state
  | t + 1, (row, maxT) =>
    let row := if row.getD t none = none then row.set t (some goal) else row
    if row.getD t none ≠ some goal then (row, max maxT (t + 2)) else normalizeRow goal t (row, maxT)

/-- `NormalizePlan`. Rows are resized with the default value `0`. -/
def normalizePlan (goalOf : ℕ → ℕ) (plan : Plan) : Plan :=
  let rows := List.mapState (fun maxT (row : List (Option ℕ) × ℕ) =>
    normalizeRow (goalOf row.2) row.1.length (row.1, maxT)) 1 plan.zipIdx
  rows.1.map fun row => row.takeD rows.2 (some 0)

/-- The value `max_t` which `NormalizePlan` returns. -/
def normalizeLength (goalOf : ℕ → ℕ) (plan : Plan) : ℕ :=
  (List.mapState (fun maxT (row : List (Option ℕ) × ℕ) =>
    normalizeRow (goalOf row.2) row.1.length (row.1, maxT)) 1 plan.zipIdx).2

namespace Encoder

variable (e : Encoder)

/-- The member `plan` after extraction. -/
def extractPlan (next : ℕ → ℕ → ℕ → Option ℕ) : Plan :=
  match e.config.costFunction with
  | .mks => e.extractRows next
  | .soc => normalizePlan e.inst.goalOf (e.extractRows next)

/-- The plan which `_MAPFSAT_SAT` reads from an assignment. -/
def readPlan (val : Valuation) : Plan := e.extractPlan fun a v t => e.getNextVertex val a v t

end Encoder

/-! ## `GenerateConflicts` -/

/-- The loops over `a1 < a2` and the positions of the first row. -/
def Plan.meetings (plan : Plan) : List (ℕ × ℕ × ℕ) :=
  (List.range plan.length).flatMap fun a1 => (List.Ico (a1 + 1) plan.length).flatMap fun a2 =>
    (List.range (plan.getD a1 []).length).map fun t => (a1, a2, t)

/-- There is a position after `t`. -/
def Plan.hasNext (plan : Plan) (a t : ℕ) : Bool := decide (t + 1 < (plan.getD a []).length)

/-- `GenerateConflicts`. Pebble conflicts name the agent which moves first. -/
def generateConflicts (movement : Movement) (plan : Plan) : Conflicts where
  vertex := plan.meetings.filterMap fun (a1, a2, t) =>
    if plan.entry a1 t = plan.entry a2 t then some ⟨a1, a2, plan.entry a1 t, t⟩ else none
  swap := plan.meetings.filterMap fun (a1, a2, t) =>
    if plan.hasNext a1 t ∧ plan.entry a1 t = plan.entry a2 (t + 1) ∧
        plan.entry a1 (t + 1) = plan.entry a2 t ∧ plan.entry a1 t ≠ plan.entry a2 t then
      some ⟨a1, a2, plan.entry a1 t, plan.entry a1 (t + 1), t⟩
    else none
  pebble := plan.meetings.flatMap fun (a1, a2, t) =>
    (if movement = .pebble ∧ plan.hasNext a1 t ∧ plan.entry a1 t = plan.entry a2 (t + 1) ∧
        plan.entry a2 t ≠ plan.entry a2 (t + 1) then
      [⟨a2, a1, plan.entry a2 t, plan.entry a2 (t + 1), t + 1⟩] else []) ++
    if movement = .pebble ∧ plan.hasNext a1 t ∧ plan.entry a1 (t + 1) = plan.entry a2 t ∧
        plan.entry a1 t ≠ plan.entry a1 (t + 1) then
      [⟨a1, a2, plan.entry a1 t, plan.entry a1 (t + 1), t + 1⟩] else []

/-- `conflicts_present` after `GenerateConflicts`, if it was false before. -/
def Conflicts.present (conflicts : Conflicts) : Bool :=
  !(conflicts.vertex.isEmpty && conflicts.swap.isEmpty && conflicts.pebble.isEmpty)

/-! ## `VerifyPlan` -/

/-- The lines printed by `VerifyPlan`, with the values which they name. -/
inductive Report where
  | vertex (a1 a2 t : ℕ) (location : Option ℕ)
  | swapping (a1 a2 t : ℕ) (v u : Option ℕ)
  | pebble (mover : ℕ) (location : Option ℕ) (t : ℕ) (present : ℕ)
deriving DecidableEq, Repr

/-- `VerifyPlan`. -/
def verifyPlan (movement : Movement) (plan : Plan) : List Report :=
  plan.meetings.flatMap fun (a1, a2, t) =>
    (if plan.entry a1 t = plan.entry a2 t then [.vertex a1 a2 t (plan.entry a1 t)] else []) ++
    (if plan.hasNext a1 t ∧ plan.entry a1 t = plan.entry a2 (t + 1) ∧
        plan.entry a1 (t + 1) = plan.entry a2 t then
      [.swapping a1 a2 t (plan.entry a1 t) (plan.entry a1 (t + 1))] else []) ++
    (if movement = .pebble ∧ plan.hasNext a1 t ∧ plan.entry a1 t = plan.entry a2 (t + 1) then
      [.pebble a2 (plan.entry a2 (t + 1)) (t + 1) a1] else []) ++
    if movement = .pebble ∧ plan.hasNext a1 t ∧ plan.entry a1 (t + 1) = plan.entry a2 t then
      [.pebble a1 (plan.entry a1 (t + 1)) (t + 1) a2] else []

end MAPFEncodings

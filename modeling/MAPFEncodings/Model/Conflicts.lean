import MAPFEncodings.Model.Tables

/-! # Conflict clauses

The eager generators `CreateConf_*` and the generators `CreateConf_*_OnDemand`, which add only the
clauses for the conflicts recorded by `GenerateConflicts`. A recorded vertex is `none` where the
source stores `-1`; the tables have no such entry, and no clause is emitted for it here.
-/

namespace MAPFEncodings

open Cnf

/-- An element of `vertex_conflicts`: `(a1, a2, v, t)`. -/
structure VertexConflict where
  a1 : ℕ
  a2 : ℕ
  v : Option ℕ
  t : ℕ
deriving DecidableEq, Repr

/-- An element of `swap_conflicts` or `pebble_conflicts`: `(a1, a2, v, u, t)`. -/
structure EdgeConflict where
  a1 : ℕ
  a2 : ℕ
  v : Option ℕ
  u : Option ℕ
  t : ℕ
deriving DecidableEq, Repr

/-- The three conflict lists of a solver. -/
structure Conflicts where
  vertex : List VertexConflict
  swap : List EdgeConflict
  pebble : List EdgeConflict
deriving DecidableEq, Repr

namespace Shift

/-- The loop over `t_ind`: each timestep with its variable. -/
def entries (s : Shift) : List (ℤ × ℤ) := s.timestep.zipIdx.map fun p => (p.1, s.firstVariable + p.2)

end Shift

namespace Encoder

variable (e : Encoder)

/-! ## Eager -/

/-- `CreateConf_Vertex`. -/
def createConfVertex : List Clause :=
  (List.range e.vertices).flatMap fun v => (List.range e.agents).flatMap fun a1 =>
    if (e.atEntry a1 v).firstVariable = 0 then [] else
    (List.Ico (a1 + 1) e.agents).flatMap fun a2 =>
      if (e.atEntry a2 v).firstVariable = 0 then [] else
      (Int.range (max (e.atEntry a1 v).firstTimestep (e.atEntry a2 v).firstTimestep)
        (min (e.atEntry a1 v).lastTimestep (e.atEntry a2 v).lastTimestep + 1)).map fun t =>
        [-(e.atEntry a1 v).var t, -(e.atEntry a2 v).var t]

/-- `CreateConf_Swapping_At`. -/
def createConfSwappingAt : List Clause :=
  (List.range e.vertices).flatMap fun v => (e.inst.neighbors v Dir.moves).flatMap fun (_, u) =>
    (List.range e.agents).flatMap fun a1 =>
      if (e.atEntry a1 v).firstVariable = 0 ∨ (e.atEntry a1 u).firstVariable = 0 then [] else
      (List.Ico (a1 + 1) e.agents).flatMap fun a2 =>
        if (e.atEntry a2 u).firstVariable = 0 ∨ (e.atEntry a2 v).firstVariable = 0 then [] else
        (Int.range
          (max (max (e.atEntry a1 v).firstTimestep ((e.atEntry a1 u).firstTimestep - 1))
            (max (e.atEntry a2 u).firstTimestep ((e.atEntry a2 v).firstTimestep - 1)))
          (min (min (e.atEntry a1 v).lastTimestep ((e.atEntry a1 u).lastTimestep - 1))
            (min (e.atEntry a2 u).lastTimestep ((e.atEntry a2 v).lastTimestep - 1)) + 1)).map fun t =>
          [-(e.atEntry a1 v).var t, -(e.atEntry a1 u).var (t + 1),
            -(e.atEntry a2 v).var (t + 1), -(e.atEntry a2 u).var t]

/-- `CreateConf_Swapping_Pass`. -/
def createConfSwappingPass : List Clause :=
  (List.range e.vertices).flatMap fun v => (e.inst.neighbors v Dir.moves).flatMap fun (dir, u) =>
    (List.range e.agents).flatMap fun a1 =>
      if (e.passEntry a1 v dir).firstVariable = 0 then [] else
      (List.Ico (a1 + 1) e.agents).flatMap fun a2 =>
        if (e.passEntry a2 u (oppositeDir dir)).firstVariable = 0 then [] else
        (Int.range
          (max (e.passEntry a1 v dir).firstTimestep
            (e.passEntry a2 u (oppositeDir dir)).firstTimestep)
          (min (e.passEntry a1 v dir).lastTimestep
            (e.passEntry a2 u (oppositeDir dir)).lastTimestep + 1)).map fun t =>
          [-(e.passEntry a1 v dir).var t, -(e.passEntry a2 u (oppositeDir dir)).var t]

/-- `CreateConf_Swapping_Shift`. Each edge is seen from its northern or eastern end. -/
def createConfSwappingShift : List Clause :=
  (List.range e.vertices).flatMap fun v =>
    (e.inst.neighbors v [.south, .west]).flatMap fun (dir, u) =>
      (e.shiftEntry v dir).entries.flatMap fun (t, shift1) =>
        ((e.shiftEntry u (oppositeDir dir)).var? t).toList.map fun shift2 => [-shift1, -shift2]

/-- `CreateConf_Pebble_At`. -/
def createConfPebbleAt : List Clause :=
  (List.range e.vertices).flatMap fun v => (List.range e.agents).flatMap fun a1 =>
    if (e.atEntry a1 v).firstVariable = 0 then [] else
    (List.range e.agents).flatMap fun a2 =>
      if a1 = a2 ∨ (e.atEntry a2 v).firstVariable = 0 then [] else
      (Int.range (max (e.atEntry a1 v).firstTimestep ((e.atEntry a2 v).firstTimestep + 1))
        (min (e.atEntry a1 v).lastTimestep ((e.atEntry a2 v).lastTimestep + 1) + 1)).map fun t =>
        [-(e.atEntry a1 v).var t, -(e.atEntry a2 v).var (t - 1)]

/-- `CreateConf_Pebble_Pass`. -/
def createConfPebblePass : List Clause :=
  (List.range e.vertices).flatMap fun v => (e.inst.neighbors v Dir.moves).flatMap fun (dir, u) =>
    (List.range e.agents).flatMap fun a1 =>
      if (e.passEntry a1 v dir).firstVariable = 0 then [] else
      (List.range e.agents).flatMap fun a2 =>
        if a1 = a2 ∨ (e.atEntry a2 u).firstVariable = 0 then [] else
        (Int.range (max (e.passEntry a1 v dir).firstTimestep (e.atEntry a2 u).firstTimestep)
          (min (e.passEntry a1 v dir).lastTimestep (e.atEntry a2 u).lastTimestep + 1)).map fun t =>
          [-(e.passEntry a1 v dir).var t, -(e.atEntry a2 u).var t]

/-- `CreateConf_Pebble_Shift`: a shift into `u` forbids every shift which leaves `u`. -/
def createConfPebbleShift : List Clause :=
  (List.range e.vertices).flatMap fun v => (e.inst.neighbors v Dir.all).flatMap fun (dir, u) =>
    (e.shiftEntry v dir).entries.flatMap fun (t, shift1) => Dir.moves.flatMap fun uDir =>
      ((e.shiftEntry u uDir).var? t).toList.map fun shift2 => [-shift1, -shift2]

/-! ## On demand -/

/-- The search for the direction from `v` to `u`, which starts as `-1`. -/
def findDir (v u : ℕ) : Option Dir := Dir.moves.find? fun dir => e.inst.getNeighbor v dir == some u

/-- `CreateConf_Vertex_OnDemand`. -/
def createConfVertexOnDemand (conflicts : List VertexConflict) : List Clause :=
  conflicts.flatMap fun c => match c.v with
    | none => []
    | some v => [[-(e.atEntry c.a1 v).var c.t, -(e.atEntry c.a2 v).var c.t]]

/-- `CreateConf_Swapping_At_OnDemand`. -/
def createConfSwappingAtOnDemand (conflicts : List EdgeConflict) : List Clause :=
  conflicts.flatMap fun c => match c.v, c.u with
    | some v, some u =>
      [[-(e.atEntry c.a1 v).var c.t, -(e.atEntry c.a1 u).var ((c.t : ℤ) + 1),
        -(e.atEntry c.a2 v).var ((c.t : ℤ) + 1), -(e.atEntry c.a2 u).var c.t]]
    | _, _ => []

/-- `CreateConf_Swapping_Pass_OnDemand`. -/
def createConfSwappingPassOnDemand (conflicts : List EdgeConflict) : List Clause :=
  conflicts.flatMap fun c => match c.v, c.u with
    | some v, some u => match e.findDir v u with
      | none => []
      | some dir =>
        [[-(e.passEntry c.a1 v dir).var c.t, -(e.passEntry c.a2 u (oppositeDir dir)).var c.t]]
    | _, _ => []

/-- The index `find(..., t) - begin()` without a test that `t` was found. -/
def shiftVarUnchecked (s : Shift) (t : ℤ) : ℤ := s.firstVariable + s.timestep.idxOf t

/-- `CreateConf_Swapping_Shift_OnDemand`. -/
def createConfSwappingShiftOnDemand (conflicts : List EdgeConflict) : List Clause :=
  conflicts.flatMap fun c => match c.v, c.u with
    | some v, some u => match e.findDir v u with
      | none => []
      | some dir =>
        [[-shiftVarUnchecked (e.shiftEntry v dir) c.t,
          -shiftVarUnchecked (e.shiftEntry u (oppositeDir dir)) c.t]]
    | _, _ => []

/-- `CreateConf_Pebble_At_OnDemand`. The tuple's last vertex is the one that was entered. -/
def createConfPebbleAtOnDemand (conflicts : List EdgeConflict) : List Clause :=
  conflicts.flatMap fun c => match c.u with
    | none => []
    | some v => [[-(e.atEntry c.a1 v).var c.t, -(e.atEntry c.a2 v).var ((c.t : ℤ) - 1)]]

/-- `CreateConf_Pebble_Pass_OnDemand`. -/
def createConfPebblePassOnDemand (conflicts : List EdgeConflict) : List Clause :=
  conflicts.flatMap fun c => match c.v, c.u with
    | some v, some u => match e.findDir v u with
      | none => []
      | some dir =>
        [[-(e.passEntry c.a1 v dir).var ((c.t : ℤ) - 1), -(e.atEntry c.a2 u).var ((c.t : ℤ) - 1)]]
    | _, _ => []

/-- `CreateConf_Pebble_Shift_OnDemand`. The source reads the timestep back from the list at the
index where it searched for it. -/
def createConfPebbleShiftOnDemand (conflicts : List EdgeConflict) : List Clause :=
  conflicts.flatMap fun c => match c.v, c.u with
    | some v, some u => match e.findDir v u with
      | none => []
      | some dir =>
        let s := e.shiftEntry v dir
        let t := s.timestep.getD (s.timestep.idxOf ((c.t : ℤ) - 1)) 0
        Dir.moves.flatMap fun uDir => ((e.shiftEntry u uDir).var? t).toList.map fun shift2 =>
          [-shiftVarUnchecked s ((c.t : ℤ) - 1), -shift2]
    | _, _ => []

end Encoder

end MAPFEncodings

import MAPFEncodings.Model.Tables

/-! # `_MAPFSAT_SMT`: the graphs

Instead of movement clauses this encoding writes graphs whose edges are controlled by variables,
and requires reachability between two nodes. Nodes are numbered on first use by `VarToID`.
-/

namespace MAPFEncodings

open Cnf

/-- The counters `nr_clauses_move`, `_dupli`, `_conflict`, `_soc` and `_unit`. -/
inductive ClauseKind where
  | move
  | dupli
  | conflict
  | soc
  | unit
deriving DecidableEq, Repr

/-- A line of the file for the solver. -/
inductive Line where
  | digraph (graph : ℕ)
  | edge (graph source target : ℕ) (var : ℤ)
  | reach (graph source target : ℕ) (lit : ℤ)
  | clause (kind : ClauseKind) (c : Clause)
deriving DecidableEq, Repr

def Line.clause? : Line → Option Clause
  | clause _ c => some c
  | _ => none

/-! ## Node numbers -/

/-- The variables `vertex_id` and `dict`. -/
structure Numbering where
  freshID : ℕ
  dict : List (ℤ × ℕ)
deriving DecidableEq, Repr

def Numbering.empty : Numbering := ⟨0, []⟩

/-- `VarToID`. -/
def varToID (numbering : Numbering) (var : ℤ) (duplicate : Bool) : ℕ × Numbering :=
  let key := if duplicate then -var else var
  match numbering.dict.lookup key with
  | some id => (id, numbering)
  | none => (numbering.freshID, ⟨numbering.freshID + 1, (key, numbering.freshID) :: numbering.dict⟩)

/-- Two nodes, given by their arguments to `VarToID`, and the variable between them. -/
structure Link where
  source : ℤ × Bool
  target : ℤ × Bool
  var : ℤ
deriving DecidableEq, Repr

/-- The two calls of `VarToID` for the ends of a link. -/
def numberLink (numbering : Numbering) (link : Link) : (ℕ × ℕ × ℤ) × Numbering :=
  let (source, numbering) := varToID numbering link.source.1 link.source.2
  let (target, numbering) := varToID numbering link.target.1 link.target.2
  ((source, target, link.var), numbering)

/-- The Cantor pairing function of a vertex and a timestep. -/
def cantor (v t : ℤ) : ℤ := (v + t) * (v + t + 1) / 2 + t

namespace Encoder

variable (e : Encoder)

/-! ## Graphs -/

/-- The edges of `CreateMove_Graph_MonosatPass` for one agent: every position is split into an
edge from its in-node to its out-node, and passes lead from out-nodes to in-nodes. -/
def passLinks (a : ℕ) : List Link :=
  ((List.range e.vertices).flatMap fun v =>
    if (e.atEntry a v).firstVariable = 0 then [] else
    (Int.range (e.atEntry a v).firstTimestep ((e.atEntry a v).lastTimestep + 1)).map fun t =>
      ⟨((e.atEntry a v).var t, false), ((e.atEntry a v).var t, true), (e.atEntry a v).var t⟩) ++
  (List.range e.vertices).flatMap fun v =>
    if (e.atEntry a v).firstVariable = 0 then [] else
    (e.inst.neighbors v Dir.all).flatMap fun (dir, u) =>
      if (e.passEntry a v dir).firstVariable = 0 then [] else
      (Int.range (e.passEntry a v dir).firstTimestep
        ((e.passEntry a v dir).lastTimestep + 1)).map fun t =>
        ⟨((e.atEntry a v).var t, true), ((e.atEntry a u).var (t + 1), false),
          (e.passEntry a v dir).var t⟩

/-- The reachability requirement of `CreateMove_Graph_MonosatPass`. -/
def passGoal (a : ℕ) (lit : ℤ) : Link :=
  let goal := e.atEntry a (e.inst.goalOf a)
  ⟨((e.atEntry a (e.inst.startOf a)).firstVariable, false), (goal.var goal.lastTimestep, true), lit⟩

/-- `CreateMove_Graph_MonosatPass`: one graph for each agent. -/
def createMoveGraphMonosatPass (lit : ℤ) : List Line × ℤ :=
  let graphs := List.mapState (fun lit a =>
    let edges := List.mapState numberLink .empty (e.passLinks a)
    let goal := (numberLink edges.2 (e.passGoal a lit)).1
    (Line.digraph a :: edges.1.map (fun (source, target, var) => Line.edge a source target var) ++
      [Line.reach a goal.1 goal.2.1 goal.2.2, Line.clause .unit [lit]], lit + 1))
    lit (List.range e.agents)
  (graphs.1.flatten, graphs.2)

/-- The edges of `CreateMove_Graph_MonosatShift`. -/
def shiftLinks : List Link :=
  (List.range e.vertices).flatMap fun v =>
    if e.timesStart v = -1 then [] else
    (Int.range (e.timesStart v) (e.timesEnd v + 1)).flatMap fun t =>
      (e.inst.neighbors v Dir.all).flatMap fun (dir, u) =>
        ((e.shiftEntry v dir).var? t).toList.map fun shiftVar =>
          ⟨(cantor v t, false), (cantor u (t + 1), false), shiftVar⟩

/-- The reachability requirement of `CreateMove_Graph_MonosatShift` for one agent. -/
def shiftGoal (a : ℕ) (lit : ℤ) : Link :=
  ⟨(cantor (e.inst.startOf a) 0, false),
    (cantor (e.inst.goalOf a) (e.lastTimestep a (e.inst.goalOf a) e.maxTimestep), false), lit⟩

/-- `CreateMove_Graph_MonosatShift`: one graph shared by all agents. -/
def createMoveGraphMonosatShift (lit : ℤ) : List Line × ℤ :=
  let edges := List.mapState numberLink .empty e.shiftLinks
  let goals := List.mapState (fun (state : Numbering × ℤ) a =>
    let (goal, numbering) := numberLink state.1 (e.shiftGoal a state.2)
    ([Line.reach 0 goal.1 goal.2.1 goal.2.2, Line.clause .unit [state.2]], numbering, state.2 + 1))
    (edges.2, lit) (List.range e.agents)
  (Line.digraph 0 :: edges.1.map (fun (source, target, var) => Line.edge 0 source target var) ++
    goals.1.flatten, goals.2.2)

end Encoder

end MAPFEncodings

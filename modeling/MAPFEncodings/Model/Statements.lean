import MAPFEncodings.Model.Conflicts
import MAPFEncodings.Model.Graphs
import MAPFEncodings.Model.Movement

/-! # Statements of the generators

Both implementations of `AddClause` increment `nr_clauses`, while the counter of the clause's category
is incremented by hand in each generator, next to the call. Here each generator is the list of these
statements in the order of their execution, each where the body has it.
-/

namespace MAPFEncodings

open Cnf

/-- `nr_clauses` and the counters of its parts. -/
structure Counters where
  clauses : ℕ
  move : ℕ
  dupli : ℕ
  conflict : ℕ
  soc : ℕ
  unit : ℕ
deriving DecidableEq, Repr

def Counters.zero : Counters := ⟨0, 0, 0, 0, 0, 0⟩

/-- The statements of a generator which write to the formula or to a counter. -/
inductive Statement where
  | addClause (c : Clause)
  | increment (kind : ClauseKind)
  | digraph (graph : ℕ)
  | edge (graph source target : ℕ) (var : ℤ)
  | reach (graph source target : ℕ) (lit : ℤ)
deriving DecidableEq, Repr

namespace Statement

/-- The effect of a statement on the counters. -/
def exec (counters : Counters) : Statement → Counters
  | addClause _ => { counters with clauses := counters.clauses + 1 }
  | increment .move => { counters with move := counters.move + 1 }
  | increment .dupli => { counters with dupli := counters.dupli + 1 }
  | increment .conflict => { counters with conflict := counters.conflict + 1 }
  | increment .soc => { counters with soc := counters.soc + 1 }
  | increment .unit => { counters with unit := counters.unit + 1 }
  | _ => counters

/-- The call of `AddClause`, if the statement is one. -/
def clause? : Statement → Option Clause
  | addClause c => some c
  | _ => none

/-- The line which a statement prints. Clauses carry the category of their generator along. -/
def line? (kind : ClauseKind) : Statement → Option Line
  | addClause c => some (.clause kind c)
  | increment _ => none
  | digraph graph => some (.digraph graph)
  | edge graph source target var => some (.edge graph source target var)
  | reach graph source target lit => some (.reach graph source target lit)

end Statement

namespace Encoder

variable (e : Encoder)

/-! ## Positions -/

/-- `CreatePossition_Start`. -/
def createPossitionStartStatements : List Statement :=
  (List.range e.agents).flatMap fun a =>
    [.addClause [(e.atEntry a (e.inst.startOf a)).firstVariable], .increment .unit]

/-- `CreatePossition_Goal`. -/
def createPossitionGoalStatements : List Statement :=
  (List.range e.agents).flatMap fun a =>
    [.addClause [(e.atEntry a (e.inst.goalOf a)).var (e.atEntry a (e.inst.goalOf a)).lastTimestep],
      .increment .unit]

/-- `CreatePossition_NoneAtGoal`. -/
def createPossitionNoneAtGoalStatements : List Statement :=
  (List.range e.agents).flatMap fun a => (List.range e.agents).flatMap fun a2 =>
    let v := e.inst.goalOf a
    if (e.atEntry a2 v).firstVariable = 0 then [] else
    (Int.range (max (e.atEntry a2 v).firstTimestep ((e.atEntry a v).lastTimestep + 1))
      ((e.atEntry a2 v).lastTimestep + 1)).flatMap fun t =>
        [.addClause [-(e.atEntry a2 v).var t], .increment .unit]

/-- `CreatePossition_NoneAtGoal_Shift`. -/
def createPossitionNoneAtGoalShiftStatements : List Statement :=
  (List.range e.agents).flatMap fun a =>
    let v := e.inst.goalOf a
    if e.timesStart v = -1 then [] else
    (Int.range (max (e.lastTimestep a v e.maxTimestep) (e.timesStart v))
      (e.timesEnd v + 1)).flatMap fun t => (e.inst.neighbors v Dir.all).flatMap fun (dir, _) =>
        ((e.shiftEntry v dir).var? t).toList.flatMap fun shiftVar =>
          [.addClause [-shiftVar], .increment .unit]

/-! ## Conflicts -/

/-- `CreateConf_Vertex`. -/
def createConfVertexStatements : List Statement :=
  (List.range e.vertices).flatMap fun v => (List.range e.agents).flatMap fun a1 =>
    if (e.atEntry a1 v).firstVariable = 0 then [] else
    (List.Ico (a1 + 1) e.agents).flatMap fun a2 =>
      if (e.atEntry a2 v).firstVariable = 0 then [] else
      (Int.range (max (e.atEntry a1 v).firstTimestep (e.atEntry a2 v).firstTimestep)
        (min (e.atEntry a1 v).lastTimestep (e.atEntry a2 v).lastTimestep + 1)).flatMap fun t =>
        [.addClause [-(e.atEntry a1 v).var t, -(e.atEntry a2 v).var t], .increment .conflict]

/-- `CreateConf_Swapping_At`. -/
def createConfSwappingAtStatements : List Statement :=
  (List.range e.vertices).flatMap fun v => (e.inst.neighbors v Dir.moves).flatMap fun (_, u) =>
    (List.range e.agents).flatMap fun a1 =>
      if (e.atEntry a1 v).firstVariable = 0 ∨ (e.atEntry a1 u).firstVariable = 0 then [] else
      (List.Ico (a1 + 1) e.agents).flatMap fun a2 =>
        if (e.atEntry a2 u).firstVariable = 0 ∨ (e.atEntry a2 v).firstVariable = 0 then [] else
        (Int.range
          (max (max (e.atEntry a1 v).firstTimestep ((e.atEntry a1 u).firstTimestep - 1))
            (max (e.atEntry a2 u).firstTimestep ((e.atEntry a2 v).firstTimestep - 1)))
          (min (min (e.atEntry a1 v).lastTimestep ((e.atEntry a1 u).lastTimestep - 1))
            (min (e.atEntry a2 u).lastTimestep ((e.atEntry a2 v).lastTimestep - 1)) + 1)).flatMap
          fun t =>
          [.addClause [-(e.atEntry a1 v).var t, -(e.atEntry a1 u).var (t + 1),
            -(e.atEntry a2 v).var (t + 1), -(e.atEntry a2 u).var t], .increment .conflict]

/-- `CreateConf_Swapping_Pass`. -/
def createConfSwappingPassStatements : List Statement :=
  (List.range e.vertices).flatMap fun v => (e.inst.neighbors v Dir.moves).flatMap fun (dir, u) =>
    (List.range e.agents).flatMap fun a1 =>
      if (e.passEntry a1 v dir).firstVariable = 0 then [] else
      (List.Ico (a1 + 1) e.agents).flatMap fun a2 =>
        if (e.passEntry a2 u (oppositeDir dir)).firstVariable = 0 then [] else
        (Int.range
          (max (e.passEntry a1 v dir).firstTimestep
            (e.passEntry a2 u (oppositeDir dir)).firstTimestep)
          (min (e.passEntry a1 v dir).lastTimestep
            (e.passEntry a2 u (oppositeDir dir)).lastTimestep + 1)).flatMap fun t =>
          [.addClause [-(e.passEntry a1 v dir).var t, -(e.passEntry a2 u (oppositeDir dir)).var t],
            .increment .conflict]

/-- `CreateConf_Swapping_Shift`. -/
def createConfSwappingShiftStatements : List Statement :=
  (List.range e.vertices).flatMap fun v =>
    (e.inst.neighbors v [.south, .west]).flatMap fun (dir, u) =>
      (e.shiftEntry v dir).entries.flatMap fun (t, shift1) =>
        ((e.shiftEntry u (oppositeDir dir)).var? t).toList.flatMap fun shift2 =>
          [.addClause [-shift1, -shift2], .increment .conflict]

/-- `CreateConf_Pebble_At`. -/
def createConfPebbleAtStatements : List Statement :=
  (List.range e.vertices).flatMap fun v => (List.range e.agents).flatMap fun a1 =>
    if (e.atEntry a1 v).firstVariable = 0 then [] else
    (List.range e.agents).flatMap fun a2 =>
      if a1 = a2 ∨ (e.atEntry a2 v).firstVariable = 0 then [] else
      (Int.range (max (e.atEntry a1 v).firstTimestep ((e.atEntry a2 v).firstTimestep + 1))
        (min (e.atEntry a1 v).lastTimestep ((e.atEntry a2 v).lastTimestep + 1) + 1)).flatMap fun t =>
        [.addClause [-(e.atEntry a1 v).var t, -(e.atEntry a2 v).var (t - 1)], .increment .conflict]

/-- `CreateConf_Pebble_Pass`. -/
def createConfPebblePassStatements : List Statement :=
  (List.range e.vertices).flatMap fun v => (e.inst.neighbors v Dir.moves).flatMap fun (dir, u) =>
    (List.range e.agents).flatMap fun a1 =>
      if (e.passEntry a1 v dir).firstVariable = 0 then [] else
      (List.range e.agents).flatMap fun a2 =>
        if a1 = a2 ∨ (e.atEntry a2 u).firstVariable = 0 then [] else
        (Int.range (max (e.passEntry a1 v dir).firstTimestep (e.atEntry a2 u).firstTimestep)
          (min (e.passEntry a1 v dir).lastTimestep (e.atEntry a2 u).lastTimestep + 1)).flatMap
          fun t =>
          [.addClause [-(e.passEntry a1 v dir).var t, -(e.atEntry a2 u).var t], .increment .conflict]

/-- `CreateConf_Pebble_Shift`. -/
def createConfPebbleShiftStatements : List Statement :=
  (List.range e.vertices).flatMap fun v => (e.inst.neighbors v Dir.all).flatMap fun (dir, u) =>
    (e.shiftEntry v dir).entries.flatMap fun (t, shift1) => Dir.moves.flatMap fun uDir =>
      ((e.shiftEntry u uDir).var? t).toList.flatMap fun shift2 =>
        [.addClause [-shift1, -shift2], .increment .conflict]

/-- `CreateConf_Vertex_OnDemand`. -/
def createConfVertexOnDemandStatements (conflicts : List VertexConflict) : List Statement :=
  conflicts.flatMap fun c => match c.v with
    | none => []
    | some v =>
      [.addClause [-(e.atEntry c.a1 v).var c.t, -(e.atEntry c.a2 v).var c.t], .increment .conflict]

/-- `CreateConf_Swapping_At_OnDemand`. -/
def createConfSwappingAtOnDemandStatements (conflicts : List EdgeConflict) : List Statement :=
  conflicts.flatMap fun c => match c.v, c.u with
    | some v, some u =>
      [.addClause [-(e.atEntry c.a1 v).var c.t, -(e.atEntry c.a1 u).var ((c.t : ℤ) + 1),
        -(e.atEntry c.a2 v).var ((c.t : ℤ) + 1), -(e.atEntry c.a2 u).var c.t], .increment .conflict]
    | _, _ => []

/-- `CreateConf_Swapping_Pass_OnDemand`. -/
def createConfSwappingPassOnDemandStatements (conflicts : List EdgeConflict) : List Statement :=
  conflicts.flatMap fun c => match c.v, c.u with
    | some v, some u => match e.findDir v u with
      | none => []
      | some dir =>
        [.addClause [-(e.passEntry c.a1 v dir).var c.t,
          -(e.passEntry c.a2 u (oppositeDir dir)).var c.t], .increment .conflict]
    | _, _ => []

/-- `CreateConf_Swapping_Shift_OnDemand`. -/
def createConfSwappingShiftOnDemandStatements (conflicts : List EdgeConflict) : List Statement :=
  conflicts.flatMap fun c => match c.v, c.u with
    | some v, some u => match e.findDir v u with
      | none => []
      | some dir =>
        [.addClause [-shiftVarUnchecked (e.shiftEntry v dir) c.t,
          -shiftVarUnchecked (e.shiftEntry u (oppositeDir dir)) c.t], .increment .conflict]
    | _, _ => []

/-- `CreateConf_Pebble_At_OnDemand`. -/
def createConfPebbleAtOnDemandStatements (conflicts : List EdgeConflict) : List Statement :=
  conflicts.flatMap fun c => match c.u with
    | none => []
    | some v =>
      [.addClause [-(e.atEntry c.a1 v).var c.t, -(e.atEntry c.a2 v).var ((c.t : ℤ) - 1)],
        .increment .conflict]

/-- `CreateConf_Pebble_Pass_OnDemand`. -/
def createConfPebblePassOnDemandStatements (conflicts : List EdgeConflict) : List Statement :=
  conflicts.flatMap fun c => match c.v, c.u with
    | some v, some u => match e.findDir v u with
      | none => []
      | some dir =>
        [.addClause [-(e.passEntry c.a1 v dir).var ((c.t : ℤ) - 1),
          -(e.atEntry c.a2 u).var ((c.t : ℤ) - 1)], .increment .conflict]
    | _, _ => []

/-- `CreateConf_Pebble_Shift_OnDemand`. -/
def createConfPebbleShiftOnDemandStatements (conflicts : List EdgeConflict) : List Statement :=
  conflicts.flatMap fun c => match c.v, c.u with
    | some v, some u => match e.findDir v u with
      | none => []
      | some dir =>
        let s := e.shiftEntry v dir
        let t := s.timestep.getD (s.timestep.idxOf ((c.t : ℤ) - 1)) 0
        Dir.moves.flatMap fun uDir => ((e.shiftEntry u uDir).var? t).toList.flatMap fun shift2 =>
          [.addClause [-shiftVarUnchecked s ((c.t : ℤ) - 1), -shift2], .increment .conflict]
    | _, _ => []

/-- `CreateConst_Avoid`. -/
def createConstAvoidStatements : List Statement :=
  e.inst.avoidLocations.flatMap fun avoid =>
    if avoid.t < e.maxTimestep then
      match e.inst.mapAt ⟨avoid.v.y, avoid.v.x⟩ with
      | none => []
      | some v => (List.range e.agents).flatMap fun a =>
        if (e.atEntry a v).firstVariable = 0 then [] else
        [.addClause [-(e.atEntry a v).var avoid.t], .increment .conflict]
    else []

/-! ## Movement -/

/-- `CreateMove_NoDuplicates`. -/
def createMoveNoDuplicatesStatements (lib : Externals) (lit : ℤ) : List Statement × ℤ :=
  let agents := List.mapState (fun lit a =>
    let times := List.mapState (fun lit t =>
      if 1 < (e.positionsAt a t).length then
        let (last, formula) := lib.encodeAtMostK (e.positionsAt a t) 1 lit
        (formula.flatMap fun c => [.addClause c, .increment .dupli], last + 1)
      else ([], lit)) lit (Int.range 0 e.maxTimestep)
    (times.1.flatten, times.2)) lit (List.range e.agents)
  (agents.1.flatten, agents.2)

/-- `CreateMove_NextVertex_At`. -/
def createMoveNextVertexAtStatements : List Statement :=
  (List.range e.agents).flatMap fun a => (List.range e.vertices).flatMap fun v =>
    if (e.atEntry a v).firstVariable = 0 then [] else
    (Int.range (e.atEntry a v).firstTimestep ((e.atEntry a v).lastTimestep + 1)).flatMap fun t =>
      let neibs := (e.inst.neighbors v Dir.all).filterMap fun (_, u) =>
        if (e.atEntry a u).Covers (t + 1) then some ((e.atEntry a u).var (t + 1)) else none
      if neibs = [] then [] else
      [.addClause (neibs ++ [-(e.atEntry a v).var t]), .increment .move]

/-- `CreateMove_EnterVertex_Pass`. -/
def createMoveEnterVertexPassStatements : List Statement :=
  (List.range e.vertices).flatMap fun v => (e.inst.neighbors v Dir.all).flatMap fun (dir, u) =>
    (List.range e.agents).flatMap fun a =>
      if (e.passEntry a v dir).firstVariable = 0 then [] else
      (Int.range (e.passEntry a v dir).firstTimestep
        ((e.passEntry a v dir).lastTimestep + 1)).flatMap fun t =>
        [.addClause [-(e.passEntry a v dir).var t, (e.atEntry a u).var (t + 1)], .increment .move]

/-- `CreateMove_NextEdge_Pass`. -/
def createMoveNextEdgePassStatements : List Statement :=
  (List.range e.agents).flatMap fun a => (List.range e.vertices).flatMap fun v =>
    if (e.atEntry a v).firstVariable = 0 then [] else
    (Int.range (e.atEntry a v).firstTimestep ((e.atEntry a v).lastTimestep + 1)).flatMap fun t =>
      let neibs := Dir.all.filterMap fun dir =>
        if (e.passEntry a v dir).Covers t then some ((e.passEntry a v dir).var t) else none
      if neibs = [] then [] else
      [.addClause (neibs ++ [-(e.atEntry a v).var t]), .increment .move]

/-- The loops over `i < j` which exclude the pairs of a list. -/
def excludePairsStatements : List ℤ → List Statement
  | [] => []
  | x :: xs =>
    (xs.flatMap fun y => [.addClause [-x, -y], .increment .move]) ++ excludePairsStatements xs

/-- `CreateMove_ExactlyOne_Shift`. -/
def createMoveExactlyOneShiftStatements : List Statement :=
  (List.range e.vertices).flatMap fun v =>
    if e.timesStart v = -1 then [] else
    (Int.range (e.timesStart v) (e.timesEnd v + 1)).flatMap fun t =>
      excludePairsStatements ((e.inst.neighbors v Dir.all).filterMap fun (dir, _) =>
        (e.shiftEntry v dir).var? t)

/-- `CreateMove_ExactlyOneIncoming_Shift`. -/
def createMoveExactlyOneIncomingShiftStatements : List Statement :=
  (List.range e.vertices).flatMap fun v =>
    let span := (e.inst.neighbors v Dir.all).foldl (fun (span : ℤ × ℤ) (_, u) =>
      if e.timesStart u = -1 then span
      else (min span.1 (e.timesStart u), max span.2 (e.timesEnd u))) (2147483647, -1)
    (Int.range span.1 (span.2 + 1)).flatMap fun t =>
      (List.mapState (fun (vc : List ℤ) (dir, u) =>
        let vc := vc ++ ((e.shiftEntry u (oppositeDir dir)).var? t).toList
        (excludePairsStatements vc, vc)) [] (e.inst.neighbors v Dir.all)).1.flatten

/-- `CreateMove_NextVertex_Shift`. -/
def createMoveNextVertexShiftStatements : List Statement :=
  (List.range e.agents).flatMap fun a => (List.range e.vertices).flatMap fun v =>
    if (e.atEntry a v).firstVariable = 0 then [] else
    (Int.range (e.atEntry a v).firstTimestep ((e.atEntry a v).lastTimestep + 1)).flatMap fun t =>
      (e.inst.neighbors v Dir.all).flatMap fun (dir, u) =>
        if (e.atEntry a u).Covers (t + 1) then
          ((e.shiftEntry v dir).var? t).toList.flatMap fun shiftVar =>
            [.addClause [-(e.atEntry a v).var t, -shiftVar, (e.atEntry a u).var (t + 1)],
              .increment .move,
              .addClause [-(e.atEntry a v).var t, -(e.atEntry a u).var (t + 1), shiftVar],
              .increment .move]
        else []

/-- The loop over the agents of `CreateMove_Graph_MonosatPass`. -/
def createMoveGraphMonosatPassStatements (lit : ℤ) : List Statement × ℤ :=
  let graphs := List.mapState (fun lit a =>
    let edges := List.mapState numberLink .empty (e.passLinks a)
    let goal := (numberLink edges.2 (e.passGoal a lit)).1
    (Statement.digraph a :: edges.1.map (fun (source, target, var) => .edge a source target var) ++
      [.reach a goal.1 goal.2.1 goal.2.2, .addClause [lit], .increment .unit], lit + 1))
    lit (List.range e.agents)
  (graphs.1.flatten, graphs.2)

/-- `CreateMove_Graph_MonosatShift`. -/
def createMoveGraphMonosatShiftStatements (lit : ℤ) : List Statement × ℤ :=
  let edges := List.mapState numberLink .empty e.shiftLinks
  let goals := List.mapState (fun (state : Numbering × ℤ) a =>
    let (goal, numbering) := numberLink state.1 (e.shiftGoal a state.2)
    ([Statement.reach 0 goal.1 goal.2.1 goal.2.2, .addClause [state.2], .increment .unit],
      numbering, state.2 + 1))
    (edges.2, lit) (List.range e.agents)
  (Statement.digraph 0 :: edges.1.map (fun (source, target, var) => .edge 0 source target var) ++
    goals.1.flatten, goals.2.2)

/-! ## Cost -/

/-- The part shared by the three functions `CreateConst_LimitSoc*`. -/
def limitLateStatements (lib : Externals) (triggers : ℕ → ℕ → ℤ → List Statement) (lit : ℤ) :
    List Statement × ℤ :=
  let late := List.mapState (fun lit a =>
    List.mapState (fun lit d =>
      ((triggers a d lit ++
        if (d : ℤ) < e.delta - 1 then [.addClause [lit, -(lit + 1)], .increment .soc] else [], lit),
        lit + 1)) lit (List.range e.delta)) lit (List.range e.agents)
  let (last, formula) := lib.encodeAtMostK (late.1.flatten.map Prod.snd) e.delta late.2
  (late.1.flatten.flatMap Prod.fst ++ formula.flatMap fun c => [.addClause c, .increment .soc],
    last + 1)

/-- `CreateConst_LimitSoc`. -/
def createConstLimitSocStatements (lib : Externals) (lit : ℤ) : List Statement × ℤ :=
  e.limitLateStatements lib (fun a d late =>
    [.addClause [(e.atEntry a (e.inst.goalOf a)).firstVariable + d, late], .increment .soc]) lit

/-- `CreateConst_LimitSoc_AllAt`. -/
def createConstLimitSocAllAtStatements (lib : Externals) (lit : ℤ) : List Statement × ℤ :=
  e.limitLateStatements lib (fun a d late =>
    let t := (e.atEntry a (e.inst.goalOf a)).firstTimestep + d
    (List.range e.vertices).flatMap fun v =>
      if v = e.inst.goalOf a then []
      else if (e.atEntry a v).Covers t then
        [.addClause [-(e.atEntry a v).var t, late], .increment .soc]
      else []) lit

/-- `CreateConst_LimitSoc_Shift`. -/
def createConstLimitSocShiftStatements (lib : Externals) (lit : ℤ) : List Statement × ℤ :=
  e.limitLateStatements lib (fun a d late =>
    let t := e.inst.firstTimestep a (e.inst.goalOf a) + d
    (e.inst.neighbors (e.inst.goalOf a) Dir.moves).flatMap fun (dir, u) =>
      ((e.shiftEntry u (oppositeDir dir)).var? t).toList.flatMap fun shiftVar =>
        [.addClause [-shiftVar, late], .increment .soc]) lit

end Encoder

end MAPFEncodings

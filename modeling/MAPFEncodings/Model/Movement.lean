import MAPFEncodings.Model.Tables

/-! # Position, movement and cost clauses

The generators `CreatePossition_*`, `CreateMove_*` and `CreateConst_*`. Those which introduce
auxiliary variables take the next unused variable and return it updated.
-/

namespace MAPFEncodings

open Cnf

/-- At most one of a list of variables, by excluding every pair. -/
def excludePairs : List ℤ → List Clause
  | [] => []
  | x :: xs => xs.map (fun y => [-x, -y]) ++ excludePairs xs

namespace Encoder

variable (e : Encoder)

/-! ## Positions -/

/-- `CreatePossition_Start`. -/
def createPossitionStart : List Clause :=
  (List.range e.agents).map fun a => [(e.atEntry a (e.inst.startOf a)).firstVariable]

/-- `CreatePossition_Goal`. -/
def createPossitionGoal : List Clause :=
  (List.range e.agents).map fun a =>
    [(e.atEntry a (e.inst.goalOf a)).var (e.atEntry a (e.inst.goalOf a)).lastTimestep]

/-- `CreatePossition_NoneAtGoal`: nobody is at an agent's goal once it has no variables left. -/
def createPossitionNoneAtGoal : List Clause :=
  (List.range e.agents).flatMap fun a => (List.range e.agents).flatMap fun a2 =>
    let v := e.inst.goalOf a
    if (e.atEntry a2 v).firstVariable = 0 then [] else
    (Int.range (max (e.atEntry a2 v).firstTimestep ((e.atEntry a v).lastTimestep + 1))
      ((e.atEntry a2 v).lastTimestep + 1)).map fun t => [-(e.atEntry a2 v).var t]

/-- `CreatePossition_NoneAtGoal_Shift`. -/
def createPossitionNoneAtGoalShift : List Clause :=
  (List.range e.agents).flatMap fun a =>
    let v := e.inst.goalOf a
    if e.timesStart v = -1 then [] else
    (Int.range (max (e.lastTimestep a v e.maxTimestep) (e.timesStart v))
      (e.timesEnd v + 1)).flatMap fun t => (e.inst.neighbors v Dir.all).flatMap fun (dir, _) =>
        ((e.shiftEntry v dir).var? t).toList.map fun shiftVar => [-shiftVar]

/-! ## Movement -/

/-- The variables of an agent's positions at one timestep. -/
def positionsAt (a : ℕ) (t : ℤ) : List ℤ :=
  (List.range e.vertices).filterMap fun v =>
    if (e.atEntry a v).Covers t then some ((e.atEntry a v).var t) else none

/-- `CreateMove_NoDuplicates`. -/
def createMoveNoDuplicates (lib : Externals) (lit : ℤ) : List Clause × ℤ :=
  let agents := List.mapState (fun lit a =>
    let times := List.mapState (fun lit t =>
      if 1 < (e.positionsAt a t).length then
        let (last, formula) := lib.encodeAtMostK (e.positionsAt a t) 1 lit
        (formula, last + 1)
      else ([], lit)) lit (Int.range 0 e.maxTimestep)
    (times.1.flatten, times.2)) lit (List.range e.agents)
  (agents.1.flatten, agents.2)

/-- `CreateMove_NextVertex_At`. -/
def createMoveNextVertexAt : List Clause :=
  (List.range e.agents).flatMap fun a => (List.range e.vertices).flatMap fun v =>
    if (e.atEntry a v).firstVariable = 0 then [] else
    (Int.range (e.atEntry a v).firstTimestep ((e.atEntry a v).lastTimestep + 1)).flatMap fun t =>
      let neibs := (e.inst.neighbors v Dir.all).filterMap fun (_, u) =>
        if (e.atEntry a u).Covers (t + 1) then some ((e.atEntry a u).var (t + 1)) else none
      if neibs = [] then [] else [neibs ++ [-(e.atEntry a v).var t]]

/-- `CreateMove_EnterVertex_Pass`. -/
def createMoveEnterVertexPass : List Clause :=
  (List.range e.vertices).flatMap fun v => (e.inst.neighbors v Dir.all).flatMap fun (dir, u) =>
    (List.range e.agents).flatMap fun a =>
      if (e.passEntry a v dir).firstVariable = 0 then [] else
      (Int.range (e.passEntry a v dir).firstTimestep
        ((e.passEntry a v dir).lastTimestep + 1)).map fun t =>
        [-(e.passEntry a v dir).var t, (e.atEntry a u).var (t + 1)]

/-- `CreateMove_LeaveVertex_Pass`, which no encoding calls. -/
def createMoveLeaveVertexPass : List Clause :=
  (List.range e.vertices).flatMap fun v => (e.inst.neighbors v Dir.all).flatMap fun (dir, _) =>
    (List.range e.agents).flatMap fun a =>
      if (e.passEntry a v dir).firstVariable = 0 then [] else
      (Int.range (e.passEntry a v dir).firstTimestep
        ((e.passEntry a v dir).lastTimestep + 1)).map fun t =>
        [-(e.passEntry a v dir).var t, (e.atEntry a v).var t]

/-- `CreateMove_NextEdge_Pass`. -/
def createMoveNextEdgePass : List Clause :=
  (List.range e.agents).flatMap fun a => (List.range e.vertices).flatMap fun v =>
    if (e.atEntry a v).firstVariable = 0 then [] else
    (Int.range (e.atEntry a v).firstTimestep ((e.atEntry a v).lastTimestep + 1)).flatMap fun t =>
      let neibs := Dir.all.filterMap fun dir =>
        if (e.passEntry a v dir).Covers t then some ((e.passEntry a v dir).var t) else none
      if neibs = [] then [] else [neibs ++ [-(e.atEntry a v).var t]]

/-- `CreateMove_ExactlyOne_Shift`: at most one shift leaves a vertex. -/
def createMoveExactlyOneShift : List Clause :=
  (List.range e.vertices).flatMap fun v =>
    if e.timesStart v = -1 then [] else
    (Int.range (e.timesStart v) (e.timesEnd v + 1)).flatMap fun t =>
      excludePairs ((e.inst.neighbors v Dir.all).filterMap fun (dir, _) =>
        (e.shiftEntry v dir).var? t)

/-- `CreateMove_ExactlyOneIncoming_Shift`: at most one shift enters a vertex. The pairs are
emitted again after every direction, because the loops over them stand inside the loop which
collects the variables. -/
def createMoveExactlyOneIncomingShift : List Clause :=
  (List.range e.vertices).flatMap fun v =>
    let span := (e.inst.neighbors v Dir.all).foldl (fun (span : ℤ × ℤ) (_, u) =>
      if e.timesStart u = -1 then span
      else (min span.1 (e.timesStart u), max span.2 (e.timesEnd u))) (2147483647, -1)
    (Int.range span.1 (span.2 + 1)).flatMap fun t =>
      (List.mapState (fun (vc : List ℤ) (dir, u) =>
        let vc := vc ++ ((e.shiftEntry u (oppositeDir dir)).var? t).toList
        (excludePairs vc, vc)) [] (e.inst.neighbors v Dir.all)).1.flatten

/-- `CreateMove_NextVertex_Shift`. -/
def createMoveNextVertexShift : List Clause :=
  (List.range e.agents).flatMap fun a => (List.range e.vertices).flatMap fun v =>
    if (e.atEntry a v).firstVariable = 0 then [] else
    (Int.range (e.atEntry a v).firstTimestep ((e.atEntry a v).lastTimestep + 1)).flatMap fun t =>
      (e.inst.neighbors v Dir.all).flatMap fun (dir, u) =>
        if (e.atEntry a u).Covers (t + 1) then
          ((e.shiftEntry v dir).var? t).toList.flatMap fun shiftVar =>
            [[-(e.atEntry a v).var t, -shiftVar, (e.atEntry a u).var (t + 1)],
              [-(e.atEntry a v).var t, -(e.atEntry a u).var (t + 1), shiftVar]]
        else []

/-! ## Cost -/

/-- The part shared by the three functions `CreateConst_LimitSoc*`: a chain of late variables for
every agent, forced by the `triggers` of the delays, of which at most `delta` are true. -/
def limitLate (lib : Externals) (triggers : ℕ → ℕ → ℤ → List Clause) (lit : ℤ) : List Clause × ℤ :=
  let late := List.mapState (fun lit a =>
    List.mapState (fun lit d =>
      ((triggers a d lit ++ if (d : ℤ) < e.delta - 1 then [[lit, -(lit + 1)]] else [], lit),
        lit + 1)) lit (List.range e.delta)) lit (List.range e.agents)
  let (last, formula) := lib.encodeAtMostK (late.1.flatten.map Prod.snd) e.delta late.2
  (late.1.flatten.flatMap Prod.fst ++ formula, last + 1)

/-- `CreateConst_LimitSoc`: an agent which is not at its goal is late. -/
def createConstLimitSoc (lib : Externals) (lit : ℤ) : List Clause × ℤ :=
  e.limitLate lib (fun a d late => [[(e.atEntry a (e.inst.goalOf a)).firstVariable + d, late]]) lit

/-- `CreateConst_LimitSoc_AllAt`: an agent which is somewhere other than at its goal is late. -/
def createConstLimitSocAllAt (lib : Externals) (lit : ℤ) : List Clause × ℤ :=
  e.limitLate lib (fun a d late =>
    let t := (e.atEntry a (e.inst.goalOf a)).firstTimestep + d
    (List.range e.vertices).flatMap fun v =>
      if v = e.inst.goalOf a then []
      else if (e.atEntry a v).Covers t then [[-(e.atEntry a v).var t, late]] else []) lit

/-- `CreateConst_LimitSoc_Shift`: an agent whose goal is still entered is late. -/
def createConstLimitSocShift (lib : Externals) (lit : ℤ) : List Clause × ℤ :=
  e.limitLate lib (fun a d late =>
    let t := e.inst.firstTimestep a (e.inst.goalOf a) + d
    (e.inst.neighbors (e.inst.goalOf a) Dir.moves).flatMap fun (dir, u) =>
      ((e.shiftEntry u (oppositeDir dir)).var? t).toList.map fun shiftVar => [-shiftVar, late]) lit

/-- `CreateConst_Avoid`, with the row index `y` and the column index `x` as in the source. -/
def createConstAvoid : List Clause :=
  e.inst.avoidLocations.flatMap fun avoid =>
    if avoid.t < e.maxTimestep then
      match e.inst.mapAt ⟨avoid.v.y, avoid.v.x⟩ with
      | none => []
      | some v => (List.range e.agents).flatMap fun a =>
        if (e.atEntry a v).firstVariable = 0 then [] else [[-(e.atEntry a v).var avoid.t]]
    else []

end Encoder

end MAPFEncodings

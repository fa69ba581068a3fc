import MAPFEncodings.Model.Formula
import MAPFEncodings.ToMathlib.NamedCnf

/-! # What the generators intend to say

The variables of a formula belong to objects: positions, passes, shifts, and the auxiliary
statements of the generators. Which objects there are follows from the windows of the agents alone,
and `Intends` lists the clauses which each eager generator wants to write about them. Nothing here
mentions the tables of variables.
-/

namespace MAPFEncodings

open Cnf

/-- What a variable can stand for. The auxiliary variables of a cardinality constraint are numbered
in the order of their creation. -/
inductive Object where
  | position (a v : ℕ) (t : ℤ)
  | pass (a v : ℕ) (dir : Dir) (t : ℤ)
  | shift (v : ℕ) (dir : Dir) (t : ℤ)
  | reach (a : ℕ)
  | duplicate (a t i : ℕ)
  | late (a d : ℕ)
  | bound (i : ℕ)
deriving DecidableEq, Repr

/-- The members of a solver which do not depend on the numbering of variables. -/
structure Outline where
  inst : Instance
  config : Config
  agents : ℕ
  vertices : ℕ
  delta : ℕ
  steps : ℤ

namespace Outline

variable (o : Outline)

/-- The last timestep at which an agent may be at a vertex. -/
def last (a v : ℕ) : ℤ := o.inst.lastTimestep a v o.steps o.delta o.config.costFunction

/-- The timestep of an agent's shortest path to its goal, and later. -/
def afterShortest (a d : ℕ) : ℤ := o.inst.firstTimestep a (o.inst.goalOf a) + d

/-- An agent may be at a vertex. -/
def Position (a v : ℕ) (t : ℤ) : Prop :=
  a < o.agents ∧ v < o.vertices ∧ o.inst.firstTimestep a v ≤ t ∧ t ≤ o.last a v

/-- An agent may leave a vertex in a direction. -/
def Pass (a v : ℕ) (dir : Dir) (t : ℤ) : Prop :=
  a < o.agents ∧ v < o.vertices ∧
    ∃ u, o.inst.getNeighbor v dir = some u ∧ o.inst.firstTimestep a v ≤ t ∧ t < o.last a u

/-- Some agent may leave a vertex in a direction. -/
def Shift (v : ℕ) (dir : Dir) (t : ℤ) : Prop :=
  v < o.vertices ∧ ∃ u, o.inst.getNeighbor v dir = some u ∧ (0 ≤ t ∧ t < o.steps) ∧
    ∃ a < o.agents, o.inst.firstTimestep a v ≤ t ∧ t < o.last a u

open Classical in
/-- The vertices at which an agent may be after leaving a vertex. -/
noncomputable def successors (a v : ℕ) (t : ℤ) : List ℕ :=
  (((o.inst.neighbors v Dir.all).filter fun p => o.Position a p.2 (t + 1))).map Prod.snd

open Classical in
/-- The vertices at which an agent may be. -/
noncomputable def present (a : ℕ) (t : ℤ) : List ℕ :=
  (List.range o.vertices).filter fun v => o.Position a v t

/-- The delays of all agents. -/
def lates : List Object :=
  (List.range o.agents).flatMap fun a => (List.range o.delta).map (Object.late a)

open Classical in
/-- The directions in which an agent may leave a vertex. -/
noncomputable def exits (a v : ℕ) (t : ℤ) : List Dir := Dir.all.filter fun dir => o.Pass a v dir t

variable {o}

theorem position_of_mem_successors {a v u : ℕ} {t : ℤ} (member : u ∈ o.successors a v t) :
    o.Position a u (t + 1) := by
  obtain ⟨p, inside, rfl⟩ := List.mem_map.mp member
  simpa using (List.mem_filter.mp inside).2

theorem position_of_mem_present {a v : ℕ} {t : ℤ} (member : v ∈ o.present a t) :
    o.Position a v t := by
  simpa using (List.mem_filter.mp member).2

theorem pass_of_mem_exits {a v : ℕ} {dir : Dir} {t : ℤ} (member : dir ∈ o.exits a v t) :
    o.Pass a v dir t := by
  rw [exits, List.mem_filter] at member
  simpa using member.2

end Outline

/-- The members of a solver without its tables. -/
def Encoder.outline (e : Encoder) : Outline :=
  ⟨e.inst, e.config, e.agents, e.vertices, e.delta, e.maxTimestep⟩

/-- A node of a graph: the two ends of an agent's position, or a vertex at a timestep in the graph which
the agents share. -/
inductive Node where
  | entry (v : ℕ) (t : ℤ)
  | exit (v : ℕ) (t : ℤ)
  | place (v : ℕ) (t : ℤ)
deriving DecidableEq, Repr

/-- The nodes of a graph. -/
def Outline.Node (o : Outline) (graph : ℕ) : Node → Prop
  | .entry v t => o.config.variableKind = .pass ∧ o.Position graph v t
  | .exit v t => o.config.variableKind = .pass ∧ o.Position graph v t
  | .place v t => o.config.variableKind = .shift ∧ v < o.vertices ∧ 0 ≤ t

/-- A line of the formula, with objects in place of variables. The clauses which say that at most `k`
objects of a list hold are those of the cardinality encoder, over auxiliary objects. -/
inductive Sentence where
  | clause (s : List (Literal Object))
  | atMost (xs : List Object) (k : ℕ) (aux : ℕ → Object)
  | digraph (graph : ℕ)
  | edge (graph : ℕ) (source target : Node) (x : Object)
  | reach (graph : ℕ) (source target : Node) (x : Object)

open Object Literal in
/-- What the functions `CreateConst_LimitSoc*` share. -/
inductive LimitsLate (o : Outline) : Sentence → Prop
  | chain {a d : ℕ} (agent : a < o.agents) (delay : d + 1 < o.delta) :
    LimitsLate o (.clause [pos (late a d), neg (late a (d + 1))])
  | bound : LimitsLate o (.atMost o.lates o.delta bound)

open Object Literal in
/-- The sentences which the eager generators want to write. -/
inductive Intends (o : Outline) : Generator → Sentence → Prop
  | start {a : ℕ} (agent : a < o.agents) :
    Intends o .createPossitionStart (.clause [pos (position a (o.inst.startOf a) 0)])
  | goal {a : ℕ} (agent : a < o.agents) : Intends o .createPossitionGoal
      (.clause [pos (position a (o.inst.goalOf a) (o.last a (o.inst.goalOf a)))])
  | noneAtGoal {a a2 : ℕ} {t : ℤ} (agent : a < o.agents)
    (there : o.Position a2 (o.inst.goalOf a) t) (done : o.last a (o.inst.goalOf a) < t) :
    Intends o .createPossitionNoneAtGoal (.clause [neg (position a2 (o.inst.goalOf a) t)])
  | noneAtGoalShift {a : ℕ} {dir : Dir} {t : ℤ} (agent : a < o.agents)
    (away : o.Shift (o.inst.goalOf a) dir t) (done : o.last a (o.inst.goalOf a) ≤ t) :
    Intends o .createPossitionNoneAtGoalShift (.clause [neg (shift (o.inst.goalOf a) dir t)])
  | confVertex {a1 a2 v : ℕ} {t : ℤ} (order : a1 < a2) (here : o.Position a1 v t)
    (there : o.Position a2 v t) :
    Intends o .createConfVertex (.clause [neg (position a1 v t), neg (position a2 v t)])
  | confSwappingAt {a1 a2 v u : ℕ} {dir : Dir} {t : ℤ} (moves : dir ∈ Dir.moves)
    (next : o.inst.getNeighbor v dir = some u) (order : a1 < a2)
    (here : o.Position a1 v t) (here' : o.Position a1 u (t + 1))
    (there' : o.Position a2 v (t + 1)) (there : o.Position a2 u t) :
    Intends o .createConfSwappingAt (.clause [neg (position a1 v t), neg (position a1 u (t + 1)),
      neg (position a2 v (t + 1)), neg (position a2 u t)])
  | confSwappingPass {a1 a2 v u : ℕ} {dir : Dir} {t : ℤ} (moves : dir ∈ Dir.moves)
    (next : o.inst.getNeighbor v dir = some u) (order : a1 < a2) (forth : o.Pass a1 v dir t)
    (back : o.Pass a2 u (oppositeDir dir) t) : Intends o .createConfSwappingPass
      (.clause [neg (pass a1 v dir t), neg (pass a2 u (oppositeDir dir) t)])
  | confSwappingShift {v u : ℕ} {dir : Dir} {t : ℤ} (half : dir ∈ [Dir.south, Dir.west])
    (next : o.inst.getNeighbor v dir = some u) (forth : o.Shift v dir t)
    (back : o.Shift u (oppositeDir dir) t) : Intends o .createConfSwappingShift
      (.clause [neg (shift v dir t), neg (shift u (oppositeDir dir) t)])
  | confPebbleAt {a1 a2 v : ℕ} {t : ℤ} (distinct : a1 ≠ a2) (here : o.Position a1 v t)
    (before : o.Position a2 v (t - 1)) : Intends o .createConfPebbleAt
      (.clause [neg (position a1 v t), neg (position a2 v (t - 1))])
  | confPebblePass {a1 a2 v u : ℕ} {dir : Dir} {t : ℤ} (moves : dir ∈ Dir.moves)
    (next : o.inst.getNeighbor v dir = some u) (distinct : a1 ≠ a2) (forth : o.Pass a1 v dir t)
    (there : o.Position a2 u t) : Intends o .createConfPebblePass
      (.clause [neg (pass a1 v dir t), neg (position a2 u t)])
  | confPebbleShift {v u : ℕ} {dir uDir : Dir} {t : ℤ} (next : o.inst.getNeighbor v dir = some u)
    (into : o.Shift v dir t) (moves : uDir ∈ Dir.moves) (away : o.Shift u uDir t) :
    Intends o .createConfPebbleShift (.clause [neg (shift v dir t), neg (shift u uDir t)])
  | noDuplicates {a t : ℕ} (agent : a < o.agents) (time : (t : ℤ) < o.steps)
    (many : 1 < (o.present a t).length) : Intends o .createMoveNoDuplicates
      (.atMost ((o.present a t).map fun v => position a v t) 1 (duplicate a t))
  | nextVertexAt {a v : ℕ} {t : ℤ} (here : o.Position a v t) (some : o.successors a v t ≠ []) :
    Intends o .createMoveNextVertexAt (.clause
      ((o.successors a v t).map (fun u => pos (position a u (t + 1))) ++ [neg (position a v t)]))
  | enterVertexPass {a v u : ℕ} {dir : Dir} {t : ℤ} (next : o.inst.getNeighbor v dir = some u)
    (forth : o.Pass a v dir t) : Intends o .createMoveEnterVertexPass
      (.clause [neg (pass a v dir t), pos (position a u (t + 1))])
  | nextEdgePass {a v : ℕ} {t : ℤ} (here : o.Position a v t) (some : o.exits a v t ≠ []) :
    Intends o .createMoveNextEdgePass (.clause
      ((o.exits a v t).map (fun dir => pos (pass a v dir t)) ++ [neg (position a v t)]))
  | exactlyOneShift {v : ℕ} {p q : Dir × ℕ} {t : ℤ}
    (order : [p, q].Sublist (o.inst.neighbors v Dir.all)) (first : o.Shift v p.1 t)
    (second : o.Shift v q.1 t) : Intends o .createMoveExactlyOneShift
      (.clause [neg (shift v p.1 t), neg (shift v q.1 t)])
  | exactlyOneIncomingShift {v : ℕ} {p q : Dir × ℕ} {t : ℤ} (vertex : v < o.vertices)
    (order : [p, q].Sublist (o.inst.neighbors v Dir.all))
    (first : o.Shift p.2 (oppositeDir p.1) t) (second : o.Shift q.2 (oppositeDir q.1) t) :
    Intends o .createMoveExactlyOneIncomingShift
      (.clause [neg (shift p.2 (oppositeDir p.1) t), neg (shift q.2 (oppositeDir q.1) t)])
  | shiftMoves {a v u : ℕ} {dir : Dir} {t : ℤ} (next : o.inst.getNeighbor v dir = some u)
    (here : o.Position a v t) (there : o.Position a u (t + 1)) (forth : o.Shift v dir t) :
    Intends o .createMoveNextVertexShift (.clause
      [neg (position a v t), neg (shift v dir t), pos (position a u (t + 1))])
  | movesShift {a v u : ℕ} {dir : Dir} {t : ℤ} (next : o.inst.getNeighbor v dir = some u)
    (here : o.Position a v t) (there : o.Position a u (t + 1)) (forth : o.Shift v dir t) :
    Intends o .createMoveNextVertexShift (.clause
      [neg (position a v t), neg (position a u (t + 1)), pos (shift v dir t)])
  | limitSoc {a d : ℕ} (agent : a < o.agents) (delay : d < o.delta) :
    Intends o .createConstLimitSoc
      (.clause [pos (position a (o.inst.goalOf a) (o.afterShortest a d)), pos (late a d)])
  | limitSocAllAt {a v d : ℕ} (delay : d < o.delta) (away : v ≠ o.inst.goalOf a)
    (here : o.Position a v (o.afterShortest a d)) : Intends o .createConstLimitSocAllAt
      (.clause [neg (position a v (o.afterShortest a d)), pos (late a d)])
  | limitSocShift {a u d : ℕ} {dir : Dir} (agent : a < o.agents) (delay : d < o.delta)
    (moves : dir ∈ Dir.moves) (next : o.inst.getNeighbor (o.inst.goalOf a) dir = some u)
    (into : o.Shift u (oppositeDir dir) (o.afterShortest a d)) : Intends o .createConstLimitSocShift
      (.clause [neg (shift u (oppositeDir dir) (o.afterShortest a d)), pos (late a d)])
  | limitSocLate {s : Sentence} (late : LimitsLate o s) : Intends o .createConstLimitSoc s
  | limitSocAllAtLate {s : Sentence} (late : LimitsLate o s) : Intends o .createConstLimitSocAllAt s
  | limitSocShiftLate {s : Sentence} (late : LimitsLate o s) : Intends o .createConstLimitSocShift s
  | passGraph {a : ℕ} (agent : a < o.agents) :
    Intends o .createMoveGraphMonosatPass (.digraph a)
  | passGraphPosition {a v : ℕ} {t : ℤ} (here : o.Position a v t) :
    Intends o .createMoveGraphMonosatPass (.edge a (.entry v t) (.exit v t) (position a v t))
  | passGraphPass {a v u : ℕ} {dir : Dir} {t : ℤ} (next : o.inst.getNeighbor v dir = some u)
    (forth : o.Pass a v dir t) : Intends o .createMoveGraphMonosatPass
      (.edge a (.exit v t) (.entry u (t + 1)) (pass a v dir t))
  | passGraphReach {a : ℕ} (agent : a < o.agents) : Intends o .createMoveGraphMonosatPass
      (.reach a (.entry (o.inst.startOf a) 0)
        (.exit (o.inst.goalOf a) (o.last a (o.inst.goalOf a))) (reach a))
  | passGraphUnit {a : ℕ} (agent : a < o.agents) :
    Intends o .createMoveGraphMonosatPass (.clause [pos (reach a)])
  | shiftGraph : Intends o .createMoveGraphMonosatShift (.digraph 0)
  | shiftGraphShift {v u : ℕ} {dir : Dir} {t : ℤ} (next : o.inst.getNeighbor v dir = some u)
    (forth : o.Shift v dir t) : Intends o .createMoveGraphMonosatShift
      (.edge 0 (.place v t) (.place u (t + 1)) (shift v dir t))
  | shiftGraphReach {a : ℕ} (agent : a < o.agents) : Intends o .createMoveGraphMonosatShift
      (.reach 0 (.place (o.inst.startOf a) 0)
        (.place (o.inst.goalOf a) (o.last a (o.inst.goalOf a))) (reach a))
  | shiftGraphUnit {a : ℕ} (agent : a < o.agents) :
    Intends o .createMoveGraphMonosatShift (.clause [pos (reach a)])

end MAPFEncodings

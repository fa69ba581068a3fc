import MAPFEncodings.ToMathlib.StatefulMap
import Mathlib.Data.List.Intervals

/-! # Instances: the grid, its numbering, and the distance tables

A translation of `_MAPFSAT_Instance`. Free cells are numbered in row-major order; `map` holds the
number of each cell and `coord_list` the cell of each number. The source's marker `-1` for "no
vertex" is `none` here, while the marker `-1` for "unreachable" stays an integer, because it takes
part in the arithmetic of time windows.
-/

namespace MAPFEncodings

/-- `_MAPFSAT_Vertex`: the row `x` and the column `y` of a cell. -/
structure Vertex where
  x : ℕ
  y : ℕ
deriving DecidableEq, Repr, Inhabited

/-- `_MAPFSAT_Agent`. -/
structure Agent where
  start : Vertex
  goal : Vertex
deriving DecidableEq, Repr, Inhabited

/-- `_MAPFSAT_Avoid`. -/
structure Avoid where
  v : Vertex
  t : ℤ
deriving DecidableEq, Repr

/-- Directions `0, …, 4`: the self loop and the four compass directions. -/
inductive Dir where
  | wait
  | north
  | south
  | west
  | east
deriving DecidableEq, Repr

namespace Dir

/-- The loop `dir = 0; dir < 5`. -/
def all : List Dir := [wait, north, south, west, east]

/-- The loop `dir = 1; dir < 5`, which ignores waiting. -/
def moves : List Dir := [north, south, west, east]

/-- Position in tables with one entry per direction. -/
def index : Dir → ℕ
  | wait => 0
  | north => 1
  | south => 2
  | west => 3
  | east => 4

end Dir

/-- `OppositeDir`. -/
def oppositeDir : Dir → Dir
  | .north => .south
  | .south => .north
  | .west => .east
  | .east => .west
  | .wait => .wait

/-- `cost_function`: makespan or sum of costs. -/
inductive CostFunction where
  | mks
  | soc
deriving DecidableEq, Repr

/-! ## Loading a map -/

/-- The members of an instance which describe its map. -/
structure Grid where
  map : List (List (Option ℕ))
  height : ℕ
  width : ℕ
  numberOfVertices : ℕ
  coordList : List Vertex

/-- The loop shared by `LoadMap` and `LoadMapData`: number the free cells in row-major order. -/
def numberCells (height width : ℕ) (isFree : ℕ → ℕ → Bool) : Grid :=
  let cell (i : ℕ) (state : ℕ × List Vertex) (j : ℕ) : Option ℕ × ℕ × List Vertex :=
    if isFree i j then (some state.1, state.1 + 1, state.2 ++ [⟨i, j⟩]) else (none, state)
  let rows := List.mapState (fun state i => List.mapState (cell i) state (List.range width))
    (0, []) (List.range height)
  { map := rows.1
    height := height
    width := width
    numberOfVertices := rows.2.1
    coordList := rows.2.2 }

/-- `LoadMapData`: a cell is free unless it is `-1`. -/
def loadMapData (mapVector : List (List ℤ)) : Grid :=
  numberCells mapVector.length (mapVector.headD []).length
    fun i j => decide ((mapVector.getD i []).getD j (-1) ≠ -1)

/-- `LoadMap`: the header gives the size and a cell is free if its character is a dot. The cells
are the characters which follow the header, without white space. -/
def loadMap (height width : ℕ) (cells : List Char) : Grid :=
  numberCells height width fun i j => cells.getD (i * width + j) '@' == '.'

/-- Where an instance takes its map from. -/
inductive MapInput where
  | data (mapVector : List (List ℤ))
  | file (height width : ℕ) (cells : List Char)
deriving Repr

def MapInput.load : MapInput → Grid
  | data mapVector => loadMapData mapVector
  | file height width cells => loadMap height width cells

/-- The loader finds every cell it reads. This is so for rectangular maps, and no row may be
shorter than the first one. -/
def MapInput.Complete : MapInput → Prop
  | data mapVector =>
    mapVector ≠ [] ∧ ∀ row ∈ mapVector, (mapVector.headD []).length ≤ row.length
  | file height width cells => height * width ≤ cells.length

instance (input : MapInput) : Decidable input.Complete := by
  cases input <;> unfold MapInput.Complete <;> infer_instance

namespace Grid

variable (g : Grid)

/-- `map[x][y]`. -/
def mapAt (v : Vertex) : Option ℕ := (g.map.getD v.x []).getD v.y none

/-- The number of a cell which is known to be free. -/
def vertexId (v : Vertex) : ℕ := (g.mapAt v).getD 0

/-- `IDtoCoords`. -/
def idToCoords (v : ℕ) : Vertex := g.coordList.getD v default

/-- The cell in a direction, where the border tests allow it. -/
def stepFrom (v : Vertex) : Dir → Option Vertex
  | .wait => some v
  | .north => if 0 < v.x then some ⟨v.x - 1, v.y⟩ else none
  | .south => if v.x < g.height - 1 then some ⟨v.x + 1, v.y⟩ else none
  | .west => if 0 < v.y then some ⟨v.x, v.y - 1⟩ else none
  | .east => if v.y < g.width - 1 then some ⟨v.x, v.y + 1⟩ else none

/-- `HasNeighbor(_MAPFSAT_Vertex, int)`. -/
def hasNeighborAt (v : Vertex) (dir : Dir) : Bool :=
  dir == .wait || ((g.stepFrom v dir).bind g.mapAt).isSome

/-- `HasNeighbor(int, int)`. -/
def hasNeighbor (v : ℕ) (dir : Dir) : Bool :=
  dir == .wait || g.hasNeighborAt (g.idToCoords v) dir

/-- `GetNeighbor`. -/
def getNeighbor (v : ℕ) (dir : Dir) : Option ℕ :=
  if dir = .wait then some v else (g.stepFrom (g.idToCoords v) dir).bind g.mapAt

/-- `GetNeighbor` behind a test of `HasNeighbor`. -/
def neighbor? (v : ℕ) (dir : Dir) : Option ℕ :=
  if g.hasNeighbor v dir then g.getNeighbor v dir else none

/-- The loop over `dirs` which skips missing neighbours and reads the others. -/
def neighbors (v : ℕ) (dirs : List Dir) : List (Dir × ℕ) :=
  dirs.filterMap fun dir => (g.neighbor? v dir).map (dir, ·)

/-- One of the four tests of `BFS`: a free neighbour without a length gets one and is queued. -/
def bfsVisit (v : Vertex) (state : List ℤ × List Vertex) (dir : Dir) : List ℤ × List Vertex :=
  match g.stepFrom v dir with
  | none => state
  | some u =>
    if g.hasNeighborAt v dir ∧ state.1.getD (g.vertexId u) 0 = -1 then
      (state.1.set (g.vertexId u) (state.1.getD (g.vertexId v) 0 + 1), state.2 ++ [u])
    else state

/-- The loop `while(!que.empty())` of `BFS`, for at most the given number of iterations. -/
def bfsLoop : ℕ → List ℤ × List Vertex → List ℤ × List Vertex
  | 0, state => state
  | _ + 1, (lengthFrom, []) => (lengthFrom, [])
  | fuel + 1, (lengthFrom, v :: que) =>
    bfsLoop fuel (Dir.moves.foldl (g.bfsVisit v) (lengthFrom, que))

/-- `BFS`. Every vertex enters the queue at most once, so the loop needs no more iterations than
there are vertices. -/
def bfs (lengthFrom : List ℤ) (start : Vertex) : List ℤ :=
  (g.bfsLoop g.numberOfVertices (lengthFrom.set (g.vertexId start) 0, [start])).1

end Grid

/-! ## Instances -/

/-- `_MAPFSAT_Instance`. -/
structure Instance extends Grid where
  agents : List Agent
  lengthFromStart : List (List ℤ)
  lengthFromGoal : List (List ℤ)
  spLengths : List ℤ
  avoidLocations : List Avoid
  mksLBs : List ℤ
  socLBs : List ℤ
  lastNumberOfAgents : ℕ

namespace Instance

/-- The constructors: `LoadAgentsData` (or `LoadAgents`) and the map. -/
def load (input : MapInput) (starts goals : List Vertex) : Instance :=
  let agents := List.zipWith Agent.mk starts goals
  { input.load with
    agents := agents
    lengthFromStart := List.replicate agents.length []
    lengthFromGoal := List.replicate agents.length []
    spLengths := List.replicate agents.length 0
    avoidLocations := []
    mksLBs := 0 :: List.replicate agents.length (-1)
    socLBs := 0 :: List.replicate agents.length (-1)
    lastNumberOfAgents := 0 }

variable (inst : Instance)

def agent (a : ℕ) : Agent := inst.agents.getD a default

/-- `map[agents[a].start.x][agents[a].start.y]`. -/
def startOf (a : ℕ) : ℕ := inst.vertexId (inst.agent a).start

/-- `map[agents[a].goal.x][agents[a].goal.y]`. -/
def goalOf (a : ℕ) : ℕ := inst.vertexId (inst.agent a).goal

/-- `GetMksLB`. -/
def getMksLB (ags : ℕ) : ℤ := if 0 ≤ inst.mksLBs.getD ags (-1) then inst.mksLBs.getD ags (-1) else -1

/-- `GetSocLB`. -/
def getSocLB (ags : ℕ) : ℤ := if 0 ≤ inst.socLBs.getD ags (-1) then inst.socLBs.getD ags (-1) else -1

/-- The body of the loop of `SetAgents`. -/
def setAgent (i : ℕ) : Instance :=
  let fromStart := inst.bfs (List.replicate inst.numberOfVertices (-1)) (inst.agent i).start
  let fromGoal := inst.bfs (List.replicate inst.numberOfVertices (-1)) (inst.agent i).goal
  let spLength := fromStart.getD (inst.goalOf i) 0
  { inst with
    lengthFromStart := inst.lengthFromStart.set i fromStart
    lengthFromGoal := inst.lengthFromGoal.set i fromGoal
    spLengths := inst.spLengths.set i spLength
    mksLBs := inst.mksLBs.set (i + 1) (max (inst.mksLBs.getD i 0) (spLength + 1))
    socLBs := inst.socLBs.set (i + 1) (inst.socLBs.getD i 0 + spLength + 1) }

/-- `SetAgents`. -/
def setAgents (ags : ℕ) : Instance :=
  { (List.Ico inst.lastNumberOfAgents ags).foldl setAgent inst with lastNumberOfAgents := ags }

/-- `LoadAvoidData`, which returns at once if the list is empty. -/
def loadAvoidData (avoid : List Avoid) : Instance :=
  if avoid = [] then inst else { inst with avoidLocations := avoid }

/-- `FirstTimestep`. -/
def firstTimestep (agent vertex : ℕ) : ℤ := (inst.lengthFromStart.getD agent []).getD vertex (-1)

/-- `length_from_goal[agent][vertex]`. -/
def toGoal (agent vertex : ℕ) : ℤ := (inst.lengthFromGoal.getD agent []).getD vertex (-1)

def spLength (agent : ℕ) : ℤ := inst.spLengths.getD agent 0

/-- `LastTimestep`. -/
def lastTimestep (agent vertex : ℕ) (timelimit : ℤ) (delta : ℕ) : CostFunction → ℤ
  | .mks => timelimit - inst.toGoal agent vertex - 1
  | .soc => inst.spLength agent + delta - inst.toGoal agent vertex

end Instance

end MAPFEncodings

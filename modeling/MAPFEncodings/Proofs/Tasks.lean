import MAPFEncodings.PathFinding.Plan
import MAPFEncodings.Proofs.Requests

/-! # The path finding problem of a task

A prepared instance with its agents is a problem on the grid graph. The lower bounds, the number of
timesteps and the deadlines of an encoder are stated in terms of this problem, so that the meaning
of the formula can be compared with the plans of the problem.
-/

namespace MAPFEncodings

open Cnf PathFinding

/-- What a kind of movement forbids besides sharing a vertex. -/
def Movement.Free {A V : Type*} (P : Problem A V) (pos : A → ℕ → V) : Movement → Prop
  | .parallel => P.SwapFree pos
  | .pebble => P.FollowFree pos

namespace Task

variable (task : Task)

/-- Walks on free cells from the starts to the goals of the agents. -/
def problem : Problem ℕ ℕ where
  agents := Finset.range task.ags
  adj := task.inst.Adj
  start := task.inst.startOf
  goal := task.inst.goalOf

/-- A plan without conflicts. -/
structure Valid (movement : Movement) (pos : ℕ → ℕ → ℕ) : Prop where
  walks : task.problem.Walks pos
  vertexFree : task.problem.VertexFree pos
  movementFree : movement.Free task.problem pos

variable {task} in
/-- Validity is about the agents of the task only. -/
theorem Valid.congr {movement : Movement} {pos pos' : ℕ → ℕ → ℕ} (valid : task.Valid movement pos)
    (same : ∀ a < task.ags, ∀ t, pos a t = pos' a t) : task.Valid movement pos' := by
  have same' (a : ℕ) (member : a ∈ task.problem.agents) (t : ℕ) : pos a t = pos' a t :=
    same a (Finset.mem_range.mp member) t
  refine ⟨⟨fun a member => ?_, fun a member t => ?_, fun a member => ?_⟩,
    fun a memA b memB distinct t => ?_, ?_⟩
  · rw [← same' a member]
    exact valid.walks.starts a member
  · rw [← same' a member, ← same' a member]
    exact valid.walks.moves a member t
  · obtain ⟨T, parked⟩ := valid.walks.parks a member
    exact ⟨T, fun t late => same' a member t ▸ parked t late⟩
  · rw [← same' a memA, ← same' b memB]
    exact valid.vertexFree a memA b memB distinct t
  · have free := valid.movementFree
    cases movement <;>
    · intro a memA b memB distinct t
      simp only [← same' a memA, ← same' b memB]
      exact free a memA b memB distinct t

variable {task} in
/-- Neither kind of movement allows agents to exchange their vertices. -/
theorem Valid.swapFree {movement : Movement} {pos : ℕ → ℕ → ℕ} (valid : task.Valid movement pos) :
    task.problem.SwapFree pos := by
  cases movement with
  | parallel => exact valid.movementFree
  | pebble => exact Problem.FollowFree.swapFree valid.movementFree

/-- The cost of a plan which an encoding minimizes. -/
noncomputable def cost (pos : ℕ → ℕ → ℕ) : CostFunction → ℕ
  | .mks => task.problem.makespan pos
  | .soc => task.problem.sumOfCosts pos

/-- The bound of the cost from which the search starts. -/
def lowerBound : CostFunction → ℤ
  | .mks => task.inst.getMksLB task.ags
  | .soc => task.inst.getSocLB task.ags

/-! ## Lower bounds -/

variable {task}

variable (task) in
/-- The request to solve the task. -/
def request : Request := ⟨task.toScenario, task.ags, task.covered⟩

theorem start_lt {a : ℕ} (bound : a < task.ags) : task.inst.startOf a < task.inst.numberOfVertices :=
  @Request.start_lt task.request _ bound

theorem goal_lt {a : ℕ} (bound : a < task.ags) : task.inst.goalOf a < task.inst.numberOfVertices :=
  @Request.goal_lt task.request _ bound

theorem fromStart {a : ℕ} (bound : a < task.ags) :
    Distance.IsDistance task.inst.Adj (task.inst.startOf a) (task.inst.firstTimestep a) :=
  @Request.fromStart task.request _ bound

theorem toGoal {a : ℕ} (bound : a < task.ags) :
    Distance.IsDistance task.inst.Adj (task.inst.goalOf a) (task.inst.toGoal a) :=
  @Request.toGoal task.request _ bound

theorem goal_known {a : ℕ} (bound : a < task.ags) :
    0 ≤ task.inst.firstTimestep a (task.inst.goalOf a) :=
  (fromStart bound).nonneg_iff.mpr (task.reachable a bound)

theorem spLength_eq {a : ℕ} (bound : a < task.ags) :
    task.inst.spLength a = task.inst.firstTimestep a (task.inst.goalOf a) :=
  task.toScenario.spLength_eq (bound.trans_le task.covered)

/-- The stored length of a shortest path is the distance of the goal. -/
theorem shortest_eq {a : ℕ} (bound : a < task.ags) :
    task.inst.shortest a = task.inst.firstTimestep a (task.inst.goalOf a) := by
  rw [← spLength_eq bound, task.tabulated.spLength a (bound.trans_le task.covered)]

theorem getMksLB_eq : task.inst.getMksLB task.ags = task.inst.mksBound task.ags :=
  @Request.getMksLB_eq task.request

theorem socBound_nonneg : 0 ≤ task.inst.socBound task.ags := by
  rw [Instance.socBound_eq_sum]
  refine Finset.sum_nonneg fun a memA => ?_
  have bound := Finset.mem_range.mp memA
  rw [shortest_eq bound]
  have := goal_known bound
  omega

theorem getSocLB_eq : task.inst.getSocLB task.ags =
    ∑ a ∈ Finset.range task.ags, (task.inst.firstTimestep a (task.inst.goalOf a) + 1) := by
  rw [Instance.getSocLB, task.tabulated.soc _ task.covered, if_pos socBound_nonneg,
    Instance.socBound_eq_sum]
  exact Finset.sum_congr rfl fun a memA => by rw [shortest_eq (Finset.mem_range.mp memA)]

theorem getMksLB_nonneg (task : Task) : 0 ≤ task.inst.getMksLB task.ags :=
  task.request.getMksLB_nonneg

theorem lt_getMksLB {a : ℕ} (bound : a < task.ags) :
    task.inst.firstTimestep a (task.inst.goalOf a) < task.inst.getMksLB task.ags :=
  @Request.lt_getMksLB task.request _ bound

/-- The time which an agent spends beyond its distance. -/
noncomputable def excess (task : Task) (pos : ℕ → ℕ → ℕ) (a : ℕ) : ℤ :=
  task.problem.arrival pos a - task.inst.firstTimestep a (task.inst.goalOf a)

theorem excess_nonneg {pos : ℕ → ℕ → ℕ} (walks : task.problem.Walks pos) {a : ℕ}
    (bound : a < task.ags) : 0 ≤ task.excess pos a :=
  sub_nonneg.mpr (walks.distance_le_arrival (Finset.mem_range.mpr bound) (fromStart bound))

/-- The sum of costs exceeds its lower bound by the agents' excess. -/
theorem sum_excess (pos : ℕ → ℕ → ℕ) : ∑ a ∈ Finset.range task.ags, task.excess pos a =
    task.cost pos .soc - task.lowerBound .soc := by
  change _ = (task.problem.sumOfCosts pos : ℤ) - task.inst.getSocLB task.ags
  rw [getSocLB_eq, Problem.sumOfCosts, Nat.cast_sum]
  change _ = ∑ a ∈ Finset.range task.ags, _ - _
  rw [← Finset.sum_sub_distrib]
  refine Finset.sum_congr rfl fun a _ => ?_
  rw [excess]
  push_cast
  ring

theorem excess_le {pos : ℕ → ℕ → ℕ} (walks : task.problem.Walks pos) {n : ℕ}
    (cheap : (task.cost pos .soc : ℤ) ≤ task.lowerBound .soc + n) {a : ℕ} (bound : a < task.ags) :
    task.excess pos a ≤ n := by
  have single := Finset.single_le_sum (f := task.excess pos)
    (fun b memB => excess_nonneg walks (Finset.mem_range.mp memB)) (Finset.mem_range.mpr bound)
  have sum := task.sum_excess pos
  omega

/-- No plan is cheaper than the bound. -/
theorem lowerBound_le {pos : ℕ → ℕ → ℕ} (walks : task.problem.Walks pos) (costFunction : CostFunction) :
    task.lowerBound costFunction ≤ task.cost pos costFunction := by
  have late (a : ℕ) (bound : a < task.ags) :
      task.inst.firstTimestep a (task.inst.goalOf a) ≤ task.problem.arrival pos a :=
    walks.distance_le_arrival (Finset.mem_range.mpr bound) (fromStart bound)
  cases costFunction with
  | mks =>
    change task.inst.getMksLB task.ags ≤ (task.problem.makespan pos : ℤ)
    rw [getMksLB_eq]
    refine Instance.mksBound_le (by positivity) fun a bound => ?_
    have le := Problem.makespan_le_iff.mp (le_refl (task.problem.makespan pos)) a
      (Finset.mem_range.mpr bound)
    have := late a bound
    rw [shortest_eq bound]
    omega
  | soc =>
    have sum := task.sum_excess pos
    have := Finset.sum_nonneg fun a memA => excess_nonneg walks (Finset.mem_range.mp memA)
    omega

/-! ## Deadlines -/

/-- An encoder whose members come from the task. -/
structure Poses (task : Task) (e : Encoder) : Prop where
  inst : e.inst = task.inst
  agents : e.agents = task.ags
  vertices : e.vertices = task.inst.numberOfVertices

theorem Poses.request {e : Encoder} (poses : task.Poses e) : task.request.Poses e where
  inst := by
    have empty := task.avoidLocations_inst
    rw [poses.inst]
    exact congrArg (fun avoid => { task.inst with avoidLocations := avoid }) empty.symm
  agents := poses.agents
  vertices := poses.vertices

end Task

/-- The last timestep at which an agent is represented. -/
def Encoder.deadline (e : Encoder) (a : ℕ) : ℕ :=
  match e.config.costFunction with
  | .mks => (e.timesteps - 1).toNat
  | .soc => (e.inst.spLength a + e.delta).toNat

namespace Task.Poses

variable {task : Task} {e : Encoder} (poses : task.Poses e)
include poses

theorem timesteps_eq : e.timesteps = task.inst.getMksLB task.ags + e.delta := by
  rw [Encoder.timesteps, poses.inst, poses.agents]

theorem noAvoid : e.inst.avoidLocations = [] := by
  rw [poses.inst]
  exact task.avoidLocations_inst

theorem lt_ags {a : ℕ} (bound : a < e.agents) : a < task.ags := poses.agents ▸ bound

theorem deadline_mks (mks : e.config.costFunction = .mks) {a : ℕ} (bound : a < e.agents) :
    (e.deadline a : ℤ) = e.timesteps - 1 := by
  have := lt_getMksLB (poses.lt_ags bound)
  have := goal_known (poses.lt_ags bound)
  have := poses.timesteps_eq
  simp only [Encoder.deadline, mks]
  omega

theorem deadline_soc (soc : e.config.costFunction = .soc) {a : ℕ} (bound : a < e.agents) :
    (e.deadline a : ℤ) = e.inst.firstTimestep a (e.inst.goalOf a) + e.delta := by
  have known := goal_known (poses.lt_ags bound)
  simp only [Encoder.deadline, soc]
  rw [poses.inst, spLength_eq (poses.lt_ags bound)]
  omega

theorem budget (soc : e.config.costFunction = .soc) : e.Budget e.deadline :=
  fun _ bound => poses.deadline_soc soc bound

theorem deadline_bounds {a : ℕ} (bound : a < e.agents) :
    e.inst.firstTimestep a (e.inst.goalOf a) ≤ e.deadline a ∧ (e.deadline a : ℤ) < e.timesteps := by
  have shorter := lt_getMksLB (poses.lt_ags bound)
  have steps := poses.timesteps_eq
  rw [← poses.inst] at shorter steps
  cases kind : e.config.costFunction with
  | mks =>
    have := poses.deadline_mks kind bound
    omega
  | soc =>
    have := poses.deadline_soc kind bound
    omega

/-- The windows of the tables are the windows of the agents' deadlines. -/
theorem setting (steps : e.maxTimestep = e.timesteps) : e.Setting e.deadline where
  numbered := by
    rw [poses.inst]
    exact task.numbered
  vertices := by rw [poses.vertices, poses.inst]
  startCell a bound := by
    rw [poses.vertices, poses.inst]
    exact start_lt (poses.lt_ags bound)
  goalCell a bound := by
    rw [poses.vertices, poses.inst]
    exact goal_lt (poses.lt_ags bound)
  deadline a bound := by
    have fits := (poses.deadline_bounds bound).1
    rw [poses.inst] at fits ⊢
    exact
      { symm := fun _ _ edge => edge.symm
        fromStart := fromStart (poses.lt_ags bound)
        toGoal := toGoal (poses.lt_ags bound)
        reachable := goal_known (poses.lt_ags bound)
        fits := fits }
  last a bound v := by
    cases kind : e.config.costFunction with
    | mks =>
      rw [poses.deadline_mks kind bound, Encoder.lastTimestep, kind, steps]
      simp only [Instance.lastTimestep]
      omega
    | soc =>
      rw [poses.deadline_soc kind bound, Encoder.lastTimestep, kind]
      simp only [Instance.lastTimestep]
      rw [poses.inst, spLength_eq (poses.lt_ags bound)]
  fits a bound := by
    rw [steps]
    exact (poses.deadline_bounds bound).2

/-- Walks which end by the deadlines and, for the sum of costs, are late within the budget. -/
theorem cost_le {pos : ℕ → ℕ → ℕ} (late : ℕ → ℕ)
    (parks : ∀ a < e.agents, ∀ t, e.deadline a ≤ t → pos a t = e.inst.goalOf a)
    (arrives : e.config.costFunction = .soc → ∀ a < e.agents, (task.problem.arrival pos a : ℤ) ≤
      e.inst.firstTimestep a (e.inst.goalOf a) + late a)
    (bounded : e.config.costFunction = .soc → ∑ a ∈ Finset.range e.agents, late a ≤ e.delta) :
    (task.cost pos e.config.costFunction : ℤ) ≤
      task.lowerBound e.config.costFunction + e.delta := by
  have bound {a : ℕ} (member : a ∈ task.problem.agents) : a < e.agents :=
    poses.agents ▸ Finset.mem_range.mp member
  cases kind : e.config.costFunction with
  | mks =>
    have nonneg := task.getMksLB_nonneg
    have steps := poses.timesteps_eq
    obtain ⟨n, same⟩ : ∃ n : ℕ, (n : ℤ) = e.timesteps := ⟨e.timesteps.toNat, by omega⟩
    change (task.problem.makespan pos : ℤ) ≤ task.inst.getMksLB task.ags + e.delta
    rw [← steps, ← same, Int.ofNat_le, Problem.makespan_le_iff]
    intro a member
    have parked : task.problem.arrival pos a ≤ e.deadline a := Problem.arrival_le fun t after => by
      rw [parks a (bound member) t after, poses.inst]
      rfl
    have last := poses.deadline_mks kind (bound member)
    omega
  | soc =>
    change (task.problem.sumOfCosts pos : ℤ) ≤ task.inst.getSocLB task.ags + e.delta
    rw [Task.getSocLB_eq, Problem.sumOfCosts]
    have total := bounded kind
    rw [poses.agents] at total
    calc ((∑ a ∈ Finset.range task.ags, (task.problem.arrival pos a + 1) : ℕ) : ℤ)
        ≤ ∑ a ∈ Finset.range task.ags,
            ((task.inst.firstTimestep a (task.inst.goalOf a) + 1) + (late a : ℤ)) := by
          rw [Nat.cast_sum]
          refine Finset.sum_le_sum fun a member => ?_
          have arrived := arrives kind a (bound member)
          rw [poses.inst] at arrived
          push_cast
          omega
      _ ≤ ∑ a ∈ Finset.range task.ags, (task.inst.firstTimestep a (task.inst.goalOf a) + 1) +
            e.delta := by
          rw [Finset.sum_add_distrib]
          have := Int.ofNat_le.mpr total
          push_cast at this
          omega

/-- Delays of the agents of a cheap plan are within the budget. -/
theorem sum_le {pos : ℕ → ℕ → ℕ} (late : ℕ → ℕ)
    (cheap : (task.cost pos .soc : ℤ) ≤ task.lowerBound .soc + e.delta)
    (each : ∀ a < e.agents, (late a : ℤ) ≤
      task.problem.arrival pos a - e.inst.firstTimestep a (e.inst.goalOf a)) :
    ∑ a ∈ Finset.range e.agents, late a ≤ e.delta := by
  have sum := task.sum_excess pos
  have total : ((∑ a ∈ Finset.range e.agents, late a : ℕ) : ℤ) ≤
      ∑ a ∈ Finset.range task.ags, task.excess pos a := by
    rw [Nat.cast_sum, poses.agents]
    refine Finset.sum_le_sum fun a member => ?_
    have bound := each a (poses.agents ▸ Finset.mem_range.mp member)
    rw [poses.inst] at bound
    exact bound
  omega

end Task.Poses

/-! ## Small tasks -/

/-- Two agents move east in the two rows of a free square. -/
def Scenario.rows : Scenario where
  input := .data [[1, 1], [1, 1]]
  starts := [⟨0, 0⟩, ⟨1, 0⟩]
  goals := [⟨0, 1⟩, ⟨1, 1⟩]
  complete := by decide
  paired := by decide
  startsFree := by decide
  goalsFree := by decide
  calls := [2]
  callsFit := by decide

def Task.rows : Task where
  toScenario := .rows
  ags := 2
  covered := by decide
  reachable := by
    have east (v u : ℕ) (cell : v < 4) (next : Scenario.rows.inst.getNeighbor v .east = some u) :
        Relation.ReflTransGen Scenario.rows.inst.Adj v u :=
      .single ((Scenario.rows.numbered.adj_iff cell).mpr ⟨.east, by decide, next⟩)
    intro a bound
    match a, bound with
    | 0, _ => exact east 0 1 (by decide) (by decide)
    | 1, _ => exact east 2 3 (by decide) (by decide)

/-- The same agents, with a smaller number asked for in between. -/
def Scenario.recounted : Scenario where
  input := .data [[1, 1], [1, 1]]
  starts := [⟨0, 0⟩, ⟨1, 0⟩]
  goals := [⟨0, 1⟩, ⟨1, 1⟩]
  complete := by decide
  paired := by decide
  startsFree := by decide
  goalsFree := by decide
  calls := [2, 0, 1]
  callsFit := by decide

/-- One agent which is already at its goal, and a cell behind an obstacle. -/
def Scenario.island : Scenario where
  input := .data [[1, -1, 1]]
  starts := [⟨0, 0⟩]
  goals := [⟨0, 0⟩]
  complete := by decide
  paired := by decide
  startsFree := by decide
  goalsFree := by decide
  calls := [1]
  callsFit := by decide

def Task.island : Task where
  toScenario := .island
  ags := 1
  covered := by decide
  reachable := by
    intro a bound
    obtain rfl : a = 0 := by omega
    exact (show Scenario.island.inst.startOf 0 = Scenario.island.inst.goalOf 0 by decide) ▸ .refl

/-- One agent which stays on the only cell. -/
def Scenario.cell : Scenario where
  input := .data [[1]]
  starts := [⟨0, 0⟩]
  goals := [⟨0, 0⟩]
  complete := by decide
  paired := by decide
  startsFree := by decide
  goalsFree := by decide
  calls := [1]
  callsFit := by decide

def Task.cell : Task where
  toScenario := .cell
  ags := 1
  covered := by decide
  reachable := by
    intro a bound
    obtain rfl : a = 0 := by omega
    exact (show Scenario.cell.inst.startOf 0 = Scenario.cell.inst.goalOf 0 by decide) ▸ .refl

/-- One agent which crosses three cells in a row. -/
def Scenario.corridor : Scenario where
  input := .data [[1, 1, 1]]
  starts := [⟨0, 0⟩]
  goals := [⟨0, 2⟩]
  complete := by decide
  paired := by decide
  startsFree := by decide
  goalsFree := by decide
  calls := [1]
  callsFit := by decide

def Task.corridor : Task where
  toScenario := .corridor
  ags := 1
  covered := by decide
  reachable := by
    have east (v u : ℕ) (cell : v < 3) (next : Scenario.corridor.inst.getNeighbor v .east = some u) :
        Relation.ReflTransGen Scenario.corridor.inst.Adj v u :=
      .single ((Scenario.corridor.numbered.adj_iff cell).mpr ⟨.east, by decide, next⟩)
    intro a bound
    obtain rfl : a = 0 := by omega
    exact (east 0 1 (by decide) (by decide)).trans (east 1 2 (by decide) (by decide))

/-- Two agents which would have to pass through each other. -/
def Scenario.swapping : Scenario where
  input := .data [[1, 1]]
  starts := [⟨0, 0⟩, ⟨0, 1⟩]
  goals := [⟨0, 1⟩, ⟨0, 0⟩]
  complete := by decide
  paired := by decide
  startsFree := by decide
  goalsFree := by decide
  calls := [2]
  callsFit := by decide

def Task.swapping : Task where
  toScenario := .swapping
  ags := 2
  covered := by decide
  reachable := by
    have edge (v u : ℕ) (cell : v < 2) (dir : Dir) (moves : dir ≠ .wait)
        (next : Scenario.swapping.inst.getNeighbor v dir = some u) :
        Relation.ReflTransGen Scenario.swapping.inst.Adj v u :=
      .single ((Scenario.swapping.numbered.adj_iff cell).mpr ⟨dir, moves, next⟩)
    intro a bound
    match a, bound with
    | 0, _ => exact edge 0 1 (by decide) .east (by decide) (by decide)
    | 1, _ => exact edge 1 0 (by decide) .west (by decide) (by decide)

/-- One agent whose goal is cut off from its start. -/
def Scenario.severed : Scenario where
  input := .data [[1, -1, 1]]
  starts := [⟨0, 0⟩]
  goals := [⟨0, 2⟩]
  complete := by decide
  paired := by decide
  startsFree := by decide
  goalsFree := by decide
  calls := [1]
  callsFit := by decide

def Request.severed : Request := ⟨.severed, 1, by decide⟩

/-- An agent whose goal is walled off starts at the goal of another one. -/
def Scenario.walled : Scenario where
  input := .data [[1, 1, -1], [-1, -1, -1], [1, -1, -1]]
  starts := [⟨0, 0⟩, ⟨0, 1⟩]
  goals := [⟨2, 0⟩, ⟨0, 0⟩]
  complete := by decide
  paired := by decide
  startsFree := by decide
  goalsFree := by decide
  calls := [2]
  callsFit := by decide

def Request.walled : Request := ⟨.walled, 2, by decide⟩

/-- One agent which takes a step to the west. -/
def Scenario.westward : Scenario where
  input := .data [[1, 1]]
  starts := [⟨0, 1⟩]
  goals := [⟨0, 0⟩]
  complete := by decide
  paired := by decide
  startsFree := by decide
  goalsFree := by decide
  calls := [1]
  callsFit := by decide

def Request.westward : Request := ⟨.westward, 1, by decide⟩

/-- An agent whose goal is cut off and one which rests at its goal. -/
def Scenario.resting : Scenario where
  input := .data [[1, 1, -1, 1]]
  starts := [⟨0, 1⟩, ⟨0, 0⟩]
  goals := [⟨0, 3⟩, ⟨0, 0⟩]
  complete := by decide
  paired := by decide
  startsFree := by decide
  goalsFree := by decide
  calls := [2]
  callsFit := by decide

def Request.resting : Request := ⟨.resting, 2, by decide⟩

/-- The members of a solver for a task before variables are created. -/
def Task.encoder (task : Task) (config : Config) (delta : ℕ) : Encoder where
  inst := task.inst
  config := config
  agents := task.ags
  vertices := task.inst.numberOfVertices
  delta := delta
  maxTimestep := 0
  atTable := []
  passTable := []
  shiftTable := []
  shiftTimesStart := []
  shiftTimesEnd := []

theorem Task.encoder_poses (task : Task) (config : Config) (delta : ℕ) :
    task.Poses (task.encoder config delta) := ⟨rfl, rfl, rfl⟩

/-- The same for a request. -/
def Request.encoder (req : Request) (config : Config) (delta : ℕ) : Encoder where
  inst := req.inst
  config := config
  agents := req.ags
  vertices := req.inst.numberOfVertices
  delta := delta
  maxTimestep := 0
  atTable := []
  passTable := []
  shiftTable := []
  shiftTimesStart := []
  shiftTimesEnd := []

theorem Request.encoder_poses (req : Request) (config : Config) (delta : ℕ) :
    req.Poses (req.encoder config delta) where
  inst := congrArg (fun avoid => { req.inst with avoidLocations := avoid })
    req.avoidLocations_inst.symm
  agents := rfl
  vertices := rfl

/-- Externals which meet their contract. -/
def Externals.binomial : Externals := ⟨binomialAtMost, fun _ _ _ => default⟩

/-- A solver's members for the small task before the variables are created. -/
def Encoder.rows (config : Config) (delta : ℕ) : Encoder where
  inst := Scenario.rows.inst
  config := config
  agents := 2
  vertices := 4
  delta := delta
  maxTimestep := 0
  atTable := []
  passTable := []
  shiftTable := []
  shiftTimesStart := []
  shiftTimesEnd := []

/-- The first formula of a call of `Solve` for the small task. -/
def Formula.rows (config : Config) (delta : ℕ) : Formula :=
  (Encoder.rows config delta).createFormula .binomial true false 1 ⟨[], [], []⟩

/-- Both agents move at once and stay. -/
def Task.rowsPlan (a t : ℕ) : ℕ := if t = 0 then 2 * a else 2 * a + 1

theorem Task.rows_valid : Task.rows.Valid .pebble Task.rowsPlan where
  walks := by
    have starts : ∀ a < 2, 2 * a = Task.rows.inst.startOf a := by decide
    have goals : ∀ a < 2, 2 * a + 1 = Task.rows.inst.goalOf a := by decide
    have step : ∀ a < 2, ∃ dir, dir ≠ .wait ∧
        Task.rows.inst.getNeighbor (2 * a) dir = some (2 * a + 1) := by
      intro a bound
      exact ⟨.east, by decide, by revert a bound; decide⟩
    refine ⟨fun a memA => starts a (Finset.mem_range.mp memA), fun a memA t => ?_, fun a memA =>
      ⟨1, fun t late => ?_⟩⟩
    · rcases t with - | t
      · refine .inr ((Task.rows.numbered.adj_iff ?_).mpr (step a (Finset.mem_range.mp memA)))
        rw [show rowsPlan a 0 = _ from starts a (Finset.mem_range.mp memA)]
        exact start_lt (Finset.mem_range.mp memA)
      · exact .inl rfl
    · rw [rowsPlan, if_neg (by omega)]
      exact goals a (Finset.mem_range.mp memA)
  vertexFree a _ b _ distinct t := by
    unfold rowsPlan
    split <;> omega
  movementFree a _ b _ distinct t := by
    unfold rowsPlan
    rw [if_neg (by omega)]
    split <;> omega

theorem Task.rows_cost : Task.rows.cost Task.rowsPlan .mks ≤ 2 := by
  refine Problem.makespan_le_iff.mpr fun a memA => Nat.succ_le_succ (Problem.arrival_le ?_)
  intro t late
  rw [rowsPlan, if_neg (by omega)]
  exact (show ∀ a < 2, 2 * a + 1 = Task.rows.inst.goalOf a by decide) a (Finset.mem_range.mp memA)

theorem Task.rows_poses (config : Config) (delta : ℕ) : Task.rows.Poses (.rows config delta) :=
  ⟨rfl, rfl, show 4 = Scenario.rows.inst.numberOfVertices by decide⟩

end MAPFEncodings

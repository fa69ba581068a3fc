import MAPFEncodings.Model.Formula
import MAPFEncodings.Proofs.CostClauses
import MAPFEncodings.Proofs.Distances

/-! # Requests: agents whose goals need not be reachable

What the tables of a prepared instance guarantee for its first agents, whether or not their goals
can be reached and whatever locations are to be avoided. An unreachable goal has the distance `-1`,
and so has its agent's start in the table of the goal.
-/

namespace MAPFEncodings

/-- Agents of a prepared instance which are to be solved. -/
structure Request extends Scenario where
  ags : ℕ
  covered : ags ≤ toScenario.prepared

namespace Request

variable {req : Request}

theorem lt_prepared {a : ℕ} (bound : a < req.ags) : a < req.prepared := bound.trans_le req.covered

theorem start_lt {a : ℕ} (bound : a < req.ags) : req.inst.startOf a < req.inst.numberOfVertices :=
  req.numbered.lt_of_mapAt (req.start_free (lt_prepared bound))

theorem goal_lt {a : ℕ} (bound : a < req.ags) : req.inst.goalOf a < req.inst.numberOfVertices :=
  req.numbered.lt_of_mapAt (req.goal_free (lt_prepared bound))

theorem fromStart {a : ℕ} (bound : a < req.ags) :
    Distance.IsDistance req.inst.Adj (req.inst.startOf a) (req.inst.firstTimestep a) :=
  req.firstTimestep_isDistance (lt_prepared bound)

theorem toGoal {a : ℕ} (bound : a < req.ags) :
    Distance.IsDistance req.inst.Adj (req.inst.goalOf a) (req.inst.toGoal a) :=
  req.toGoal_isDistance (lt_prepared bound)

theorem symm (v u : ℕ) (edge : req.inst.Adj v u) : req.inst.Adj u v := edge.symm

/-- The distance of the goal from the start is the one of the start from the goal. -/
theorem toGoal_start {a : ℕ} (bound : a < req.ags) :
    req.inst.toGoal a (req.inst.startOf a) = req.inst.firstTimestep a (req.inst.goalOf a) := by
  by_cases known : 0 ≤ req.inst.firstTimestep a (req.inst.goalOf a)
  · exact Distance.swap_endpoints symm (fromStart bound) (toGoal bound) known
  · have unknown : ¬0 ≤ req.inst.toGoal a (req.inst.startOf a) := fun back =>
      known ((fromStart bound).nonneg_iff.mpr
        (Distance.reachable_symm symm ((toGoal bound).nonneg_iff.mp back)))
    rw [(fromStart bound).eq_neg_one known, (toGoal bound).eq_neg_one unknown]

theorem getMksLB_eq : req.inst.getMksLB req.ags = req.inst.mksBound req.ags := by
  rw [Instance.getMksLB, req.tabulated.mks _ req.covered, if_pos (Instance.mksBound_nonneg _ _)]

variable (req) in
theorem getMksLB_nonneg : 0 ≤ req.inst.getMksLB req.ags := by
  rw [getMksLB_eq]
  exact Instance.mksBound_nonneg _ _

theorem lt_getMksLB {a : ℕ} (bound : a < req.ags) :
    req.inst.firstTimestep a (req.inst.goalOf a) < req.inst.getMksLB req.ags := by
  rw [getMksLB_eq, ← req.spLength_eq (lt_prepared bound),
    req.tabulated.spLength a (lt_prepared bound)]
  exact Int.lt_of_add_one_le (req.inst.shortest_le_mksBound bound)

/-- An encoder whose members come from the request, with any locations to be avoided. -/
structure Poses (req : Request) (e : Encoder) : Prop where
  inst : { e.inst with avoidLocations := [] } = req.inst
  agents : e.agents = req.ags
  vertices : e.vertices = req.inst.numberOfVertices

end Request

/-- The window of a vertex ends before the one of the goal by its distance to the goal. -/
theorem Instance.lastTimestep_eq {inst : Instance} {a : ℕ} (home : inst.toGoal a (inst.goalOf a) = 0)
    (v : ℕ) (timelimit : ℤ) (delta : ℕ) (costFunction : CostFunction) :
    inst.lastTimestep a v timelimit delta costFunction =
      inst.lastTimestep a (inst.goalOf a) timelimit delta costFunction - inst.toGoal a v := by
  cases costFunction <;> simp only [lastTimestep, home] <;> omega

namespace Request.Poses

variable {req : Request} {e : Encoder} (poses : req.Poses e)
include poses

theorem lt_ags {a : ℕ} (bound : a < e.agents) : a < req.ags := poses.agents ▸ bound

theorem numbered : e.inst.Numbered := by
  have numbered := req.numbered
  rwa [← poses.inst] at numbered

theorem vertices_eq : e.vertices = e.inst.numberOfVertices := by
  rw [poses.vertices, ← poses.inst]

theorem start_lt {a : ℕ} (bound : a < e.agents) : e.inst.startOf a < e.vertices := by
  have lt := Request.start_lt (poses.lt_ags bound)
  rw [← poses.inst] at lt
  exact lt.trans_eq poses.vertices_eq.symm

theorem goal_lt {a : ℕ} (bound : a < e.agents) : e.inst.goalOf a < e.vertices := by
  have lt := Request.goal_lt (poses.lt_ags bound)
  rw [← poses.inst] at lt
  exact lt.trans_eq poses.vertices_eq.symm

theorem fromStart {a : ℕ} (bound : a < e.agents) :
    Distance.IsDistance e.inst.Adj (e.inst.startOf a) (e.inst.firstTimestep a) := by
  have dist := Request.fromStart (poses.lt_ags bound)
  rwa [← poses.inst] at dist

theorem toGoal {a : ℕ} (bound : a < e.agents) :
    Distance.IsDistance e.inst.Adj (e.inst.goalOf a) (e.inst.toGoal a) := by
  have dist := Request.toGoal (poses.lt_ags bound)
  rwa [← poses.inst] at dist

theorem toGoal_start {a : ℕ} (bound : a < e.agents) :
    e.inst.toGoal a (e.inst.startOf a) = e.inst.firstTimestep a (e.inst.goalOf a) := by
  have same := Request.toGoal_start (poses.lt_ags bound)
  rwa [← poses.inst] at same

theorem spLength_eq {a : ℕ} (bound : a < e.agents) :
    e.inst.spLength a = e.inst.firstTimestep a (e.inst.goalOf a) := by
  have same := req.spLength_eq (lt_prepared (poses.lt_ags bound))
  rwa [← poses.inst] at same

theorem timesteps_nonneg : (e.delta : ℤ) ≤ e.timesteps := by
  have nonneg := req.getMksLB_nonneg
  rw [← poses.inst, ← poses.agents] at nonneg
  exact Int.le_add_of_nonneg_left nonneg

theorem lt_timesteps {a : ℕ} (bound : a < e.agents) :
    e.inst.firstTimestep a (e.inst.goalOf a) + e.delta < e.timesteps := by
  have lt := Request.lt_getMksLB (poses.lt_ags bound)
  rw [← poses.inst, ← poses.agents] at lt
  exact Int.add_lt_add_right lt _

theorem lastTimestep_eq {a : ℕ} (bound : a < e.agents) (v : ℕ) :
    e.lastTimestep a v e.maxTimestep = e.goalTime a - e.inst.toGoal a v :=
  Instance.lastTimestep_eq (poses.toGoal bound).source_eq ..

theorem goalTime_mks (mks : e.config.costFunction = .mks) {a : ℕ} (bound : a < e.agents) :
    e.goalTime a = e.maxTimestep - 1 := by
  rw [Encoder.goalTime, Encoder.lastTimestep, mks, Instance.lastTimestep,
    (poses.toGoal bound).source_eq, sub_zero]

theorem goalTime_soc (soc : e.config.costFunction = .soc) {a : ℕ} (bound : a < e.agents) :
    e.goalTime a = e.inst.firstTimestep a (e.inst.goalOf a) + e.delta := by
  rw [Encoder.goalTime, Encoder.lastTimestep, soc, Instance.lastTimestep,
    (poses.toGoal bound).source_eq, sub_zero, poses.spLength_eq bound]

theorem goalTime_bounds (steps : e.maxTimestep = e.timesteps) {a : ℕ} (bound : a < e.agents) :
    e.inst.firstTimestep a (e.inst.goalOf a) ≤ e.goalTime a ∧ e.goalTime a < e.maxTimestep := by
  have lt := poses.lt_timesteps bound
  cases kind : e.config.costFunction with
  | mks =>
    rw [poses.goalTime_mks kind bound]
    omega
  | soc =>
    rw [poses.goalTime_soc kind bound]
    omega

theorem slack (soc : e.config.costFunction = .soc) : e.Slack :=
  fun _ bound => poses.goalTime_soc soc bound

/-- The windows of the tables fit together. -/
theorem windows (steps : e.maxTimestep = e.timesteps) : e.Windows where
  numbered := poses.numbered
  vertices := poses.vertices_eq
  startCell _ bound := poses.start_lt bound
  goalCell _ bound := poses.goal_lt bound
  near a bound v u step := by
    have symm : ∀ v u, e.inst.Adj v u → e.inst.Adj u v := fun _ _ edge => edge.symm
    have forth := (poses.fromStart bound).le_succ symm step
    have back := (poses.toGoal bound).le_succ symm (step.imp Eq.symm (symm v u))
    rw [poses.lastTimestep_eq bound, poses.lastTimestep_eq bound]
    omega
  starts a bound := by
    have reached := (poses.goalTime_bounds steps bound).1
    rw [poses.lastTimestep_eq bound, poses.toGoal_start bound]
    exact ⟨(poses.fromStart bound).source_eq, by omega⟩
  ends a bound := (poses.goalTime_bounds steps bound).1

end Request.Poses

end MAPFEncodings

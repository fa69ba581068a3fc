import MAPFEncodings.Soundness.Avoidance

/-! # Agents which cannot reach their goals

Nothing checks that goals are reachable: the marker `-1` takes part in the arithmetic of the time
windows. An agent whose goal is cut off has windows in its own component until one timestep after
the goal time, and a window for its goal, where no walk leads. So what the clauses ask for is weaker
than a plan: such an agent roams, and its goal is taken at the goal time. Every valuation of the
clauses shows joint walks of this kind.
-/

namespace MAPFEncodings

open Cnf PathFinding

namespace Encoder

/-! ## Roaming -/

section Definitions

variable (e : Encoder)

/-- The length of the goal keeps the marker `-1`. -/
def Unreached (a : ℕ) : Prop := e.inst.firstTimestep a (e.inst.goalOf a) < 0

instance (a : ℕ) : Decidable (e.Unreached a) := inferInstanceAs (Decidable (_ < _))

/-- `LastTimestep` of the goal, for the timesteps of the next formula. -/
def due (a : ℕ) : ℤ := e.lastTimestep a (e.inst.goalOf a) e.timesteps

/-- The last timestep of a walk. -/
def lastStep (a : ℕ) : ℤ := if e.Unreached a then e.due a + 1 else e.due a

variable (pos : ℕ → ℕ → ℕ)

/-- An agent stands on its walk, and at a goal which it cannot reach. -/
def Stands (a v : ℕ) (t : ℤ) : Prop :=
  (∃ n : ℕ, t = n ∧ t ≤ e.lastStep a ∧ pos a n = v) ∨
    (e.Unreached a ∧ t = e.due a ∧ v = e.inst.goalOf a)

/-- The steps of a walk. -/
def Steps (a v : ℕ) (dir : Dir) (t : ℤ) : Prop :=
  ∃ n : ℕ, t = n ∧ t < e.lastStep a ∧ pos a n = v ∧
    e.inst.getNeighbor v dir = some (pos a (n + 1))

/-- Joint walks which satisfy all clauses besides the ones for locations to be avoided. -/
structure Roams : Prop where
  starts : ∀ a < e.agents, pos a 0 = e.inst.startOf a
  walks : ∀ a < e.agents, ∀ n : ℕ, (n : ℤ) < e.lastStep a →
    ∃ dir, e.inst.getNeighbor (pos a n) dir = some (pos a (n + 1))
  arrives : ∀ a < e.agents, ¬e.Unreached a → ∀ n : ℕ, n = e.due a → pos a n = e.inst.goalOf a
  guarded : e.config.costFunction = .soc → ∀ a < e.agents, ∀ b < e.agents,
    ∀ t, e.due a < t → ¬e.Stands pos b (e.inst.goalOf a) t
  single : e.config.duplicates = .forbid → ∀ a < e.agents, e.Unreached a → e.due a < 0
  bounded : e.config.costFunction = .soc → 0 < e.delta →
    ∑ a ∈ Finset.range e.agents, delay (e.LateBy (e.Stands pos) a) e.delta ≤ e.delta
  /-- Agents at one vertex share its shift variables. -/
  together : e.config.variableKind = .shift → ∀ a < e.agents, ∀ b < e.agents, ∀ v dir dir' t,
    e.Steps pos a v dir t → e.Steps pos b v dir' t → dir = dir'
  vertex : e.config.lazyConst = .eager → ∀ a < e.agents, ∀ b < e.agents, a ≠ b →
    ∀ v < e.vertices, ∀ t, ¬(e.Stands pos a v t ∧ e.Stands pos b v t)
  moving : e.config.lazyConst = .eager → e.KeepsApart (e.Stands pos) (e.Steps pos)
    fun v dir t => ∃ a < e.agents, e.Steps pos a v dir t

/-- Nobody stands where `CreateConst_Avoid` looks up a location. -/
def Shuns : Prop := ∀ s ∈ e.inst.avoidLocations, s.t < e.timesteps →
  ∀ v, e.inst.mapAt ⟨s.v.y, s.v.x⟩ = some v → ∀ a < e.agents, ¬e.Stands pos a v s.t

/-- Where `CreateConst_Avoid` looks up a location and finds a variable, there is one for its time. -/
def LooksInside : Prop := ∀ s ∈ e.inst.avoidLocations, s.t < e.timesteps →
  ∀ v, e.inst.mapAt ⟨s.v.y, s.v.x⟩ = some v → ∀ a < e.agents,
    e.inst.firstTimestep a v ≤ e.lastTimestep a v e.timesteps →
      e.inst.firstTimestep a v ≤ s.t ∧ s.t ≤ e.lastTimestep a v e.timesteps

end Definitions

variable {e : Encoder} {σ : Valuation} {hi : ℤ} {req : Request} {pos : ℕ → ℕ → ℕ}

/-- Roaming is about the members which a request and its delta fix. -/
theorem Roams.congr {e' : Encoder} (roams : e.Roams pos) (alike : e.Alike e') : e'.Roams pos := by
  cases e
  cases e'
  obtain ⟨rfl, rfl, rfl, rfl, rfl⟩ := alike
  exact ⟨roams.starts, roams.walks, roams.arrives, roams.guarded, roams.single, roams.bounded,
    roams.together, roams.vertex, roams.moving⟩

theorem Shuns.congr {e' : Encoder} (shuns : e.Shuns pos) (alike : e.Alike e') : e'.Shuns pos := by
  cases e
  cases e'
  obtain ⟨rfl, rfl, rfl, rfl, rfl⟩ := alike
  exact shuns

theorem goalTime_eq_due (steps : e.maxTimestep = e.timesteps) (a : ℕ) : e.goalTime a = e.due a := by
  rw [goalTime, steps, due]

theorem lastStep_le (steps : e.maxTimestep = e.timesteps) (a : ℕ) :
    e.goalTime a ≤ e.lastStep a ∧ e.lastStep a ≤ e.goalTime a + 1 := by
  unfold lastStep
  rw [goalTime_eq_due steps]
  split <;> omega

/-- What keeps positions apart keeps fewer positions apart. -/
theorem KeepsApart.mono {at_ at' : ℕ → ℕ → ℤ → Prop} {pass pass' : ℕ → ℕ → Dir → ℤ → Prop}
    {shifts shifts' : ℕ → Dir → ℤ → Prop} (apart : e.KeepsApart at' pass' shifts')
    (windows : e.Windows)
    (less : ∀ a < e.agents, ∀ v < e.vertices, ∀ t, at_ a v t → at' a v t)
    (lessPass : e.config.variableKind = .pass → ∀ a < e.agents, ∀ v < e.vertices, ∀ dir t,
      pass a v dir t → pass' a v dir t)
    (lessShift : e.config.variableKind = .shift → ∀ v < e.vertices, ∀ dir t,
      shifts v dir t → shifts' v dir t) : e.KeepsApart at_ pass shifts := by
  revert apart
  unfold KeepsApart
  cases e.config.movement <;> cases kind : e.config.variableKind <;> dsimp only <;> intro apart
  · rintro a boundA b boundB distinct v cell dir u moves next t ⟨⟨tailA, headA⟩, tailB, headB⟩
    have cellU := windows.neighbor_lt cell next
    exact apart a boundA b boundB distinct v cell dir u moves next t
      ⟨⟨less a boundA v cell _ tailA, less a boundA u cellU _ headA⟩, less b boundB u cellU _ tailB,
        less b boundB v cell _ headB⟩
  · rintro a boundA b boundB distinct v cell dir u moves next t ⟨passA, passB⟩
    exact apart a boundA b boundB distinct v cell dir u moves next t
      ⟨lessPass kind a boundA v cell _ _ passA,
        lessPass kind b boundB u (windows.neighbor_lt cell next) _ _ passB⟩
  · rintro v cell dir u moves next t ⟨shift, shift'⟩
    exact apart v cell dir u moves next t ⟨lessShift kind v cell _ _ shift,
      lessShift kind u (windows.neighbor_lt cell next) _ _ shift'⟩
  · rintro a boundA b boundB distinct v cell t ⟨entered, occupied⟩
    exact apart a boundA b boundB distinct v cell t
      ⟨less a boundA v cell _ entered, less b boundB v cell _ occupied⟩
  · rintro a boundA b boundB distinct v cell dir u moves next t ⟨pass, occupied⟩
    exact apart a boundA b boundB distinct v cell dir u moves next t
      ⟨lessPass kind a boundA v cell _ _ pass,
        less b boundB u (windows.neighbor_lt cell next) _ occupied⟩
  · rintro v cell dir u next uDir moves t ⟨shift, shift'⟩
    exact apart v cell dir u next uDir moves t ⟨lessShift kind v cell _ _ shift,
      lessShift kind u (windows.neighbor_lt cell next) _ _ shift'⟩

/-! ## Windows -/

section Windows

variable (poses : req.Poses e) (steps : e.maxTimestep = e.timesteps) {a : ℕ}
  (bound : a < e.agents)
include poses steps bound

theorem lastStep_nonneg : 0 ≤ e.lastStep a := by
  have before := (poses.goalTime_bounds steps bound).1
  have least := (poses.fromStart bound).lower (e.inst.goalOf a)
  rw [goalTime_eq_due steps] at before
  unfold lastStep
  split
  · omega
  · next reached => exact (not_lt.mp reached).trans before

/-- The windows of an agent which can reach its goal end there. -/
theorem deadline_of_reached (reached : ¬e.Unreached a) : Deadline e.inst.Adj (e.inst.startOf a)
    (e.inst.goalOf a) (e.inst.firstTimestep a) (e.inst.toGoal a) (e.lastStep a).toNat where
  symm _ _ edge := edge.symm
  fromStart := poses.fromStart bound
  toGoal := poses.toGoal bound
  reachable := not_lt.mp reached
  fits := by
    rw [Int.toNat_of_nonneg (lastStep_nonneg poses steps bound), lastStep, if_neg reached,
      ← goalTime_eq_due steps]
    exact (poses.goalTime_bounds steps bound).1

/-- The windows of the vertices which an agent can reach. -/
theorem lastTimestep_of_known {v : ℕ} (known : 0 ≤ e.inst.firstTimestep a v) :
    (e.Unreached a → e.lastTimestep a v e.maxTimestep = e.lastStep a) ∧
      (¬e.Unreached a → e.lastTimestep a v e.maxTimestep = e.lastStep a - e.inst.toGoal a v) := by
  have last := poses.lastTimestep_eq bound v
  rw [goalTime_eq_due steps] at last
  unfold lastStep
  constructor
  · intro unreached
    have far : e.inst.toGoal a v = -1 := (poses.toGoal bound).eq_neg_one fun near =>
      not_le.mpr unreached ((poses.fromStart bound).nonneg_iff.mpr
        (((poses.fromStart bound).nonneg_iff.mp known).trans (Distance.reachable_symm
          (fun _ _ edge => edge.symm) ((poses.toGoal bound).nonneg_iff.mp near))))
    rw [last, far, if_pos unreached, sub_neg_eq_add]
  · intro reached
    rw [last, if_neg reached]

/-- An agent has no variables after its last step where it can get. -/
theorem le_lastStep_of_covers (ready : e.Ready hi) {v : ℕ} {t : ℤ} (cell : v < e.vertices)
    (known : 0 ≤ e.inst.firstTimestep a v) (covers : (e.atEntry a v).Covers t) :
    t ≤ e.lastStep a := by
  have window := (ready.atReady.covers a bound v cell t).mp covers
  have ends := lastTimestep_of_known poses steps bound known
  by_cases unreached : e.Unreached a
  · exact window.2.trans_eq (ends.1 unreached)
  · have near := (deadline_of_reached poses steps bound unreached).known_iff.mp known
    have last := ends.2 unreached
    omega

omit steps in
/-- An agent can get from where it can get to the neighbors. -/
theorem known_of_getNeighbor (windows : e.Windows) {v u : ℕ} {dir : Dir} (cell : v < e.vertices)
    (known : 0 ≤ e.inst.firstTimestep a v) (next : e.inst.getNeighbor v dir = some u) :
    0 ≤ e.inst.firstTimestep a u := by
  rcases (windows.step_iff cell).mpr ⟨dir, next⟩ with rfl | edge
  · exact known
  · exact ((poses.fromStart bound).extend v u edge known).1

/-- Until its walk ends an agent can move on to a vertex where it has a variable. -/
theorem exists_covered_of_lt (ready : e.Ready hi) {v n : ℕ} (cell : v < e.vertices)
    (known : 0 ≤ e.inst.firstTimestep a v) (covers : (e.atEntry a v).Covers n)
    (before : (n : ℤ) < e.lastStep a) :
    ∃ dir u, e.inst.getNeighbor v dir = some u ∧ (e.atEntry a u).Covers (n + 1) := by
  by_cases early : (n : ℤ) < e.goalTime a
  · exact exists_covered poses ready bound cell covers early
  · have late : e.Unreached a := by
      by_contra reached
      rw [lastStep, if_neg reached, ← goalTime_eq_due steps] at before
      exact early before
    have window := (ready.atReady.covers a bound v cell n).mp covers
    have last := (lastTimestep_of_known poses steps bound known).1 late
    exact ⟨.wait, v, rfl, (ready.atReady.covers a bound v cell _).mpr (by omega)⟩

/-- Extraction from a valuation of the movement clauses leads every agent along a walk. -/
theorem Moves.exists_walk (ready : e.Ready hi) (moves : e.Moves σ)
    (start : e.At σ a (e.inst.startOf a) 0) : ∃ w : ℕ → ℕ, w 0 = e.inst.startOf a ∧
      (∀ n : ℕ, (n : ℤ) < e.lastStep a → e.getNextVertex σ a (w n) (n + 1) = some (w (n + 1))) ∧
      ∀ n : ℕ, (n : ℤ) ≤ e.lastStep a →
        w n < e.vertices ∧ 0 ≤ e.inst.firstTimestep a (w n) ∧ e.At σ a (w n) n := by
  have windows := ready.windows
  have last := lastStep_nonneg poses steps bound
  have within := (lastStep_le steps a).2
  have inside := (poses.goalTime_bounds steps bound).2
  have step : ∀ v n : ℕ, n < (e.lastStep a).toNat →
      v < e.vertices ∧ 0 ≤ e.inst.firstTimestep a v ∧ e.At σ a v n →
      ∃ u, e.getNextVertex σ a v (n + 1) = some u ∧
        u < e.vertices ∧ 0 ≤ e.inst.firstTimestep a u ∧ e.At σ a u ↑(n + 1) := by
    intro v n before ⟨cell, known, here⟩
    obtain ⟨dir, u, next, covers⟩ :=
      exists_covered_of_lt poses steps bound ready cell known here.1 (by omega)
    obtain ⟨dir, u, next, test⟩ := moves.exists_candidate ready bound cell here next covers
      (Int.natCast_nonneg n) (by omega)
    obtain ⟨u', chosen⟩ := getNextVertex_complete next test
    obtain ⟨dir', next', test'⟩ := getNextVertex_sound chosen
    refine ⟨u', chosen, windows.neighbor_lt cell next',
      known_of_getNeighbor poses bound windows cell known next', ?_⟩
    exact_mod_cast moves.at_of_candidate bound cell here next' test'
  obtain ⟨w, first, leads, keeps⟩ :=
    exists_trace ⟨windows.startCell a bound, (windows.starts a bound).1.ge, start⟩ step
  exact ⟨w, first, fun n before => leads n (by omega), fun n le => keeps n (by omega)⟩

end Windows

/-! ## Soundness -/

section Sound

variable (poses : req.Poses e) (ready : e.Ready hi) (steps : e.maxTimestep = e.timesteps)
include poses ready steps

/-- The last position of an agent which can reach its goal is the goal. -/
theorem eq_goal_of_covers {a v n : ℕ} (bound : a < e.agents) (reached : ¬e.Unreached a)
    (last : n = e.due a) (cell : v < e.vertices) (known : 0 ≤ e.inst.firstTimestep a v)
    (covers : (e.atEntry a v).Covers n) : v = e.inst.goalOf a := by
  have deadline := deadline_of_reached poses steps bound reached
  have window := (ready.atReady.covers a bound v cell n).mp covers
  have same : e.lastStep a = e.due a := if_neg reached
  have until_ := (lastTimestep_of_known poses steps bound known).2 reached
  refine deadline.eq_goal known ⟨?_, ?_⟩ <;> omega

/-- Joint walks along which extraction leads the agents, until they count as parked at their goals.
The variables of their positions are true. -/
structure Walked (e : Encoder) (σ : Valuation) (pos : ℕ → ℕ → ℕ) : Prop where
  starts : ∀ a < e.agents, pos a 0 = e.inst.startOf a
  chooses : ∀ a < e.agents, ∀ n : ℕ, (n : ℤ) < e.lastStep a →
    e.getNextVertex σ a (pos a n) (n + 1) = some (pos a (n + 1))
  keeps : ∀ a < e.agents, ∀ n : ℕ, (n : ℤ) ≤ e.lastStep a →
    pos a n < e.vertices ∧ 0 ≤ e.inst.firstTimestep a (pos a n) ∧ e.At σ a (pos a n) n
  parks : ∀ a < e.agents, ∀ n : ℕ, e.lastStep a < n → pos a n = e.inst.goalOf a

theorem Obeys.exists_walked (obeys : e.Obeys σ) : ∃ pos, e.Walked σ pos := by
  choose! w first chooses keeps using fun a (bound : a < e.agents) =>
    obeys.moves.exists_walk poses steps bound ready (obeys.starts a bound)
  let pos : ℕ → ℕ → ℕ := fun a n => if (n : ℤ) ≤ e.lastStep a then w a n else e.inst.goalOf a
  have walks {a n : ℕ} (le : (n : ℤ) ≤ e.lastStep a) : pos a n = w a n := if_pos le
  refine ⟨pos, fun a bound => ?_, fun a bound n before => ?_, fun a bound n le => ?_,
    fun a _ n late => if_neg (not_le.mpr late)⟩
  · rw [walks (lastStep_nonneg poses steps bound)]
    exact first a bound
  · rw [walks before.le, walks (show ((n + 1 : ℕ) : ℤ) ≤ _ by push_cast; omega)]
    exact chooses a bound n before
  · rw [walks le]
    exact keeps a bound n le

namespace Walked

variable (walked : e.Walked σ pos)
include walked

omit poses ready steps in
theorem leads {a n : ℕ} (bound : a < e.agents) (before : (n : ℤ) < e.lastStep a) :
    ∃ dir, e.inst.getNeighbor (pos a n) dir = some (pos a (n + 1)) ∧
      e.Candidate σ a (pos a n) dir (pos a (n + 1)) (n + 1) :=
  getNextVertex_sound (walked.chooses a bound n before)

omit poses ready steps in
/-- A step of a walk is the move which the valuation has chosen. -/
theorem candidate (windows : e.Windows) {a v : ℕ} {dir : Dir} {t : ℤ} (bound : a < e.agents)
    (step : e.Steps pos a v dir t) :
    v < e.vertices ∧ e.Candidate σ a v dir (pos a (t.toNat + 1)) (t + 1) := by
  obtain ⟨n, rfl, before, rfl, next⟩ := step
  obtain ⟨dir', next', test⟩ := walked.leads bound before
  have cell := (walked.keeps a bound n before.le).1
  refine ⟨cell, ?_⟩
  rwa [windows.dir_unique cell next next']

omit poses ready steps in
theorem pass (windows : e.Windows) (kind : e.config.variableKind = .pass) {a v : ℕ} {dir : Dir}
    {t : ℤ} (bound : a < e.agents) (step : e.Steps pos a v dir t) : e.Pass σ a v dir t := by
  have test := (walked.candidate windows bound step).2
  simpa only [Candidate, kind, add_sub_cancel_right] using test

omit poses ready steps in
theorem shifts (windows : e.Windows) (kind : e.config.variableKind = .shift) {a v : ℕ} {dir : Dir}
    {t : ℤ} (bound : a < e.agents) (step : e.Steps pos a v dir t) :
    v < e.vertices ∧ e.Shifts σ v dir t := by
  obtain ⟨cell, test⟩ := walked.candidate windows bound step
  simp only [Candidate, kind, add_sub_cancel_right] at test
  exact ⟨cell, test.2⟩

variable (obeys : e.Obeys σ)
include obeys

omit poses in
/-- Where an agent stands the variable of its position is true. -/
theorem at_of_stands {a v : ℕ} {t : ℤ} (bound : a < e.agents) (here : e.Stands pos a v t) :
    v < e.vertices ∧ e.At σ a v t := by
  obtain ⟨n, rfl, le, rfl⟩ | ⟨-, rfl, rfl⟩ := here
  · obtain ⟨cell, -, here⟩ := walked.keeps a bound n le
    exact ⟨cell, here⟩
  · rw [← goalTime_eq_due steps]
    exact ⟨ready.windows.goalCell a bound, obeys.goals a bound⟩

/-- Without duplicates a goal which is cut off can only be taken before time zero. -/
theorem due_neg (forbid : e.config.duplicates = .forbid) {a : ℕ} (bound : a < e.agents)
    (unreached : e.Unreached a) : e.due a < 0 := by
  by_contra nonneg
  obtain ⟨n, time⟩ := Int.eq_ofNat_of_zero_le (not_lt.mp nonneg)
  have before := (poses.goalTime_bounds steps bound).2
  rw [goalTime_eq_due steps] at before
  have le : (n : ℤ) ≤ e.lastStep a := by
    rw [lastStep, if_pos unreached]
    omega
  obtain ⟨cell, known, here⟩ := walked.keeps a bound n le
  have goal := obeys.goals a bound
  rw [goalTime_eq_due steps, time] at goal
  refine obeys.single forbid a bound n (Int.natCast_nonneg n) (by omega) _ cell _
    (ready.windows.goalCell a bound) (fun same => ?_) ⟨here, goal⟩
  rw [same] at known
  exact not_le.mpr unreached known

omit obeys in
/-- An agent which can reach its goal is there in the end. -/
theorem arrives {a n : ℕ} (bound : a < e.agents) (reached : ¬e.Unreached a) (last : n = e.due a) :
    pos a n = e.inst.goalOf a := by
  have le : (n : ℤ) ≤ e.lastStep a := by
    rw [lastStep, if_neg reached]
    exact last.le
  obtain ⟨cell, known, here⟩ := walked.keeps a bound n le
  exact eq_goal_of_covers poses ready steps bound reached last cell known here.1

/-- The delays are within the bound. If there is any delta, a goal which is cut off is due at time zero
or later, so the calls with such goals allow duplicates. -/
theorem bounded (cutOff : ∃ a < e.agents, e.Unreached a) (soc : e.config.costFunction = .soc)
    (positive : 0 < e.delta) :
    ∑ a ∈ Finset.range e.agents, delay (e.LateBy (e.Stands pos) a) e.delta ≤ e.delta := by
  refine le_trans (Finset.sum_le_sum fun a member => ?_) (obeys.bounded soc positive)
  have bound := Finset.mem_range.mp member
  refine delay_mono fun d late => ?_
  unfold LateAt LateBy at *
  cases kind : e.config.duplicates with
  | allow =>
    rw [kind] at late
    obtain ⟨v, cell, away, here⟩ := late
    exact ⟨v, cell, away, (walked.at_of_stands ready steps obeys bound here).2⟩
  | forbid =>
    obtain ⟨b, boundB, unreached⟩ := cutOff
    have early := walked.due_neg poses ready steps obeys kind boundB unreached
    have least := (poses.fromStart boundB).lower (e.inst.goalOf b)
    rw [← goalTime_eq_due steps, poses.goalTime_soc soc boundB] at early
    omega

/-- Such walks satisfy all clauses besides the ones for locations to be avoided. -/
theorem roams (apart : e.config.lazyConst = .eager → e.Apart σ)
    (cutOff : ∃ a < e.agents, e.Unreached a) : e.Roams pos where
  starts := walked.starts
  walks a bound n before := by
    obtain ⟨dir, next, -⟩ := walked.leads bound before
    exact ⟨dir, next⟩
  arrives _ bound reached _ last := walked.arrives poses ready steps bound reached last
  guarded soc a boundA b boundB t late here := by
    rw [← goalTime_eq_due steps] at late
    exact obeys.guarded soc a boundA b boundB t late
      (walked.at_of_stands ready steps obeys boundB here).2
  single forbid _ bound unreached :=
    walked.due_neg poses ready steps obeys forbid bound unreached
  bounded := walked.bounded poses ready steps obeys cutOff
  together kind a boundA b boundB v dir dir' t step step' := by
    by_contra distinct
    have moves := obeys.moves
    simp only [Moves, kind] at moves
    obtain ⟨cell, shift⟩ := walked.shifts ready.windows kind boundA step
    exact moves.1.2 v cell dir dir' distinct t
      ⟨shift, (walked.shifts ready.windows kind boundB step').2⟩
  vertex eager a boundA b boundB distinct v cell t := by
    rintro ⟨here, there⟩
    exact (apart eager).vertex a boundA b boundB distinct v cell t
      ⟨(walked.at_of_stands ready steps obeys boundA here).2,
        (walked.at_of_stands ready steps obeys boundB there).2⟩
  moving eager := by
    refine (apart eager).moving.mono ready.windows
      (fun a bound v _ t here => (walked.at_of_stands ready steps obeys bound here).2)
      (fun kind a bound v _ dir t => walked.pass ready.windows kind bound) ?_
    rintro kind v - dir t ⟨a, bound, step⟩
    exact (walked.shifts ready.windows kind bound step).2

end Walked

/-- A valuation of the clauses shows walks on which agents roam, and where they stand the variables
of their positions are true. -/
theorem Obeys.exists_roams (obeys : e.Obeys σ) (apart : e.config.lazyConst = .eager → e.Apart σ)
    (cutOff : ∃ a < e.agents, e.Unreached a) :
    ∃ pos, e.Roams pos ∧ ∀ a < e.agents, ∀ v t, e.Stands pos a v t → e.At σ a v t := by
  obtain ⟨pos, walked⟩ := obeys.exists_walked poses ready steps
  exact ⟨pos, walked.roams poses ready steps obeys apart cutOff,
    fun a bound v t here => (walked.at_of_stands ready steps obeys bound here).2⟩

omit poses in
/-- The clauses for locations to be avoided keep the walks away. -/
theorem shuns_of_models (models : Models σ e.createConstAvoid)
    (stands : ∀ a < e.agents, ∀ v t, e.Stands pos a v t → e.At σ a v t) : e.Shuns pos := by
  intro s stored early v cell a bound here
  have true_ := stands a bound v s.t here
  have addressed : e.Addressed a v s.t :=
    ⟨⟨bound, true_.1.1⟩, early.trans_eq steps.symm, s, stored, rfl, cell⟩
  have isVar := ready.atReady.isVar a bound v (addressed.cell ready.windows) s.t true_.1
  have holds := models _ (mem_createConstAvoid_iff.mpr ⟨a, v, s.t, addressed, rfl⟩)
  exact (holds_unit_neg isVar.1).mp holds true_.2

end Sound

end Encoder

end MAPFEncodings

import MAPFEncodings.Refinement.OnDemand
import MAPFEncodings.Soundness.Roaming

/-! # Recorded conflicts of agents which cannot reach their goals

Such an agent roams until one timestep after its goal time, and is then taken for parked. If the
rows of the plan are long enough for this, `GenerateConflicts` still names existing variables only:
the clauses which keep others off its goal protect it. If they are not, `NormalizePlan` fills them
up with the vertex `0`, where there may be no variables.
-/

namespace MAPFEncodings

open Cnf PathFinding

namespace Encoder

variable {e e' : Encoder} {σ : Valuation} {hi hi' : ℤ} {req : Request} {pos : ℕ → ℕ → ℕ}

/-! ## Rows -/

/-- For the sum of costs, rows which show an agent whose goal is cut off have two entries more than
the delta. -/
def RowsSuffice (e : Encoder) : Prop := e.config.costFunction = .soc →
  (∃ a < e.agents, e.Unreached a) → (e.delta : ℤ) + 2 ≤ e.maxTimestep

section Rows

variable (poses : req.Poses e) (ready : e.Ready hi) (steps : e.maxTimestep = e.timesteps)

theorem due_le_lastStep (e : Encoder) (a : ℕ) : e.due a ≤ e.lastStep a := by
  unfold lastStep
  split <;> omega

include poses steps in
/-- For the sum of costs a walk to a goal which is cut off ends with the delta. -/
theorem lastStep_of_unreached (soc : e.config.costFunction = .soc) {a : ℕ} (bound : a < e.agents)
    (unreached : e.Unreached a) : e.lastStep a = e.delta := by
  have least := (poses.fromStart bound).lower (e.inst.goalOf a)
  have cutOff : e.inst.firstTimestep a (e.inst.goalOf a) < 0 := unreached
  rw [lastStep, if_pos unreached, ← goalTime_eq_due steps, poses.goalTime_soc soc bound]
  omega

namespace Walked

variable (walked : e.Walked σ pos)
include walked

/-- Extraction follows the walks. -/
theorem follow_eq {a n : ℕ} (bound : a < e.agents) (le : (n : ℤ) ≤ e.lastStep a) :
    follow (fun v t => e.getNextVertex σ a v t) (e.inst.startOf a) n = some (pos a n) := by
  induction n with
  | zero => rw [follow, walked.starts a bound]
  | succ n ih =>
    push_cast at le
    rw [follow, ih (by omega), Option.bind_some]
    exact_mod_cast walked.chooses a bound n (by omega)

include poses ready steps

/-- After its last step an agent has no variables which it could follow. -/
theorem follow_eq_none (moves : e.Moves σ) {a n : ℕ} (bound : a < e.agents)
    (late : e.lastStep a < n) :
    follow (fun v t => e.getNextVertex σ a v t) (e.inst.startOf a) n = none := by
  obtain ⟨last, same⟩ := Int.eq_ofNat_of_zero_le (lastStep_nonneg poses steps bound)
  obtain ⟨cell, known, here⟩ := walked.keeps a bound last same.ge
  have stuck : follow (fun v t => e.getNextVertex σ a v t) (e.inst.startOf a) (last + 1) = none := by
    rw [follow, walked.follow_eq bound same.ge, Option.bind_some,
      Option.eq_none_iff_forall_ne_some]
    intro u chosen
    obtain ⟨dir, next, test⟩ := getNextVertex_sound chosen
    push_cast at test
    have covers := (moves.at_of_candidate bound cell here next test).1
    have within := le_lastStep_of_covers poses steps bound ready (ready.windows.neighbor_lt cell next)
      (known_of_getNeighbor poses bound ready.windows cell known next) covers
    omega
  exact follow_none stuck (by omega)

/-- An agent which can reach its goal is there from the goal time on. -/
theorem eq_goal_of_due_le {a n : ℕ} (bound : a < e.agents) (reached : ¬e.Unreached a)
    (late : e.due a ≤ n) : pos a n = e.inst.goalOf a := by
  rcases late.eq_or_lt with last | later
  · exact walked.arrives poses ready steps bound reached last.symm
  · exact walked.parks a bound n (by rwa [lastStep, if_neg reached])

/-- If the rows are long enough the plan shows the walks, for the makespan until they end. -/
theorem readPlan_eq (moves : e.Moves σ) (suffice : e.RowsSuffice) : ∃ len,
    e.readPlan σ = planOf e.agents len pos ∧
      (e.config.costFunction = .mks → (len : ℤ) ≤ e.maxTimestep) := by
  have positive := poses.timesteps_nonneg
  rw [← steps] at positive
  unfold readPlan
  cases kind : e.config.costFunction with
  | mks =>
    refine ⟨e.maxTimestep.toNat, ?_, fun _ => by omega⟩
    rw [extractPlan, kind]
    refine extractRows_eq_planOf fun a bound t inside => walked.follow_eq bound ?_
    have last := (lastStep_le steps a).1
    rw [poses.goalTime_mks kind bound] at last
    omega
  | soc =>
    have far {a : ℕ} (bound : a < e.agents) (unreached : e.Unreached a) :
        e.lastStep a + 2 ≤ e.maxTimestep := by
      have long := suffice kind ⟨a, bound, unreached⟩
      rw [lastStep_of_unreached poses steps kind bound unreached]
      exact long
    have trails : e.Trails (fun a v t => e.getNextVertex σ a v t)
        (fun _ => (e.maxTimestep - 1).toNat) pos := by
      refine ⟨fun a bound t => ?_, fun a bound t late => ?_⟩
      · rcases le_or_gt (t : ℤ) (e.lastStep a) with early | late
        · exact .inl (walked.follow_eq bound early)
        · exact .inr ⟨walked.follow_eq_none poses ready steps moves bound late,
            fun s after => walked.parks a bound s (by omega)⟩
      · by_cases unreached : e.Unreached a
        · have long := far bound unreached
          exact walked.parks a bound t (by omega)
        · have before := (poses.goalTime_bounds steps bound).2
          rw [goalTime_eq_due steps] at before
          exact walked.eq_goal_of_due_le poses ready steps bound unreached (by omega)
    obtain ⟨len, -, shown, -⟩ := trails.shows kind fun a bound => by
      have nonneg := lastStep_nonneg poses steps bound
      have before := (poses.goalTime_bounds steps bound).2
      rw [goalTime_eq_due steps] at before
      by_cases unreached : e.Unreached a
      · have long := far bound unreached
        omega
      · rw [lastStep, if_neg unreached] at nonneg
        omega
    exact ⟨len, shown, fun mks => absurd mks (by decide)⟩

end Walked

end Rows

/-! ## Recorded conflicts -/

/-- Different agents have different goals. -/
def DistinctGoals (e : Encoder) : Prop :=
  ∀ a < e.agents, ∀ b < e.agents, a ≠ b → e.inst.goalOf a ≠ e.inst.goalOf b

namespace Walked

variable (poses : req.Poses e) (ready : e.Ready hi) (steps : e.maxTimestep = e.timesteps)
  (walked : e.Walked σ pos) (obeys : e.Obeys σ) (goals : e.DistinctGoals)
include walked poses ready steps obeys goals

omit ready in
/-- Nobody else is at a goal after its goal time. -/
theorem away {a b t : ℕ} (boundA : a < e.agents) (boundB : b < e.agents) (distinct : a ≠ b)
    (late : e.due a < t) (inside : e.config.costFunction = .mks → (t : ℤ) < e.maxTimestep) :
    pos b t ≠ e.inst.goalOf a := by
  intro meet
  rw [← goalTime_eq_due steps] at late
  cases kind : e.config.costFunction with
  | mks =>
    have early := inside kind
    rw [poses.goalTime_mks kind boundA] at late
    omega
  | soc =>
    rcases le_or_gt (t : ℤ) (e.lastStep b) with walks | parked
    · have here := (walked.keeps b boundB t walks).2.2
      rw [meet] at here
      exact obeys.guarded kind a boundA b boundB t late here
    · exact goals a boundA b boundB distinct
        (meet.symm.trans (walked.parks b boundB t parked))

omit ready in
/-- Agents meet only while they walk. -/
theorem le_lastStep_of_meet {a b t : ℕ} (boundA : a < e.agents) (boundB : b < e.agents)
    (distinct : a ≠ b) (inside : e.config.costFunction = .mks → (t : ℤ) < e.maxTimestep)
    (meet : pos a t = pos b t) : (t : ℤ) ≤ e.lastStep a := by
  by_contra late
  have due := due_le_lastStep e a
  exact walked.away poses steps obeys goals boundA boundB distinct (by omega) inside
    (meet.symm.trans (walked.parks a boundA t (not_le.mp late)))

/-- Agents move only while they walk, if they enter where others have been. -/
theorem lt_lastStep_of_enters {a b t : ℕ} (boundA : a < e.agents) (boundB : b < e.agents)
    (distinct : a ≠ b) (inside : e.config.costFunction = .mks → (t : ℤ) < e.maxTimestep)
    (moves : pos a (t + 1) ≠ pos a t) (entered : pos a (t + 1) = pos b t) :
    (t : ℤ) < e.lastStep a := by
  by_contra late
  have home : pos a (t + 1) = e.inst.goalOf a := walked.parks a boundA _ (by push_cast; omega)
  rcases lt_or_ge (e.due a) (t : ℤ) with after | before
  · exact walked.away poses steps obeys goals boundA boundB distinct after inside
      (entered.symm.trans home)
  · have reached : ¬e.Unreached a := by
      intro unreached
      rw [lastStep, if_pos unreached] at late
      omega
    rw [lastStep, if_neg reached] at late
    exact moves (home.trans (walked.eq_goal_of_due_le poses ready steps boundA reached
      (not_lt.mp late)).symm)

omit ready in
/-- Who is entered has been walking. -/
theorem le_lastStep_of_entered {a b t : ℕ} (boundA : a < e.agents) (boundB : b < e.agents)
    (distinct : a ≠ b) (inside : e.config.costFunction = .mks → (t : ℤ) + 1 < e.maxTimestep)
    (entered : pos a (t + 1) = pos b t) : (t : ℤ) ≤ e.lastStep b := by
  by_contra late
  have due := due_le_lastStep e b
  refine walked.away poses steps obeys goals boundB boundA distinct.symm (t := t + 1) (by
    push_cast; omega) (fun mks => by exact_mod_cast inside mks) ?_
  exact entered.trans (walked.parks b boundB t (not_le.mp late))

omit poses ready steps obeys goals in
/-- The variables of a move. -/
theorem covers_of_lt {a t : ℕ} (bound : a < e.agents) (before : (t : ℤ) < e.lastStep a) :
    (e.atEntry a (pos a t)).Covers t ∧ (e.atEntry a (pos a (t + 1))).Covers ((t : ℤ) + 1) :=
  ⟨(walked.keeps a bound t before.le).2.2.1,
    by exact_mod_cast (walked.keeps a bound (t + 1) (by push_cast; omega)).2.2.1⟩

omit poses ready steps obeys goals in
/-- The edge of a move. -/
theorem crosses {a b t : ℕ} (boundA : a < e.agents) (boundB : b < e.agents) (distinct : a ≠ b)
    (before : (t : ℤ) < e.lastStep a) (moves : pos a (t + 1) ≠ pos a t) (s : ℕ) : ∃ dir,
      e.Crosses ⟨a, b, some (pos a t), some (pos a (t + 1)), s⟩ (pos a t) (pos a (t + 1)) dir := by
  obtain ⟨dir, next, -⟩ := walked.leads boundA before
  refine ⟨dir, boundA, boundB, distinct, rfl, rfl, (walked.keeps a boundA t before.le).1, ?_, next⟩
  rintro rfl
  exact moves (Option.some.inj next).symm

/-- The recorded conflicts of the shown walks name existing variables. -/
theorem names (movement : Movement) {len : ℕ}
    (fits : e.config.costFunction = .mks → (len : ℤ) ≤ e.maxTimestep) :
    e.Names (generateConflicts movement (planOf e.agents len pos)) := by
  have early {a t : ℕ} (bound : a < e.agents) (before : (t : ℤ) < e.lastStep a) :
      (t : ℤ) < e.maxTimestep := by
    have last := (lastStep_le steps a).2
    have inside := (poses.goalTime_bounds steps bound).2
    omega
  constructor
  · intro c member
    obtain ⟨a, b, t, ordered, boundB, shown, meet, rfl⟩ := mem_vertex_iff.mp member
    have boundA := ordered.trans boundB
    have inside (mks : e.config.costFunction = .mks) : (t : ℤ) < e.maxTimestep := by
      have := fits mks
      omega
    obtain ⟨cell, -, here⟩ := walked.keeps a boundA t
      (walked.le_lastStep_of_meet poses steps obeys goals boundA boundB ordered.ne inside meet)
    obtain ⟨-, -, there⟩ := walked.keeps b boundB t
      (walked.le_lastStep_of_meet poses steps obeys goals boundB boundA ordered.ne' inside meet.symm)
    rw [← meet] at there
    exact ⟨ordered, boundB, _, rfl, cell, here.1, there.1⟩
  · intro c member
    obtain ⟨a, b, t, ordered, boundB, shown, ⟨first, second⟩, apart, rfl⟩ :=
      mem_swap_iff.mp member
    have boundA := ordered.trans boundB
    have inside (mks : e.config.costFunction = .mks) : (t : ℤ) < e.maxTimestep := by
      have := fits mks
      omega
    have movesA : pos a (t + 1) ≠ pos a t := by rw [second]; exact apart.symm
    have movesB : pos b (t + 1) ≠ pos b t := by rw [← first]; exact apart
    have beforeA := walked.lt_lastStep_of_enters poses ready steps obeys goals boundA boundB
      ordered.ne inside movesA second
    have beforeB := walked.lt_lastStep_of_enters poses ready steps obeys goals boundB boundA
      ordered.ne' inside movesB first.symm
    obtain ⟨dir, crosses⟩ := walked.crosses boundA boundB ordered.ne beforeA movesA t
    refine ⟨ordered, early boundA beforeA, _, _, dir, crosses,
      walked.covers_of_lt boundA beforeA, ?_⟩
    dsimp only
    rw [first, second]
    exact walked.covers_of_lt boundB beforeB
  · intro c member
    obtain ⟨-, a, b, t, distinct, boundA, boundB, shown, entered, moves, rfl⟩ :=
      mem_pebble_iff.mp member
    have inside (mks : e.config.costFunction = .mks) : (t : ℤ) + 1 < e.maxTimestep := by
      have := fits mks
      omega
    have beforeA := walked.lt_lastStep_of_enters poses ready steps obeys goals boundA boundB
      distinct (fun mks => by have := inside mks; omega) moves.symm entered
    obtain ⟨dir, crosses⟩ := walked.crosses boundA boundB distinct beforeA moves.symm (t + 1)
    refine ⟨t, rfl, early boundA beforeA, _, _, dir, crosses,
      walked.covers_of_lt boundA beforeA, ?_⟩
    dsimp only
    rw [entered]
    exact (walked.keeps b boundB t (walked.le_lastStep_of_entered poses steps obeys goals boundA
      boundB distinct inside entered)).2.2.1

end Walked

/-- A single agent has no conflicts. -/
theorem Names.of_few {plan : Plan} (few : plan.length < 2) (movement : Movement) :
    e.Names (generateConflicts movement plan) := by
  have none : plan.meetings = [] := by
    rw [Plan.meetings, List.flatMap_eq_nil_iff]
    intro a member
    rw [List.mem_range] at member
    rw [List.Ico.eq_nil_of_le (by omega), List.flatMap_nil]
  rw [generateConflicts, none]
  exact ⟨by simp, by simp, by simp⟩

theorem length_readPlan (e : Encoder) (σ : Valuation) : (e.readPlan σ).length = e.agents := by
  unfold readPlan extractPlan
  cases e.config.costFunction <;> simp [normalizePlan, extractRows]

/-- The conflicts of a plan which is read from a valuation of the clauses name existing
variables. -/
theorem Obeys.names (poses : req.Poses e) (ready : e.Ready hi) (steps : e.maxTimestep = e.timesteps)
    (obeys : e.Obeys σ) (goals : e.DistinctGoals) (suffice : 2 ≤ e.agents → e.RowsSuffice)
    (movement : Movement) : e.Names (generateConflicts movement (e.readPlan σ)) := by
  rcases lt_or_ge e.agents 2 with few | many
  · exact .of_few ((length_readPlan e σ).trans_lt few) movement
  · obtain ⟨pos, walked⟩ := obeys.exists_walked poses ready steps
    obtain ⟨len, shown, fits⟩ := walked.readPlan_eq poses ready steps obeys.moves (suffice many)
    rw [shown]
    exact walked.names poses ready steps obeys goals movement fits

/-! ## Larger deltas -/

/-- The members which a request fixes, for a larger delta. -/
structure Widens (e e' : Encoder) : Prop where
  inst : e'.inst = e.inst
  config : e'.config = e.config
  agents : e'.agents = e.agents
  vertices : e'.vertices = e.vertices
  delta : e.delta ≤ e'.delta
  steps : e.maxTimestep ≤ e'.maxTimestep

namespace Widens

variable (widens : e.Widens e') (ready : e.Ready hi) (ready' : e'.Ready hi')
include widens

theorem lastTimestep_le (a v : ℕ) :
    e.lastTimestep a v e.maxTimestep ≤ e'.lastTimestep a v e'.maxTimestep := by
  have delta := widens.delta
  have steps := widens.steps
  unfold lastTimestep
  rw [widens.inst, widens.config]
  cases e.config.costFunction <;> dsimp only [Instance.lastTimestep] <;> omega

include ready ready'

/-- Windows only grow. -/
theorem covers {a v : ℕ} {t : ℤ} (bound : a < e.agents) (cell : v < e.vertices)
    (covers : (e.atEntry a v).Covers t) : (e'.atEntry a v).Covers t := by
  have window := (ready.atReady.covers a bound v cell t).mp covers
  have later := widens.lastTimestep_le a v
  refine (ready'.atReady.covers a (widens.agents ▸ bound) v (widens.vertices ▸ cell) t).mpr ?_
  rw [widens.inst]
  omega

omit ready ready' in
theorem crosses {c : EdgeConflict} {v u : ℕ} {dir : Dir} (crosses : e.Crosses c v u dir) :
    e'.Crosses c v u dir where
  boundA := widens.agents ▸ crosses.boundA
  boundB := widens.agents ▸ crosses.boundB
  distinct := crosses.distinct
  tail := crosses.tail
  head := crosses.head
  cell := widens.vertices ▸ crosses.cell
  moves := crosses.moves
  next := widens.inst ▸ crosses.next

/-- Conflicts which are left over from a smaller delta name existing variables too. -/
theorem names {conflicts : Conflicts} (names : e.Names conflicts) : e'.Names conflicts := by
  have steps := widens.steps
  have grows {a v : ℕ} {t : ℤ} := @covers _ _ _ _ widens ready ready' a v t
  refine ⟨fun c member => ?_, fun c member => ?_, fun c member => ?_⟩
  · obtain ⟨ordered, bound, v, same, cell, first, second⟩ := names.vertex c member
    exact ⟨ordered, widens.agents ▸ bound, v, same, widens.vertices ▸ cell,
      grows (ordered.trans bound) cell first, grows bound cell second⟩
  · obtain ⟨ordered, before, v, u, dir, crosses, ⟨tail, head⟩, tail', head'⟩ :=
      names.swap c member
    have cellU := ready.windows.neighbor_lt crosses.cell crosses.next
    exact ⟨ordered, before.trans_le steps, v, u, dir, widens.crosses crosses,
      ⟨grows crosses.boundA crosses.cell tail, grows crosses.boundA cellU head⟩,
      grows crosses.boundB cellU tail', grows crosses.boundB crosses.cell head'⟩
  · obtain ⟨t, time, before, v, u, dir, crosses, ⟨tail, head⟩, there⟩ := names.pebble c member
    have cellU := ready.windows.neighbor_lt crosses.cell crosses.next
    exact ⟨t, time, before.trans_le steps, v, u, dir, widens.crosses crosses,
      ⟨grows crosses.boundA crosses.cell tail, grows crosses.boundA cellU head⟩,
      grows crosses.boundB cellU there⟩

end Widens

end Encoder

end MAPFEncodings

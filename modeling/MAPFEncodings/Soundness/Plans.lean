import MAPFEncodings.Soundness.Walks

/-! # Extracted plans are valid

The position variables of different agents exclude each other before the deadlines, and nobody has
a true position variable at a parked agent's goal. The conflict clauses for moving agents therefore
only have to exclude interference of two agents which both move before their deadlines.
-/

namespace MAPFEncodings

open Cnf PathFinding

namespace Encoder

variable {e : Encoder} {σ : Valuation} {L : ℕ → ℕ} {hi : ℤ} {pos : ℕ → ℕ → ℕ} {task : Task}

/-- What the clauses which do not lead the agents say about their positions: nobody is at a parked
agent's goal, there are no ghost copies if these are forbidden, and the delays are bounded. -/
structure Regulated (e : Encoder) (L : ℕ → ℕ) (σ : Valuation) : Prop where
  guarded : e.config.costFunction = .soc → ∀ a < e.agents, ∀ b < e.agents,
    ∀ t, (L a : ℤ) < t → ¬e.At σ b (e.inst.goalOf a) t
  single : e.config.duplicates = .forbid → e.Single σ
  bounded : e.config.costFunction = .soc → 0 < e.delta →
    ∑ a ∈ Finset.range e.agents, delay (e.LateAt σ a) e.delta ≤ e.delta

theorem Routes.regulated (routes : e.Routes L σ) : e.Regulated L σ :=
  ⟨routes.guarded, routes.single, routes.bounded⟩

namespace Follows

/-- In a grid step which changes the vertex the direction is not waiting. -/
theorem moves_of_ne {v u : ℕ} {dir : Dir} (next : e.inst.getNeighbor v dir = some u)
    (moves : u ≠ v) : dir ≠ .wait := by
  rintro rfl
  exact moves (Option.some.inj next).symm

/-- Without the clauses for parked agents all deadlines are equal. -/
theorem guarded (prepared : e.Prepared L hi) (regulated : e.Regulated L σ) {a b t : ℕ}
    (boundA : a < e.agents) (boundB : b < e.agents) (late : L a < t) (before : t ≤ L b) :
    ¬e.At σ b (e.inst.goalOf a) t := by
  cases kind : e.config.costFunction with
  | mks =>
    have lastA := prepared.together kind a boundA
    have lastB := prepared.together kind b boundB
    omega
  | soc => exact regulated.guarded kind a boundA b boundB t (by omega)

variable (follows : e.Follows σ L pos)
include follows

theorem isWalk (prepared : e.Prepared L hi) {a : ℕ} (boundA : a < e.agents) :
    Distance.IsWalk e.inst.Adj (pos a) := by
  intro t
  rcases Nat.lt_or_ge t (L a) with before | late
  · obtain ⟨dir, next, -⟩ := follows.steps a boundA t before
    exact (prepared.setting.step_iff (follows.cells a boundA t before.le)).mpr ⟨dir, next⟩
  · exact .inl ((follows.parks a boundA (t + 1) (by omega)).trans
      (follows.parks a boundA t late).symm)

theorem walks (poses : task.Poses e) (prepared : e.Prepared L hi) : task.problem.Walks pos := by
  have bound {a : ℕ} (member : a ∈ task.problem.agents) : a < e.agents :=
    poses.agents ▸ Finset.mem_range.mp member
  constructor
  · intro a member
    exact (follows.starts a (bound member)).trans (by rw [poses.inst]; rfl)
  · intro a member
    have walk := follows.isWalk prepared (bound member)
    rwa [poses.inst] at walk
  · intro a member
    refine ⟨L a, fun t late => ?_⟩
    rw [follows.parks a (bound member) t late, poses.inst]
    rfl

/-- Which position variables are true decides about shared vertices. -/
theorem vertexFree (poses : task.Poses e) (prepared : e.Prepared L hi)
    (regulated : e.Regulated L σ)
    (apart : ∀ a < e.agents, ∀ b < e.agents, a ≠ b →
      ∀ v < e.vertices, ∀ t, ¬(e.At σ a v t ∧ e.At σ b v t)) : task.problem.VertexFree pos := by
  have bound {a : ℕ} (member : a ∈ task.problem.agents) : a < e.agents :=
    poses.agents ▸ Finset.mem_range.mp member
  have goal (a : ℕ) : task.problem.goal a = e.inst.goalOf a := by rw [poses.inst]; rfl
  apply Problem.vertexFree_of_tokens L fun a v t => v < e.vertices ∧ e.At σ a v (t : ℤ)
  · intro a member t late
    rw [goal, follows.parks a (bound member) t late]
  · exact fun a member t le =>
      ⟨follows.cells a (bound member) t le, follows.positions a (bound member) t le⟩
  · exact fun a memA b memB distinct v t here there =>
      apart a (bound memA) b (bound memB) distinct v here.1 t ⟨here.2, there.2⟩
  · intro a memA b memB _ t late before here
    rw [goal] at here
    exact guarded prepared regulated (bound memA) (bound memB) late before here.2

private theorem swap_excluded (prepared : e.Prepared L hi) (apart : e.MovingApart σ)
    (parallel : e.config.movement = .parallel) {a b t : ℕ} (boundA : a < e.agents)
    (boundB : b < e.agents) (distinct : a ≠ b) (beforeA : t < L a) (beforeB : t < L b)
    (moves : pos a (t + 1) ≠ pos a t) :
    ¬(pos a t = pos b (t + 1) ∧ pos a (t + 1) = pos b t) := by
  rintro ⟨sameTail, sameHead⟩
  have setting := prepared.setting
  obtain ⟨dir, next, test⟩ := follows.steps a boundA t beforeA
  obtain ⟨dir', next', test'⟩ := follows.steps b boundB t beforeB
  have cell := follows.cells a boundA t beforeA.le
  have isMove := moves_of_ne next moves
  rw [← sameTail, ← sameHead] at next'
  have opposite : dir' = oppositeDir dir :=
    setting.dir_unique (setting.neighbor_lt cell next) next' (setting.opposite cell next)
  rw [← sameHead] at test'
  subst opposite
  unfold MovingApart KeepsApart at apart
  unfold Candidate at test test'
  cases kind : e.config.variableKind <;>
    simp only [kind, parallel, add_sub_cancel_right] at apart test test'
  · have hereA := follows.positions a boundA t beforeA.le
    have hereB := follows.positions b boundB t beforeB.le
    rw [← sameHead] at hereB
    rw [← sameTail] at test'
    exact apart a boundA b boundB distinct (pos a t) cell dir (pos a (t + 1)) isMove next t
      ⟨⟨hereA, test⟩, hereB, test'⟩
  · exact apart a boundA b boundB distinct (pos a t) cell dir (pos a (t + 1)) isMove next t
      ⟨test, test'⟩
  · exact apart (pos a t) cell dir (pos a (t + 1)) isMove next t ⟨test.2, test'.2⟩

private theorem follow_excluded (prepared : e.Prepared L hi) (apart : e.MovingApart σ)
    (pebble : e.config.movement = .pebble) {a b t : ℕ}
    (boundA : a < e.agents) (boundB : b < e.agents) (distinct : a ≠ b) (beforeA : t < L a)
    (beforeB : t < L b) (movesA : pos a (t + 1) ≠ pos a t) (movesB : pos b (t + 1) ≠ pos b t) :
    pos a (t + 1) ≠ pos b t := by
  intro entered
  obtain ⟨dir, next, test⟩ := follows.steps a boundA t beforeA
  obtain ⟨dir', next', test'⟩ := follows.steps b boundB t beforeB
  have cell := follows.cells a boundA t beforeA.le
  have hereA := follows.positions a boundA t beforeA.le
  have hereB := follows.positions b boundB t beforeB.le
  have isMove := moves_of_ne next movesA
  have isMove' := moves_of_ne next' movesB
  have there : e.At σ a (pos a (t + 1)) ((t : ℤ) + 1) := by
    exact_mod_cast follows.positions a boundA (t + 1) beforeA
  unfold MovingApart KeepsApart at apart
  unfold Candidate at test test'
  cases kind : e.config.variableKind <;>
    simp only [kind, pebble, add_sub_cancel_right] at apart test test'
  · rw [← entered] at hereB
    refine apart a boundA b boundB distinct (pos a (t + 1))
      (prepared.setting.neighbor_lt cell next) (t + 1) ⟨there, ?_⟩
    rwa [add_sub_cancel_right]
  · rw [← entered] at hereB
    exact apart a boundA b boundB distinct (pos a t) cell dir (pos a (t + 1)) isMove next t
      ⟨test, hereB⟩
  · rw [← entered] at test'
    exact apart (pos a t) cell dir (pos a (t + 1)) next dir' isMove' t ⟨test.2, test'.2⟩

/-- A followed plan is valid if the conflict clauses hold. -/
theorem valid (poses : task.Poses e) (prepared : e.Prepared L hi) (regulated : e.Regulated L σ)
    (apart : e.Apart σ) : task.Valid e.config.movement pos := by
  have bound {a : ℕ} (member : a ∈ task.problem.agents) : a < e.agents :=
    poses.agents ▸ Finset.mem_range.mp member
  have vertexFree := follows.vertexFree poses prepared regulated apart.vertex
  have parked : ∀ a ∈ task.problem.agents, ∀ t, L a ≤ t → pos a t = task.problem.goal a := by
    intro a member t late
    rw [follows.parks a (bound member) t late, poses.inst]
    rfl
  refine ⟨follows.walks poses prepared, vertexFree, ?_⟩
  cases movement : e.config.movement with
  | parallel =>
    exact Problem.swapFree_of_moving _ vertexFree parked
      fun a memA b memB distinct t beforeA beforeB moves =>
        follows.swap_excluded prepared apart.moving movement (bound memA) (bound memB) distinct
          beforeA beforeB moves
  | pebble =>
    exact Problem.followFree_of_moving _ vertexFree parked
      fun a memA b memB distinct t beforeA beforeB movesA movesB =>
        follows.follow_excluded prepared apart.moving movement (bound memA) (bound memB)
          distinct beforeA beforeB movesA movesB

/-! ## Cost -/

/-- An agent arrives at most its delay after its shortest path would take it there. -/
theorem arrival_le (poses : task.Poses e) (prepared : e.Prepared L hi)
    (regulated : e.Regulated L σ) (soc : e.config.costFunction = .soc) {a : ℕ} (boundA : a < e.agents) :
    (task.problem.arrival pos a : ℤ) ≤
      e.inst.firstTimestep a (e.inst.goalOf a) + delay (e.LateAt σ a) e.delta := by
  have member : a ∈ task.problem.agents := Finset.mem_range.mpr (poses.lt_ags boundA)
  have goal : task.problem.goal a = e.inst.goalOf a := by rw [poses.inst]; rfl
  have budget := prepared.budget soc a boundA
  have known := (prepared.setting.deadline a boundA).reachable
  by_contra exceeds
  obtain ⟨T, arrival⟩ : ∃ T, task.problem.arrival pos a = T + 1 :=
    ⟨task.problem.arrival pos a - 1, by omega⟩
  have away := Problem.away_before_arrival arrival
  rw [goal] at away
  have before : T < L a := by
    by_contra late
    exact away (follows.parks a boundA T (by omega))
  obtain ⟨d, time⟩ : ∃ d : ℕ, (T : ℤ) = e.inst.firstTimestep a (e.inst.goalOf a) + d :=
    ⟨(T - e.inst.firstTimestep a (e.inst.goalOf a)).toNat, by omega⟩
  have inside : d < e.delta := by omega
  have here := follows.positions a boundA T before.le
  have cell := follows.cells a boundA T before.le
  have late : e.LateAt σ a d := by
    unfold LateAt LateBy afterShortest
    rw [← time]
    cases kind : e.config.duplicates with
    | forbid =>
      have fits := prepared.setting.fits a boundA
      exact fun home => regulated.single kind a boundA T (by omega) (by omega) _ cell _
        (prepared.setting.goalCell a boundA) away ⟨here, home⟩
    | allow => exact ⟨pos a T, cell, away, here⟩
  have := lt_delay inside late
  omega

omit follows in
/-- The cost of a followed plan is within the bound of its formula. -/
theorem cost_le (poses : task.Poses e) (prepared : e.Prepared e.deadline hi)
    (regulated : e.Regulated e.deadline σ) (follows : e.Follows σ e.deadline pos) :
    (task.cost pos e.config.costFunction : ℤ) ≤
      task.lowerBound e.config.costFunction + e.delta := by
  refine poses.cost_le (fun a => delay (e.LateAt σ a) e.delta) follows.parks
    (fun soc a boundA => follows.arrival_le poses prepared regulated soc boundA) fun soc => ?_
  rcases Nat.eq_zero_or_pos e.delta with zero | positive
  · rw [zero]
    simp [delay]
  · exact regulated.bounded soc positive

end Follows

end Encoder

end MAPFEncodings

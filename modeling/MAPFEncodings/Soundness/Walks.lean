import MAPFEncodings.Proofs.Extraction
import MAPFEncodings.Proofs.Formula

/-! # Extraction follows a walk

`GetNextVertex` takes the first direction whose variables are true. There are no clauses which lead
back to the start, and without the clauses against duplicates an agent may have ghost copies, so
the argument is about the greedy walk itself: it keeps the position variable of its current vertex
true, this vertex has a window, and from inside a window the movement clauses provide a next
vertex until the deadline, when only the goal is left.
-/

namespace MAPFEncodings

open Cnf PathFinding

namespace Encoder

variable {e : Encoder} {σ : Valuation} {L : ℕ → ℕ} {hi : ℤ} {pos : ℕ → ℕ → ℕ}

/-! ## `GetNextVertex` -/

/-- The test which `GetNextVertex` makes for the neighbour `u` in a direction. -/
def Candidate (e : Encoder) (σ : Valuation) (a v : ℕ) (dir : Dir) (u : ℕ) (t : ℤ) : Prop :=
  match e.config.variableKind with
  | .at_ => e.At σ a u t
  | .pass => e.Pass σ a v dir (t - 1)
  | .shift => (e.atEntry a u).Covers t ∧ e.Shifts σ v dir (t - 1)

/-- Every answer has passed the test. -/
theorem getNextVertex_sound {a v u : ℕ} {t : ℤ} (chosen : e.getNextVertex σ a v t = some u) :
    ∃ dir, e.inst.getNeighbor v dir = some u ∧ e.Candidate σ a v dir u t := by
  obtain ⟨⟨dir, u'⟩, member, answer⟩ := List.exists_of_findSome?_eq_some chosen
  have next := (Grid.mem_neighbors_iff.mp member).2
  refine ⟨dir, ?_⟩
  unfold Candidate
  dsimp only at answer next
  cases kind : e.config.variableKind <;>
    simp only [kind, Option.ite_none_right_eq_some, Option.some.injEq] at answer <;>
    obtain ⟨test, rfl⟩ := answer
  · exact ⟨next, test⟩
  · exact ⟨next, test⟩
  · exact ⟨next, test.1, (e.shifts_iff_any σ).mpr test.2⟩

/-- Some neighbour which passes the test is enough for an answer. -/
theorem getNextVertex_complete {a v u : ℕ} {dir : Dir} {t : ℤ}
    (next : e.inst.getNeighbor v dir = some u) (test : e.Candidate σ a v dir u t) :
    ∃ u', e.getNextVertex σ a v t = some u' := by
  rw [← Option.isSome_iff_exists, getNextVertex, List.findSome?_isSome_iff]
  refine ⟨(dir, u), Grid.mem_neighbors_iff.mpr ⟨Dir.mem_all dir, next⟩, ?_⟩
  unfold Candidate at test
  cases kind : e.config.variableKind <;> simp only [kind] at test ⊢
  · rw [if_pos (show _ ∧ _ from test)]
    rfl
  · rw [if_pos (show _ ∧ _ from test)]
    rfl
  · rw [if_pos ⟨test.1, (e.shifts_iff_any σ).mp test.2⟩]
    rfl

/-- If only one neighbour can pass the test, it is the answer. -/
theorem getNextVertex_eq {a v u : ℕ} {dir : Dir} {t : ℤ} (next : e.inst.getNeighbor v dir = some u)
    (test : e.Candidate σ a v dir u t)
    (only : ∀ dir' u', e.inst.getNeighbor v dir' = some u' → e.Candidate σ a v dir' u' t → u' = u) :
    e.getNextVertex σ a v t = some u := by
  obtain ⟨u', chosen⟩ := getNextVertex_complete next test
  obtain ⟨dir', next', test'⟩ := getNextVertex_sound chosen
  rw [chosen, only dir' u' next' test']

/-! ## Following -/

/-- Walks on which all variables that the encoding ties to them are true. -/
structure Follows (e : Encoder) (σ : Valuation) (L : ℕ → ℕ) (pos : ℕ → ℕ → ℕ) : Prop where
  starts : ∀ a < e.agents, pos a 0 = e.inst.startOf a
  parks : ∀ a < e.agents, ∀ t, L a ≤ t → pos a t = e.inst.goalOf a
  cells : ∀ a < e.agents, ∀ t, t ≤ L a → pos a t < e.vertices
  positions : ∀ a < e.agents, ∀ t, t ≤ L a → e.At σ a (pos a t) t
  steps : ∀ a < e.agents, ∀ t, t < L a → ∃ dir,
    e.inst.getNeighbor (pos a t) dir = some (pos a (t + 1)) ∧
      e.Candidate σ a (pos a t) dir (pos a (t + 1)) ((t : ℤ) + 1)

/-- With pass variables every step keeps the variable of its edge true. -/
theorem Follows.passes (follows : e.Follows σ L pos) (kind : e.config.variableKind = .pass) {a t : ℕ}
    (bound : a < e.agents) (before : t < L a) : ∃ dir,
      e.inst.getNeighbor (pos a t) dir = some (pos a (t + 1)) ∧ e.Pass σ a (pos a t) dir t := by
  obtain ⟨dir, next, test⟩ := follows.steps a bound t before
  refine ⟨dir, next, ?_⟩
  simpa only [Candidate, kind, add_sub_cancel_right] using test

/-- With shift variables every step keeps the variable shared by all agents true. -/
theorem Follows.shifts (follows : e.Follows σ L pos) (kind : e.config.variableKind = .shift) {a t : ℕ}
    (bound : a < e.agents) (before : t < L a) : ∃ dir,
      e.inst.getNeighbor (pos a t) dir = some (pos a (t + 1)) ∧ e.Shifts σ (pos a t) dir t := by
  obtain ⟨dir, next, test⟩ := follows.steps a bound t before
  refine ⟨dir, next, ?_⟩
  simp only [Candidate, kind, add_sub_cancel_right] at test
  exact test.2

/-- No test succeeds after the deadline. -/
theorem Prepared.not_candidate_goal (prepared : e.Prepared L hi) {a u : ℕ} {dir : Dir}
    (boundA : a < e.agents) (next : e.inst.getNeighbor (e.inst.goalOf a) dir = some u) :
    ¬e.Candidate σ a (e.inst.goalOf a) dir u ((L a : ℤ) + 1) := by
  have setting := prepared.setting
  have goalCell := setting.goalCell a boundA
  have deadline := setting.deadline a boundA
  have boundU := setting.neighbor_lt goalCell next
  have known : 0 ≤ e.inst.firstTimestep a u :=
    (deadline.known_adj ((setting.step_iff goalCell).mpr ⟨dir, next⟩)).mp deadline.reachable
  have dead : ¬e.Alive L a u ((L a : ℤ) + 1) := fun alive => by
    have := deadline.le_deadline known alive
    omega
  intro test
  unfold Candidate at test
  cases kind : e.config.variableKind <;> simp only [kind] at test
  · exact dead ((setting.at_covers_iff prepared.atReady boundA boundU).mp test.1)
  · rw [add_sub_cancel_right] at test
    obtain ⟨u', next', -, alive⟩ :=
      (setting.pass_covers_iff (prepared.passReady kind) boundA goalCell).mp test.1
    rw [next, Option.some.injEq] at next'
    exact dead (next' ▸ alive)
  · exact dead ((setting.at_covers_iff prepared.atReady boundA boundU).mp test.1)

/-- A neighbour which passes the test has a true position variable. -/
theorem Moves.at_of_candidate (moves : e.Moves σ) {a v u : ℕ} {dir : Dir} {t : ℤ}
    (boundA : a < e.agents) (boundV : v < e.vertices) (here : e.At σ a v t)
    (next : e.inst.getNeighbor v dir = some u) (test : e.Candidate σ a v dir u (t + 1)) :
    e.At σ a u (t + 1) := by
  unfold Moves at moves
  unfold Candidate at test
  cases kind : e.config.variableKind <;> simp only [kind, add_sub_cancel_right] at test moves
  · exact test
  · exact moves.1 a boundA v boundV dir u next t test
  · have present : ((e.shiftEntry v dir).var? t).isSome := by
      obtain ⟨x, found, -⟩ := test.2
      simp [found]
    exact (moves.2 a boundA v boundV dir u next t here test.1 present).mp test.2

/-- If some neighbour has a variable, some neighbour passes the test. -/
theorem Moves.exists_candidate (moves : e.Moves σ) (ready : e.Ready hi) {a v u : ℕ} {dir : Dir}
    {t : ℤ} (boundA : a < e.agents) (boundV : v < e.vertices) (here : e.At σ a v t)
    (next : e.inst.getNeighbor v dir = some u) (covers : (e.atEntry a u).Covers (t + 1))
    (nonneg : 0 ≤ t) (before : t < e.maxTimestep) :
    ∃ dir u, e.inst.getNeighbor v dir = some u ∧ e.Candidate σ a v dir u (t + 1) := by
  have windows := ready.windows
  unfold Moves at moves
  unfold Candidate
  cases kind : e.config.variableKind <;> simp only [kind, add_sub_cancel_right] at moves ⊢
  · exact moves a boundA v boundV t here ⟨dir, u, next, covers⟩
  · have edge {dir : Dir} : (e.passEntry a v dir).Covers t ↔ ∃ u,
        e.inst.getNeighbor v dir = some u ∧ (e.atEntry a v).Covers t ∧
          (e.atEntry a u).Covers (t + 1) :=
      windows.pass_covers_iff ready.atReady (ready.passReady kind) boundA boundV
    obtain ⟨dir', covers', holds'⟩ :=
      moves.2 a boundA v boundV t here ⟨dir, edge.mpr ⟨u, next, here.1, covers⟩⟩
    obtain ⟨u', next', -⟩ := edge.mp covers'
    exact ⟨dir', u', next', covers', holds'⟩
  · obtain ⟨dir', u', next', there⟩ := moves.1.1 a boundA v boundV t here ⟨dir, u, next, covers⟩
    have present : ((e.shiftEntry v dir').var? t).isSome := by
      rw [(ready.shiftReady kind).exists_iff v boundV]
      exact ⟨u', next', ⟨nonneg, before⟩, a, boundA,
        (windows.covers_edge ready.atReady boundA boundV next').mpr ⟨here.1, there.1⟩⟩
    exact ⟨dir', u', next', there.1,
      (moves.2 a boundA v boundV dir' u' next' t here there.1 present).mpr there⟩

/-- Before the deadline some neighbour passes the test. -/
theorem Routes.exists_candidate (prepared : e.Prepared L hi) (routes : e.Routes L σ) {a v : ℕ}
    {t : ℕ} (boundA : a < e.agents) (boundV : v < e.vertices) (here : e.At σ a v t)
    (known : 0 ≤ e.inst.firstTimestep a v) (before : t < L a) :
    ∃ dir u, e.inst.getNeighbor v dir = some u ∧ e.Candidate σ a v dir u ((t : ℤ) + 1) := by
  have setting := prepared.setting
  have alive := (setting.at_covers_iff prepared.atReady boundA boundV).mp here.1
  obtain ⟨u, step, aliveU⟩ := (setting.deadline a boundA).alive_step known alive (by omega)
  obtain ⟨dir, next⟩ := (setting.step_iff boundV).mp step
  have coversU := (setting.at_covers_iff prepared.atReady boundA
    (setting.neighbor_lt boundV next)).mpr aliveU
  have fits := setting.fits a boundA
  exact routes.moves.exists_candidate prepared.ready boundA boundV here next coversU (by omega)
    (by omega)

/-- The walk of one agent. -/
private theorem Routes.exists_walk (prepared : e.Prepared L hi) (routes : e.Routes L σ) {a : ℕ}
    (boundA : a < e.agents) : ∃ w : ℕ → ℕ, w 0 = e.inst.startOf a ∧
      (∀ t, L a ≤ t → w t = e.inst.goalOf a) ∧ ∀ t, t ≤ L a →
        follow (fun v t => e.getNextVertex σ a v t) (e.inst.startOf a) t = some (w t) ∧
          w t < e.vertices ∧ 0 ≤ e.inst.firstTimestep a (w t) ∧ e.At σ a (w t) t := by
  have setting := prepared.setting
  have deadline := setting.deadline a boundA
  have walk := @exists_walk_of_follow _ e.inst.Adj (e.inst.startOf a) (e.inst.goalOf a) (L a)
    (fun v t => e.getNextVertex σ a v t)
    (fun v t => v < e.vertices ∧ 0 ≤ e.inst.firstTimestep a v ∧ e.At σ a v t)
    ⟨setting.startCell a boundA, deadline.fromStart.source_eq.ge, routes.starts a boundA⟩
    (fun v t before ⟨boundV, known, here⟩ => by
      obtain ⟨dir, u, next, test⟩ := routes.exists_candidate prepared boundA boundV here known before
      obtain ⟨u', chosen⟩ := getNextVertex_complete next test
      obtain ⟨dir', next', test'⟩ := getNextVertex_sound chosen
      have step := (setting.step_iff boundV).mpr ⟨dir', next'⟩
      refine ⟨u', by exact_mod_cast chosen, step, setting.neighbor_lt boundV next',
        (deadline.known_adj step).mp known, ?_⟩
      exact_mod_cast routes.moves.at_of_candidate boundA boundV here next' test')
    (fun v ⟨boundV, known, here⟩ =>
      deadline.eq_goal known ((setting.at_covers_iff prepared.atReady boundA boundV).mp here.1))
  obtain ⟨w, first, -, parks, reads⟩ := walk
  exact ⟨w, first, parks, fun t bound => reads t bound⟩

/-- Extraction stops at the deadline, so it only has to lead along the walks until then. -/
theorem Prepared.extracts (prepared : e.Prepared L hi)
    (starts : ∀ a < e.agents, pos a 0 = e.inst.startOf a)
    (parks : ∀ a < e.agents, ∀ t, L a ≤ t → pos a t = e.inst.goalOf a)
    (chosen : ∀ a < e.agents, ∀ t : ℕ, t < L a →
      e.getNextVertex σ a (pos a t) ((t : ℤ) + 1) = some (pos a (t + 1))) :
    e.Extracts (fun a v t => e.getNextVertex σ a v t) L pos := by
  have reads : ∀ a < e.agents, ∀ t, t ≤ L a →
      follow (fun v t => e.getNextVertex σ a v t) (e.inst.startOf a) t = some (pos a t) := by
    intro a boundA t
    induction t with
    | zero => exact fun _ => congrArg some (starts a boundA).symm
    | succ t ih =>
      intro before
      rw [follow, ih (by omega)]
      exact_mod_cast chosen a boundA t before
  refine ⟨reads, fun a boundA t late => follow_none (t := L a + 1) ?_ late, parks⟩
  rw [follow, reads a boundA (L a) le_rfl, parks a boundA (L a) le_rfl, Option.bind_some]
  by_contra some
  obtain ⟨u, answer⟩ := Option.ne_none_iff_exists'.mp some
  obtain ⟨dir, next, test⟩ := getNextVertex_sound answer
  exact prepared.not_candidate_goal boundA next (by exact_mod_cast test)

/-- The extracted plan shows walks which the valuation follows. -/
theorem Routes.exists_follows (prepared : e.Prepared L hi) (routes : e.Routes L σ) :
    ∃ pos, e.Follows σ L pos ∧ e.Extracts (fun a v t => e.getNextVertex σ a v t) L pos := by
  choose! w first parks reads using fun a (boundA : a < e.agents) =>
    routes.exists_walk prepared boundA
  have chosen (a : ℕ) (boundA : a < e.agents) (t : ℕ) (before : t < L a) :
      e.getNextVertex σ a (w a t) ((t : ℤ) + 1) = some (w a (t + 1)) := by
    have after := (reads a boundA (t + 1) before).1
    rw [follow, (reads a boundA t before.le).1] at after
    exact_mod_cast after
  exact ⟨w, ⟨first, parks, fun a boundA t le => (reads a boundA t le).2.1,
    fun a boundA t le => (reads a boundA t le).2.2.2,
    fun a boundA t before => getNextVertex_sound (chosen a boundA t before)⟩,
    prepared.extracts first parks chosen⟩

end Encoder

end MAPFEncodings

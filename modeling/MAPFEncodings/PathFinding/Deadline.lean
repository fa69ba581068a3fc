import MAPFEncodings.ToMathlib.Distance

/-! # Walks with a deadline

An agent which must be at its goal at time `L` can be at `v` at time `t` only if `t` is at least
the distance from its start and at most `L` minus the distance to its goal. `Alive` is this window.
From inside it a walk can always continue, so following any choice which stays inside leads to
the goal; conversely every walk which meets the deadline stays inside. An unreachable vertex has
distance `-1` on both sides and therefore a window too, but no walk ever enters it.
-/

namespace PathFinding

open Distance

variable {V : Type*}

/-- Distances from the start and to the goal, on a symmetric graph, with a deadline which the
shortest path meets. -/
structure Deadline (adj : V → V → Prop) (s g : V) (ds dg : V → ℤ) (L : ℕ) : Prop where
  symm : ∀ v u, adj v u → adj u v
  fromStart : IsDistance adj s ds
  toGoal : IsDistance adj g dg
  reachable : 0 ≤ ds g
  fits : ds g ≤ L

/-- The times at which the agent can usefully be at a vertex. -/
def Alive (ds dg : V → ℤ) (L : ℕ) (v : V) (t : ℤ) : Prop := ds v ≤ t ∧ t ≤ L - dg v

namespace Deadline

variable {adj : V → V → Prop} {s g : V} {ds dg : V → ℤ} {L : ℕ}

/-- The vertices reachable from the start are those from which the goal is reachable. -/
theorem known_iff (d : Deadline adj s g ds dg L) {v : V} : 0 ≤ ds v ↔ 0 ≤ dg v := by
  have path := d.fromStart.nonneg_iff.mp d.reachable
  rw [d.fromStart.nonneg_iff, d.toGoal.nonneg_iff]
  exact ⟨fun h => (reachable_symm d.symm path).trans h, fun h => path.trans h⟩

theorem toGoal_start (d : Deadline adj s g ds dg L) : dg s = ds g :=
  swap_endpoints d.symm d.fromStart d.toGoal d.reachable

theorem alive_start (d : Deadline adj s g ds dg L) : Alive ds dg L s 0 := by
  have := d.fits
  exact ⟨d.fromStart.source_eq.le, by rw [d.toGoal_start]; omega⟩

/-- At the deadline only the goal is left. -/
theorem eq_goal (d : Deadline adj s g ds dg L) {v : V} (known : 0 ≤ ds v)
    (alive : Alive ds dg L v L) : v = g := by
  have := d.known_iff.mp known
  exact d.toGoal.eq_source v (by have := alive.2; omega)

theorem le_deadline (d : Deadline adj s g ds dg L) {v : V} {t : ℤ} (known : 0 ≤ ds v)
    (alive : Alive ds dg L v t) : t ≤ L := by
  have := d.known_iff.mp known
  have := alive.2
  omega

theorem known_adj (d : Deadline adj s g ds dg L) {v u : V} (step : u = v ∨ adj v u) :
    0 ≤ ds v ↔ 0 ≤ ds u := by
  rcases step with rfl | edge
  · rfl
  · exact ⟨fun h => (d.fromStart.extend v u edge h).1,
      fun h => (d.fromStart.extend u v (d.symm v u edge) h).1⟩

/-- Adjacent vertices differ by at most one in both tables, also where both are unreachable. -/
theorem near (d : Deadline adj s g ds dg L) {v u : V} (step : u = v ∨ adj v u) :
    ds u ≤ ds v + 1 ∧ dg v ≤ dg u + 1 :=
  ⟨d.fromStart.le_succ d.symm step,
    d.toGoal.le_succ d.symm (step.imp Eq.symm (d.symm v u))⟩

/-- The window of a move is the part of both endpoints' windows that fits together. -/
theorem alive_edge (d : Deadline adj s g ds dg L) {v u : V} (step : u = v ∨ adj v u) {t : ℤ} :
    (ds v ≤ t ∧ t < L - dg u) ↔ Alive ds dg L v t ∧ Alive ds dg L u (t + 1) := by
  have := d.near step
  unfold Alive
  omega

/-- Before the deadline the agent can move on inside the windows. -/
theorem alive_step (d : Deadline adj s g ds dg L) {v : V} {t : ℤ} (known : 0 ≤ ds v)
    (alive : Alive ds dg L v t) (before : t < L) :
    ∃ u, (u = v ∨ adj v u) ∧ Alive ds dg L u (t + 1) := by
  have knownG := d.known_iff.mp known
  by_cases home : dg v = 0
  · exact ⟨v, .inl rfl, by unfold Alive at *; omega⟩
  · obtain ⟨u, edge, closer⟩ := d.toGoal.descend d.symm (v := v) (by omega)
    have := d.near (.inr edge)
    exact ⟨u, .inr edge, by unfold Alive at *; omega⟩

/-- A walk from the start which is at the goal at the deadline stays inside the windows. -/
theorem alive_of_isWalk (d : Deadline adj s g ds dg L) {w : ℕ → V} (walk : IsWalk adj w)
    (first : w 0 = s) (last : w L = g) {t : ℕ} (le : t ≤ L) :
    0 ≤ ds (w t) ∧ Alive ds dg L (w t) t := by
  have out := d.fromStart.le_of_isWalk walk (t := 0) (by rw [first, d.fromStart.source_eq]) t
  rw [Nat.zero_add, first, d.fromStart.source_eq] at out
  obtain ⟨n, same⟩ := Int.eq_ofNat_of_zero_le (d.known_iff.mp out.1)
  refine ⟨out.1, by omega, ?_⟩
  -- read the rest of the walk backwards from the goal
  have back : ∀ k, k ≤ L - t → dg (w (L - k)) ≤ k ∧ 0 ≤ dg (w (L - k)) := by
    intro k
    induction k with
    | zero => exact fun _ => by rw [Nat.sub_zero, last, d.toGoal.source_eq]; simp
    | succ k ih =>
      intro bound
      have before := ih (by omega)
      have index : L - k = L - (k + 1) + 1 := by omega
      rcases walk (L - (k + 1)) with stay | move
      · rw [← index] at stay
        rw [← stay]
        exact ⟨by push_cast; omega, before.2⟩
      · rw [← index] at move
        have step := d.toGoal.extend _ _ (d.symm _ _ move) before.2
        exact ⟨by push_cast; omega, step.1⟩
  have bound := (back (L - t) le_rfl).1
  rw [show L - (L - t) = t by omega] at bound
  omega

/-- The windows hold exactly the positions of walks which meet the deadline. -/
theorem alive_iff_exists_isWalk (d : Deadline adj s g ds dg L) {v : V} {n : ℕ} (le : n ≤ L) :
    (0 ≤ ds v ∧ Alive ds dg L v n) ↔ ∃ w, IsWalk adj w ∧ w 0 = s ∧ w n = v ∧ w L = g := by
  constructor
  · rintro ⟨known, late, early⟩
    obtain ⟨out, sameOut⟩ := Int.eq_ofNat_of_zero_le known
    obtain ⟨back, sameBack⟩ := Int.eq_ofNat_of_zero_le (d.known_iff.mp known)
    obtain ⟨w, walk, first, reaches⟩ := d.fromStart.exists_isWalk sameOut
    obtain ⟨w', walk', first', reaches'⟩ := d.toGoal.exists_isWalk sameBack
    -- walk to `v`, wait there until time `n`, and walk to the goal
    refine ⟨_, (walk.stop out).append (walk'.reverse d.symm back) (n := n) ?_, ?_, ?_, ?_⟩
    · rw [Nat.min_eq_right (by omega), reaches, Nat.sub_zero, reaches']
    · rw [if_pos (Nat.zero_le n), Nat.zero_min, first]
    · rw [if_pos le_rfl, Nat.min_eq_right (by omega), reaches]
    · split
      · obtain rfl : L = n := by omega
        rw [Nat.min_eq_right (by omega), reaches]
        exact d.eq_goal known ⟨late, early⟩
      · rw [Nat.sub_eq_zero_of_le (by omega), first']
  · rintro ⟨w, walk, first, rfl, last⟩
    exact d.alive_of_isWalk walk first last le

end Deadline

/-! ## Following a choice function -/

/-- Follow a partial choice of the next vertex, given the current one and the arrival time. -/
def follow (next : V → ℕ → Option V) (s : V) : ℕ → Option V
  | 0 => some s
  | t + 1 => (follow next s t).bind fun v => next v (t + 1)

/-- A choice which keeps an invariant until the deadline traces a walk to the goal. -/
theorem exists_walk_of_follow {adj : V → V → Prop} {s g : V} {L : ℕ} {next : V → ℕ → Option V}
    {inv : V → ℕ → Prop} (init : inv s 0)
    (step : ∀ v t, t < L → inv v t → ∃ u, next v (t + 1) = some u ∧ (u = v ∨ adj v u) ∧ inv u (t + 1))
    (stop : ∀ v, inv v L → v = g) :
    ∃ w : ℕ → V, w 0 = s ∧ IsWalk adj w ∧ (∀ t, L ≤ t → w t = g) ∧
      ∀ t, t ≤ L → follow next s t = some (w t) ∧ inv (w t) t := by
  have trace : ∀ t, t ≤ L → ∃ v, follow next s t = some v ∧ inv v t := by
    intro t
    induction t with
    | zero => exact fun _ => ⟨s, rfl, init⟩
    | succ t ih =>
      intro bound
      obtain ⟨v, here, keeps⟩ := ih (by omega)
      obtain ⟨u, chosen, -, keeps'⟩ := step v t (by omega) keeps
      exact ⟨u, by rw [follow, here]; exact chosen, keeps'⟩
  have final : follow next s L = some g := by
    obtain ⟨v, here, keeps⟩ := trace L le_rfl
    rw [here, stop v keeps]
  let w : ℕ → V := fun t => if t ≤ L then (follow next s t).getD g else g
  have reads : ∀ t, t ≤ L → follow next s t = some (w t) ∧ inv (w t) t := by
    intro t bound
    obtain ⟨v, here, keeps⟩ := trace t bound
    have same : w t = v := by simp [w, bound, here]
    rw [same]
    exact ⟨here, keeps⟩
  have parked : ∀ t, L ≤ t → w t = g := by
    intro t late
    rcases late.eq_or_lt with rfl | later
    · simp [w, final]
    · simp [w, show ¬t ≤ L by omega]
  refine ⟨w, by simp [w, follow], fun t => ?_, parked, reads⟩
  by_cases before : t < L
  · obtain ⟨u, chosen, moves, -⟩ := step (w t) t before (reads t before.le).2
    have after : follow next s (t + 1) = some u := by
      rw [follow, (reads t before.le).1]
      exact chosen
    rw [(reads (t + 1) before).1, Option.some.injEq] at after
    rwa [after]
  · exact .inl ((parked (t + 1) (by omega)).trans (parked t (by omega)).symm)

/-- A relation which can be continued for `n` timesteps, and keeps an invariant, has a trace. -/
theorem exists_trace {s : V} {n : ℕ} {next : V → ℕ → V → Prop} {inv : V → ℕ → Prop} (init : inv s 0)
    (step : ∀ v t, t < n → inv v t → ∃ u, next v t u ∧ inv u (t + 1)) :
    ∃ w : ℕ → V, w 0 = s ∧ (∀ t, t < n → next (w t) t (w (t + 1))) ∧ ∀ t, t ≤ n → inv (w t) t := by
  have inhabited : Nonempty V := ⟨s⟩
  choose! f leads using step
  let w : ℕ → V := fun t => Nat.rec s (fun t v => f v t) t
  have keeps : ∀ t, t ≤ n → inv (w t) t := by
    intro t
    induction t with
    | zero => exact fun _ => init
    | succ t ih => exact fun before => (leads (w t) t before (ih (Nat.le_of_succ_le before))).2
  exact ⟨w, rfl, fun t before => (leads (w t) t before (keeps t before.le)).1, keeps⟩

/-- Once the choice is undefined, following it stays undefined. -/
theorem follow_none {next : V → ℕ → Option V} {s : V} {t : ℕ} (stuck : follow next s t = none) {r : ℕ}
    (later : t ≤ r) : follow next s r = none := by
  induction r with
  | zero =>
    obtain rfl : t = 0 := by omega
    exact stuck
  | succ r ih =>
    rcases later.eq_or_lt with rfl | lt
    · exact stuck
    · rw [follow, ih (by omega)]
      rfl

end PathFinding

import MAPFEncodings.Soundness.Roaming

/-! # The assignment of roaming agents

Joint walks on which agents roam make exactly the variables true which stand for their positions
and steps. All of them exist: an agent whose goal is cut off has a window at every vertex of its own
component until its walk ends, and at its goal at the goal time. Nowhere does a clause ask for more,
since no vertex from which the agent would have to move on has a neighbour with a variable.
-/

namespace MAPFEncodings

open Cnf PathFinding

namespace Encoder

variable {e : Encoder} {σ : Valuation} {hi : ℤ} {req : Request} {pos : ℕ → ℕ → ℕ}

/-- The valuation makes exactly the variables of joint walks true. -/
structure Shows (e : Encoder) (σ : Valuation) (pos : ℕ → ℕ → ℕ) : Prop where
  positions : ∀ a < e.agents, ∀ v < e.vertices, ∀ t, e.At σ a v t ↔ e.Stands pos a v t
  passes : e.config.variableKind = .pass → ∀ a < e.agents, ∀ v < e.vertices, ∀ dir t,
    e.Pass σ a v dir t ↔ e.Steps pos a v dir t
  shifts : e.config.variableKind = .shift → ∀ v < e.vertices, ∀ dir t,
    e.Shifts σ v dir t ↔ ∃ a < e.agents, e.Steps pos a v dir t

namespace Roams

variable (roams : e.Roams pos) (poses : req.Poses e) (ready : e.Ready hi)
  (steps : e.maxTimestep = e.timesteps)
include roams poses ready steps

section Agent

variable {a : ℕ} (bound : a < e.agents)
include bound

omit steps in
/-- A walk stays on vertices which the agent can reach. -/
theorem known {n : ℕ} (le : (n : ℤ) ≤ e.lastStep a) :
    pos a n < e.vertices ∧ 0 ≤ e.inst.firstTimestep a (pos a n) := by
  have windows := ready.windows
  induction n with
  | zero =>
    rw [roams.starts a bound]
    exact ⟨windows.startCell a bound, (windows.starts a bound).1.ge⟩
  | succ n ih =>
    have before : (n : ℤ) < e.lastStep a := by push_cast at le; omega
    obtain ⟨cell, known⟩ := ih before.le
    obtain ⟨dir, next⟩ := roams.walks a bound n before
    refine ⟨windows.neighbor_lt cell next, ?_⟩
    rcases (windows.step_iff cell).mpr ⟨dir, next⟩ with stay | edge
    · rwa [stay]
    · exact ((poses.fromStart bound).extend _ _ edge known).1

/-- A walk, which stops when it ends. -/
theorem isWalk : Distance.IsWalk e.inst.Adj fun n => pos a (min n (e.lastStep a).toNat) := by
  intro n
  dsimp only
  have last := lastStep_nonneg poses steps bound
  by_cases before : (n : ℤ) < e.lastStep a
  · rw [Nat.min_eq_left (by omega), Nat.min_eq_left (by omega)]
    exact (ready.windows.step_iff (roams.known poses ready bound before.le).1).mpr
      (roams.walks a bound n before)
  · rw [Nat.min_eq_right (by omega), Nat.min_eq_right (by omega)]
    exact .inl rfl

/-- A walk stays inside the windows. -/
theorem covers {n : ℕ} (le : (n : ℤ) ≤ e.lastStep a) : (e.atEntry a (pos a n)).Covers n := by
  have last := lastStep_nonneg poses steps bound
  obtain ⟨cell, known⟩ := roams.known poses ready bound le
  have walk := roams.isWalk poses ready steps bound
  have here : min n (e.lastStep a).toNat = n := Nat.min_eq_left (by omega)
  apply (ready.atReady.covers a bound _ cell n).mpr
  by_cases unreached : e.Unreached a
  · rw [(lastTimestep_of_known poses steps bound known).1 unreached]
    have out := (poses.fromStart bound).le_of_isWalk walk (t := 0) (by
      rw [Nat.zero_min, roams.starts a bound, (poses.fromStart bound).source_eq]) n
    rw [Nat.zero_add, here, Nat.zero_min, roams.starts a bound,
      (poses.fromStart bound).source_eq] at out
    omega
  · rw [(lastTimestep_of_known poses steps bound known).2 unreached]
    have alive := (deadline_of_reached poses steps bound unreached).alive_of_isWalk walk
      (by rw [Nat.zero_min, roams.starts a bound])
      (by
        rw [Nat.min_self]
        apply roams.arrives a bound unreached _
        rw [Int.toNat_of_nonneg last, lastStep, if_neg unreached])
      (t := n) (by omega)
    rw [here] at alive
    have window := alive.2.2
    rw [Int.toNat_of_nonneg last] at window
    exact ⟨alive.2.1, window⟩

/-- Where an agent stands it has a variable. -/
theorem covers_of_stands {v : ℕ} {t : ℤ} (here : e.Stands pos a v t) :
    v < e.vertices ∧ (e.atEntry a v).Covers t := by
  obtain ⟨n, rfl, le, rfl⟩ | ⟨-, rfl, rfl⟩ := here
  · exact ⟨(roams.known poses ready bound le).1, roams.covers poses ready steps bound le⟩
  · rw [← goalTime_eq_due steps]
    exact ⟨ready.windows.goalCell a bound, ready.windows.goal_covers ready.atReady bound⟩

/-- Only on a walk which has not ended is there a neighbour with a variable. -/
theorem walking {v u : ℕ} {dir : Dir} {t : ℤ} (here : e.Stands pos a v t)
    (next : e.inst.getNeighbor v dir = some u) (covers : (e.atEntry a u).Covers (t + 1)) :
    ∃ n : ℕ, t = n ∧ t < e.lastStep a ∧ pos a n = v := by
  have windows := ready.windows
  have cell := (roams.covers_of_stands poses ready steps bound here).1
  have cellU := windows.neighbor_lt cell next
  have window := (ready.atReady.covers a bound u cellU _).mp covers
  have last := poses.lastTimestep_eq bound u
  rw [goalTime_eq_due steps] at last
  have step := (windows.step_iff cell).mpr ⟨dir, next⟩
  have home : v = e.inst.goalOf a → 0 ≤ e.inst.toGoal a u := by
    rintro rfl
    rcases step with rfl | edge
    · exact (poses.toGoal bound).source_eq.ge
    · exact ((poses.toGoal bound).extend _ u edge (poses.toGoal bound).source_eq.ge).1
  obtain ⟨n, rfl, le, rfl⟩ | ⟨-, rfl, rfl⟩ := here
  · refine ⟨n, rfl, le.lt_of_ne fun ended => ?_, rfl⟩
    by_cases unreached : e.Unreached a
    · have known : 0 ≤ e.inst.firstTimestep a u := by
        have knownV := (roams.known poses ready bound le).2
        rcases step with stay | edge
        · rwa [stay]
        · exact ((poses.fromStart bound).extend _ u edge knownV).1
      have until_ := (lastTimestep_of_known poses steps bound known).1 unreached
      omega
    · have same : e.lastStep a = e.due a := if_neg unreached
      have back := home (roams.arrives a bound unreached n (ended.trans same))
      omega
  · have back := home rfl
    omega

end Agent

/-- The tables have all variables which the walks need. -/
theorem exists_shows (free : e.Free) : ∃ σ, e.Shows σ pos := by
  have windows := ready.windows
  obtain ⟨σ, positions, passes, shifts⟩ := free (e.Stands pos) (e.Steps pos)
    fun v dir t => ∃ a < e.agents, e.Steps pos a v dir t
  -- both ends of a step have variables
  have ends {a v : ℕ} {dir : Dir} {t : ℤ} (bound : a < e.agents) (step : e.Steps pos a v dir t) :
      ∃ u, e.inst.getNeighbor v dir = some u ∧
        (e.atEntry a v).Covers t ∧ (e.atEntry a u).Covers (t + 1) := by
    obtain ⟨n, rfl, before, rfl, next⟩ := step
    exact ⟨_, next, roams.covers poses ready steps bound before.le,
      by exact_mod_cast roams.covers poses ready steps bound (n := n + 1) (by push_cast; omega)⟩
  refine ⟨σ, fun a boundA v cell t => ?_, fun kind a boundA v cell dir t => ?_,
    fun kind v cell dir t => ?_⟩
  · rw [positions a boundA v cell t]
    exact and_iff_right_of_imp fun here =>
      (roams.covers_of_stands poses ready steps boundA here).2
  · rw [passes kind a boundA v cell dir t]
    exact and_iff_right_of_imp fun step =>
      (windows.pass_covers_iff ready.atReady (ready.passReady kind) boundA cell).mpr
        (ends boundA step)
  · rw [shifts kind v cell dir t]
    apply and_iff_right_of_imp
    rintro ⟨a, boundA, step⟩
    obtain ⟨u, next, covers⟩ := ends boundA step
    have before := (lastStep_le steps a).2
    have inside := (poses.goalTime_bounds steps boundA).2
    refine ((ready.shiftReady kind).exists_iff v cell dir t).mpr
      ⟨u, next, ?_, a, boundA, (windows.covers_edge ready.atReady boundA cell next).mpr covers⟩
    obtain ⟨n, rfl, lt, -⟩ := step
    omega

end Roams

namespace Shows

variable (shows_ : e.Shows σ pos) (roams : e.Roams pos) (poses : req.Poses e) (ready : e.Ready hi)
  (steps : e.maxTimestep = e.timesteps)
include shows_ roams poses ready steps

/-- From a position with a neighbour which has a variable the walk goes on. -/
theorem exists_step {a v u : ℕ} {dir : Dir} {t : ℤ} (bound : a < e.agents) (cell : v < e.vertices)
    (here : e.At σ a v t) (next : e.inst.getNeighbor v dir = some u)
    (covers : (e.atEntry a u).Covers (t + 1)) : ∃ dir' u', e.inst.getNeighbor v dir' = some u' ∧
      e.Steps pos a v dir' t ∧ ∀ x < e.vertices, e.At σ a x (t + 1) ↔
        x = u' ∨ e.Unreached a ∧ t + 1 = e.due a ∧ x = e.inst.goalOf a := by
  obtain ⟨n, rfl, before, rfl⟩ := roams.walking poses ready steps bound
    ((shows_.positions a bound v cell t).mp here) next covers
  obtain ⟨dir', next'⟩ := roams.walks a bound n before
  refine ⟨dir', _, next', ⟨n, rfl, before, rfl, next'⟩, fun x cellX => ?_⟩
  rw [shows_.positions a bound x cellX]
  refine or_congr ⟨?_, ?_⟩ Iff.rfl
  · rintro ⟨m, time, -, rfl⟩
    obtain rfl : m = n + 1 := by omega
    rfl
  · rintro rfl
    exact ⟨n + 1, by push_cast; rfl, by omega, rfl⟩

theorem nextVertex : e.NextVertex σ := by
  rintro a bound v cell t here ⟨dir, u, next, covers⟩
  obtain ⟨dir', u', next', -, there⟩ :=
    shows_.exists_step roams poses ready steps bound cell here next covers
  exact ⟨dir', u', next', (there u' (ready.windows.neighbor_lt cell next')).mpr (.inl rfl)⟩

omit steps in
/-- A goal which is cut off has no neighbour on the walk. -/
theorem eq_of_step {a v u u' : ℕ} {dir dir' : Dir} {t : ℤ} (bound : a < e.agents)
    (step : e.Steps pos a v dir t) (next : e.inst.getNeighbor v dir = some u)
    (next' : e.inst.getNeighbor v dir' = some u') (there : e.At σ a u' (t + 1)) : dir' = dir := by
  have windows := ready.windows
  obtain ⟨n, rfl, before, rfl, leads⟩ := step
  obtain ⟨cell, known⟩ := roams.known poses ready bound before.le
  have cellU := windows.neighbor_lt cell next'
  obtain ⟨m, time, -, rfl⟩ | ⟨unreached, -, rfl⟩ :=
    (shows_.positions a bound u' cellU _).mp there
  · obtain rfl : m = n + 1 := by omega
    exact windows.dir_unique cell next' leads
  · refine absurd unreached (not_lt.mpr ?_)
    rcases (windows.step_iff cell).mpr ⟨dir', next'⟩ with stay | edge
    · rwa [stay]
    · exact ((poses.fromStart bound).extend _ _ edge known).1

theorem moves : e.Moves σ := by
  have windows := ready.windows
  unfold Moves
  cases kind : e.config.variableKind <;> dsimp only
  · exact shows_.nextVertex roams poses ready steps
  · constructor
    · intro a bound v cell dir u next t pass
      obtain ⟨n, rfl, before, rfl, next'⟩ := (shows_.passes kind a bound v cell dir t).mp pass
      obtain rfl := Option.some.inj (next.symm.trans next')
      exact (shows_.positions a bound _ (windows.neighbor_lt cell next) _).mpr
        (.inl ⟨n + 1, by push_cast; rfl, by omega, rfl⟩)
    · rintro a bound v cell t here ⟨dir, covers⟩
      obtain ⟨u, next, -, covers'⟩ :=
        (windows.pass_covers_iff ready.atReady (ready.passReady kind) bound cell).mp covers
      obtain ⟨dir', -, -, step, -⟩ :=
        shows_.exists_step roams poses ready steps bound cell here next covers'
      exact ⟨dir', (shows_.passes kind a bound v cell dir' t).mpr step⟩
  · refine ⟨⟨shows_.nextVertex roams poses ready steps, ?_⟩, ?_⟩
    · rintro v cell dir dir' distinct t ⟨shift, shift'⟩
      obtain ⟨a, boundA, step⟩ := (shows_.shifts kind v cell dir t).mp shift
      obtain ⟨b, boundB, step'⟩ := (shows_.shifts kind v cell dir' t).mp shift'
      exact distinct (roams.together kind a boundA b boundB v dir dir' t step step')
    · intro a bound v cell dir u next t here covers _
      obtain ⟨dir', u', next', step, there⟩ :=
        shows_.exists_step roams poses ready steps bound cell here next covers
      rw [shows_.shifts kind v cell dir t]
      constructor
      · rintro ⟨b, boundB, step'⟩
        obtain rfl := roams.together kind a bound b boundB v dir' dir t step step'
        obtain rfl := Option.some.inj (next.symm.trans next')
        exact (there u (windows.neighbor_lt cell next)).mpr (.inl rfl)
      · intro arrived
        obtain rfl := shows_.eq_of_step roams poses ready bound step next' next arrived
        exact ⟨a, bound, step⟩

omit poses ready steps in
theorem single (forbid : e.config.duplicates = .forbid) : e.Single σ := by
  rintro a bound t nonneg - v cell u cellU distinct ⟨here, there⟩
  obtain ⟨n, rfl, -, rfl⟩ | ⟨unreached, rfl, -⟩ := (shows_.positions a bound v cell t).mp here
  · obtain ⟨m, time, -, rfl⟩ | ⟨unreached, time, -⟩ :=
      (shows_.positions a bound u cellU _).mp there
    · obtain rfl : n = m := by omega
      exact distinct rfl
    · have early := roams.single forbid a bound unreached
      omega
  · have early := roams.single forbid a bound unreached
    omega

theorem obeys : e.Obeys σ := by
  have windows := ready.windows
  refine ⟨fun a bound => ?_, fun a bound => ?_, fun soc a boundA b boundB t late here => ?_,
    shows_.moves roams poses ready steps, shows_.single roams,
    fun soc positive => ?_⟩
  · exact (shows_.positions a bound _ (windows.startCell a bound) 0).mpr
      (.inl ⟨0, rfl, lastStep_nonneg poses steps bound, roams.starts a bound⟩)
  · have cell := windows.goalCell a bound
    rw [shows_.positions a bound _ cell, goalTime_eq_due steps]
    by_cases unreached : e.Unreached a
    · exact .inr ⟨unreached, rfl, rfl⟩
    · have same : e.lastStep a = e.due a := if_neg unreached
      have last := lastStep_nonneg poses steps bound
      exact .inl ⟨(e.due a).toNat, by omega, by omega,
        roams.arrives a bound unreached _ (by omega)⟩
  · rw [goalTime_eq_due steps] at late
    exact roams.guarded soc a boundA b boundB t late
      ((shows_.positions b boundB _ (windows.goalCell a boundA) t).mp here)
  · refine le_trans (Finset.sum_le_sum fun a member => ?_) (roams.bounded soc positive)
    have bound := Finset.mem_range.mp member
    refine (delay_congr fun d _ => ?_).le
    unfold LateAt LateBy
    cases e.config.duplicates with
    | forbid => exact not_congr (shows_.positions a bound _ (windows.goalCell a bound) _)
    | allow =>
      exact exists_congr fun v => and_congr_right fun cell => and_congr_right fun _ =>
        shows_.positions a bound v cell _

omit poses steps in
theorem apart (eager : e.config.lazyConst = .eager) : e.Apart σ where
  vertex := by
    rintro a boundA b boundB distinct v cell t ⟨here, there⟩
    exact roams.vertex eager a boundA b boundB distinct v cell t
      ⟨(shows_.positions a boundA v cell t).mp here, (shows_.positions b boundB v cell t).mp there⟩
  moving := (roams.moving eager).mono ready.windows
    (fun a bound v cell t => (shows_.positions a bound v cell t).mp)
    (fun kind a bound v cell dir t => (shows_.passes kind a bound v cell dir t).mp)
    fun kind v cell dir t => (shows_.shifts kind v cell dir t).mp

end Shows

/-! ## `CreateFormula` -/

theorem conflictClausesLazy_nil (e : Encoder) : e.conflictClausesLazy ⟨[], [], []⟩ = [] := by
  unfold conflictClausesLazy createConfMovingOnDemand
  split <;> rfl

/-- Without recorded conflicts only eager encodings have conflict clauses. -/
theorem conflictClauses_nil_expresses (ready : e.Ready hi) :
    Expresses hi (e.conflictClauses ⟨[], [], []⟩) fun σ =>
      e.config.lazyConst = .eager → e.Apart σ := by
  unfold conflictClauses
  cases e.config.lazyConst with
  | eager => exact (conflictClausesEager_expresses ready).congr fun σ => by simp
  | lazy =>
    dsimp only
    rw [conflictClausesLazy_nil]
    exact Expresses.nil.congr fun σ => by simp

/-- If every location is looked up inside of a window, the clauses are about positions. -/
theorem createConstAvoid_expresses (ready : e.Ready hi)
    (inside : ∀ a v t, e.Addressed a v t → (e.atEntry a v).Covers t) :
    Expresses hi e.createConstAvoid fun σ => ∀ a v t, e.Addressed a v t → ¬e.At σ a v t := by
  have isVar (a v : ℕ) (t : ℤ) (addressed : e.Addressed a v t) :
      IsVar hi ((e.atEntry a v).var t) :=
    ready.atReady.isVar a addressed.1.1 v (addressed.cell ready.windows) t (inside a v t addressed)
  refine ⟨fun c member => ?_, fun σ => ⟨fun models a v t addressed here => ?_, ?_⟩⟩
  · obtain ⟨a, v, t, addressed, rfl⟩ := mem_createConstAvoid_iff.mp member
    exact (Expresses.unit_neg (isVar a v t addressed)).below _ (List.mem_singleton_self _)
  · have holds := models _ (mem_createConstAvoid_iff.mpr ⟨a, v, t, addressed, rfl⟩)
    exact (holds_unit_neg (isVar a v t addressed).1).mp holds here.2
  · intro away c member
    obtain ⟨a, v, t, addressed, rfl⟩ := mem_createConstAvoid_iff.mp member
    exact (holds_unit_neg (isVar a v t addressed).1).mpr fun true_ =>
      away a v t addressed ⟨inside a v t addressed, true_⟩

/-- Looked up inside of a window, a location has a variable. -/
theorem LooksInside.covers {lib : Externals} {lit : ℤ} (inside : e.LooksInside)
    (poses : req.Poses e) (pos : 1 ≤ lit) {a v : ℕ} {t : ℤ}
    (addressed : (e.createVariables lib lit).1.Addressed a v t) :
    ((e.createVariables lib lit).1.atEntry a v).Covers t := by
  have ready := (createVariables_ready lib lit poses pos).1
  obtain ⟨inst, config, agents, vertices, delta⟩ := createVariables_members e lib lit
  have steps := maxTimestep_createVariables e lib lit
  have cell := addressed.cell ready.windows
  obtain ⟨⟨bound, present⟩, early, s, stored, rfl, looked⟩ := addressed
  rw [ready.atReady.covers a bound v cell, steps, lastTimestep, inst, config, delta]
  rw [inst] at stored looked
  rw [steps] at early
  rw [agents] at bound
  rw [vertices] at cell
  exact inside s stored early v looked a bound (le_of_present_createVariables bound cell present)

/-- Walks on which agents roam are a model of the first formula of a delta. -/
theorem Roams.exists_model {lib : Externals} (contract : AtMostContract lib.encodeAtMostK)
    (roams : e.Roams pos) (poses : req.Poses e) (ready : e.Ready hi)
    (steps : e.maxTimestep = e.timesteps) (free : e.Free) {useAvoid : Bool}
    (shuns : useAvoid = true → e.Shuns pos)
    (inside : useAvoid = true → ∀ a v t, e.Addressed a v t → (e.atEntry a v).Covers t) :
    ∃ σ, Models σ (e.conflictClauses ⟨[], [], []⟩ ++ (e.routeClauses lib hi).1 ++
      if useAvoid then e.createConstAvoid else []) := by
  obtain ⟨σ, shows_⟩ := roams.exists_shows poses ready steps free
  have avoids := Expresses.guard fun avoid => createConstAvoid_expresses ready (inside avoid)
  have block := ((routeClauses_obeys contract ready).withBase
    (conflictClauses_nil_expresses ready)).withBase avoids
  have away (avoid : useAvoid = true) (a v : ℕ) (t : ℤ) (addressed : e.Addressed a v t) :
      ¬e.At σ a v t := by
    intro here
    have boundV := addressed.cell ready.windows
    obtain ⟨⟨bound, -⟩, early, s, stored, rfl, cell⟩ := addressed
    exact shuns avoid s stored (early.trans_eq steps) v cell a bound
      ((shows_.positions a bound v boundV s.t).mp here)
  obtain ⟨τ, -, models⟩ := block.complete
    ⟨⟨shows_.obeys roams poses ready steps, shows_.apart roams ready⟩, away⟩
  refine ⟨τ, ?_⟩
  rw [models_append, models_append] at models ⊢
  exact ⟨⟨models.1.2, models.1.1⟩, models.2⟩

end Encoder

end MAPFEncodings

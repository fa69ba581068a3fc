import MAPFEncodings.Completeness.Assignments
import MAPFEncodings.Soundness.Encodings

/-! # Every cheap plan is a model

The assignment of a valid plan satisfies all clauses over the tables' variables. An agent's delay
is the time between its distance to the goal and its arrival, so the bound of the cost holds for
every plan whose cost is within the bound of the formula.
-/

namespace MAPFEncodings

open Cnf PathFinding

namespace Encoder

variable {e : Encoder} {σ : Valuation} {L : ℕ → ℕ} {hi : ℤ} {pos : ℕ → ℕ → ℕ} {task : Task}

/-- An agent whose position has a successor in the tables has not reached its deadline. -/
theorem Arrives.lt_of_covers (arrives : e.Arrives L pos) (prepared : e.Prepared L hi) {a n u : ℕ}
    {dir : Dir} (bound : a < e.agents) (le : n ≤ L a)
    (next : e.inst.getNeighbor (pos a n) dir = some u)
    (covers : (e.atEntry a u).Covers ((n : ℤ) + 1)) : n < L a := by
  have setting := prepared.setting
  have deadline := setting.deadline a bound
  have cell := arrives.cell setting bound n
  have known := (deadline.alive_of_isWalk (arrives.moves a bound) (arrives.starts a bound)
    (arrives.parks a bound _ le_rfl) le).1
  have knownU := (deadline.known_adj ((setting.step_iff cell).mpr ⟨dir, next⟩)).mp known
  have := deadline.le_deadline knownU
    ((setting.at_covers_iff prepared.atReady bound (setting.neighbor_lt cell next)).mp covers)
  omega

namespace Represents

variable (represents : e.Represents σ L pos)
include represents

/-- The agent's next position has a true variable. -/
theorem at_next (setting : e.Setting L) (arrives : e.Arrives L pos) {a n : ℕ}
    (bound : a < e.agents) (before : n < L a) : e.At σ a (pos a (n + 1)) ((n : ℤ) + 1) :=
  (represents.positions a bound _ (arrives.cell setting bound _) _).mpr
    ⟨n + 1, by push_cast; rfl, before, rfl⟩

/-- Two true variables of one agent at one time are the same. -/
theorem at_unique {a v u : ℕ} {t : ℤ} (bound : a < e.agents) (boundV : v < e.vertices)
    (boundU : u < e.vertices) (here : e.At σ a v t) (there : e.At σ a u t) : v = u := by
  obtain ⟨n, rfl, -, rfl⟩ := (represents.positions a bound v boundV t).mp here
  obtain ⟨m, time, -, rfl⟩ := (represents.positions a bound u boundU _).mp there
  rw [Int.ofNat_inj.mp time]

/-! ## Movement -/

theorem nextVertex (prepared : e.Prepared L hi) (arrives : e.Arrives L pos) : e.NextVertex σ := by
  intro a boundA v boundV t here ⟨dir, u, next, covers⟩
  obtain ⟨n, rfl, le, rfl⟩ := (represents.positions a boundA v boundV t).mp here
  have before := arrives.lt_of_covers prepared boundA le next covers
  obtain ⟨dir', next'⟩ := arrives.exists_dir prepared.setting boundA n
  exact ⟨dir', _, next', represents.at_next prepared.setting arrives boundA before⟩

/-- Only the agent which is at a vertex shifts from it. -/
theorem shifter (kind : e.config.variableKind = .shift)
    (vertexFree : ∀ a < e.agents, ∀ b < e.agents, a ≠ b → ∀ t, pos a t ≠ pos b t) {a v n : ℕ}
    {dir : Dir} (bound : a < e.agents) (boundV : v < e.vertices) (here : pos a n = v)
    (shifts : e.Shifts σ v dir n) : n < L a ∧ e.inst.getNeighbor v dir = some (pos a (n + 1)) := by
  obtain ⟨b, boundB, m, time, before, here', next⟩ :=
    (represents.shifts kind v boundV dir n).mp shifts
  obtain rfl : n = m := by omega
  have same : b = a := by
    by_contra distinct
    exact vertexFree b boundB a bound distinct n (here'.trans here.symm)
  exact same ▸ ⟨before, next⟩

theorem moves (prepared : e.Prepared L hi) (arrives : e.Arrives L pos)
    (vertexFree : ∀ a < e.agents, ∀ b < e.agents, a ≠ b → ∀ t, pos a t ≠ pos b t) : e.Moves σ := by
  have setting := prepared.setting
  unfold Moves
  cases kind : e.config.variableKind <;> dsimp only
  · exact represents.nextVertex prepared arrives
  · constructor
    · intro a boundA v boundV dir u next t pass
      obtain ⟨n, rfl, before, -, next'⟩ := (represents.passes kind a boundA v boundV dir t).mp pass
      obtain rfl := Option.some.inj (next.symm.trans next')
      exact represents.at_next setting arrives boundA before
    · intro a boundA v boundV t here ⟨dir, covers⟩
      obtain ⟨n, rfl, le, rfl⟩ := (represents.positions a boundA v boundV t).mp here
      obtain ⟨u, next, -, alive⟩ :=
        (setting.pass_covers_iff (prepared.passReady kind) boundA boundV).mp covers
      have covers' := (setting.at_covers_iff prepared.atReady boundA
        (setting.neighbor_lt boundV next)).mpr alive
      have before := arrives.lt_of_covers prepared boundA le next covers'
      obtain ⟨dir', next'⟩ := arrives.exists_dir setting boundA n
      exact ⟨dir', (represents.passes kind a boundA _ boundV dir' n).mpr
        ⟨n, rfl, before, rfl, next'⟩⟩
  · refine ⟨⟨represents.nextVertex prepared arrives, ?_⟩, ?_⟩
    · intro v boundV dir dir' distinct t ⟨shift, shift'⟩
      obtain ⟨a, boundA, n, rfl, -, here, next⟩ :=
        (represents.shifts kind v boundV dir t).mp shift
      have next' := (represents.shifter kind vertexFree boundA boundV here shift').2
      exact distinct (setting.dir_unique boundV next next')
    · intro a boundA v boundV dir u next t here covers _
      obtain ⟨n, rfl, le, rfl⟩ := (represents.positions a boundA v boundV t).mp here
      have before := arrives.lt_of_covers prepared boundA le next covers
      constructor
      · intro shift
        obtain ⟨-, next'⟩ := represents.shifter kind vertexFree boundA boundV rfl shift
        obtain rfl := Option.some.inj (next.symm.trans next')
        exact represents.at_next setting arrives boundA before
      · intro there
        have same := represents.at_unique boundA (setting.neighbor_lt boundV next)
          (arrives.cell setting boundA _) there (represents.at_next setting arrives boundA before)
        exact (represents.shifts kind _ boundV dir n).mpr
          ⟨a, boundA, n, rfl, before, rfl, same ▸ next⟩

/-! ## Conflicts -/

theorem movingApart (setting : e.Setting L) (poses : task.Poses e)
    (valid : task.Valid e.config.movement pos) : e.MovingApart σ := by
  have member {a : ℕ} (bound : a < e.agents) : a ∈ task.problem.agents :=
    Finset.mem_range.mpr (poses.lt_ags bound)
  have free := valid.movementFree
  unfold MovingApart KeepsApart
  cases movement : e.config.movement <;> rw [movement] at free <;>
    cases kind : e.config.variableKind <;> dsimp only
  · rintro a boundA b boundB distinct v boundV dir u - next t ⟨⟨tailA, headA⟩, tailB, headB⟩
    have boundU := setting.neighbor_lt boundV next
    obtain ⟨n, rfl, -, atA⟩ := (represents.positions a boundA v boundV t).mp tailA
    obtain ⟨m, time, -, atA'⟩ := (represents.positions a boundA u boundU _).mp headA
    obtain ⟨k, time', -, atB⟩ := (represents.positions b boundB u boundU _).mp tailB
    obtain ⟨l, time'', -, atB'⟩ := (represents.positions b boundB v boundV _).mp headB
    obtain rfl : m = n + 1 := by omega
    obtain rfl : n = k := by omega
    obtain rfl : l = n + 1 := by omega
    exact free a (member boundA) b (member boundB) distinct n
      ⟨atA.trans atB'.symm, atA'.trans atB.symm⟩
  · rintro a boundA b boundB distinct v boundV dir u - next t ⟨passA, passB⟩
    have boundU := setting.neighbor_lt boundV next
    obtain ⟨n, rfl, -, atA, nextA⟩ := (represents.passes kind a boundA v boundV dir t).mp passA
    obtain ⟨m, time, -, atB, nextB⟩ := (represents.passes kind b boundB u boundU _ _).mp passB
    obtain rfl : n = m := by omega
    have atA' := Option.some.inj (next.symm.trans nextA)
    have atB' := Option.some.inj ((setting.opposite boundV next).symm.trans nextB)
    exact free a (member boundA) b (member boundB) distinct n
      ⟨atA.trans atB', atA'.symm.trans atB.symm⟩
  · rintro v boundV dir u isMove next t ⟨shiftA, shiftB⟩
    have boundU := setting.neighbor_lt boundV next
    obtain ⟨a, boundA, n, rfl, -, atA, nextA⟩ := (represents.shifts kind v boundV dir t).mp shiftA
    obtain ⟨b, boundB, m, time, -, atB, nextB⟩ := (represents.shifts kind u boundU _ _).mp shiftB
    obtain rfl : n = m := by omega
    have atA' := Option.some.inj (next.symm.trans nextA)
    have atB' := Option.some.inj ((setting.opposite boundV next).symm.trans nextB)
    have distinct : a ≠ b := by
      rintro rfl
      exact setting.ne_of_moves boundV isMove next (atB.symm.trans atA)
    exact free a (member boundA) b (member boundB) distinct n
      ⟨atA.trans atB', atA'.symm.trans atB.symm⟩
  · rintro a boundA b boundB distinct v boundV t ⟨entered, occupied⟩
    obtain ⟨n, rfl, -, atA⟩ := (represents.positions a boundA v boundV t).mp entered
    obtain ⟨m, time, -, atB⟩ := (represents.positions b boundB v boundV _).mp occupied
    obtain rfl : n = m + 1 := by omega
    exact free a (member boundA) b (member boundB) distinct m (atA.trans atB.symm)
  · rintro a boundA b boundB distinct v boundV dir u - next t ⟨pass, occupied⟩
    obtain ⟨n, rfl, -, -, nextA⟩ := (represents.passes kind a boundA v boundV dir t).mp pass
    obtain ⟨m, time, -, atB⟩ :=
      (represents.positions b boundB u (setting.neighbor_lt boundV next) _).mp occupied
    obtain rfl : n = m := by omega
    have atA' := Option.some.inj (next.symm.trans nextA)
    exact free a (member boundA) b (member boundB) distinct n (atA'.symm.trans atB.symm)
  · rintro v boundV dir u next uDir isMove t ⟨shiftA, shiftB⟩
    have boundU := setting.neighbor_lt boundV next
    obtain ⟨a, boundA, n, rfl, -, -, nextA⟩ := (represents.shifts kind v boundV dir t).mp shiftA
    obtain ⟨b, boundB, m, time, -, atB, nextB⟩ := (represents.shifts kind u boundU uDir _).mp shiftB
    obtain rfl : n = m := by omega
    have atA' := Option.some.inj (next.symm.trans nextA)
    by_cases same : a = b
    · subst same
      exact setting.ne_of_moves boundU isMove nextB atA'.symm
    · exact free a (member boundA) b (member boundB) same n (atA'.symm.trans atB.symm)

theorem apart (setting : e.Setting L) (poses : task.Poses e)
    (valid : task.Valid e.config.movement pos) : e.Apart σ where
  vertex a boundA b boundB distinct v boundV t both := by
    obtain ⟨n, rfl, -, atA⟩ := (represents.positions a boundA v boundV t).mp both.1
    obtain ⟨m, time, -, atB⟩ := (represents.positions b boundB v boundV _).mp both.2
    obtain rfl : n = m := by omega
    exact valid.vertexFree a (Finset.mem_range.mpr (poses.lt_ags boundA)) b
      (Finset.mem_range.mpr (poses.lt_ags boundB)) distinct n (atA.trans atB.symm)
  moving := represents.movingApart setting poses valid

/-! ## Cost -/

/-- Nothing makes an agent late once it has arrived. -/
theorem delay_le (setting : e.Setting L) (budget : e.Budget L) {a T : ℕ} (bound : a < e.agents)
    (late : e.inst.firstTimestep a (e.inst.goalOf a) ≤ T)
    (parked : ∀ t, T ≤ t → pos a t = e.inst.goalOf a) :
    (delay (e.LateAt σ a) e.delta : ℤ) ≤ T - e.inst.firstTimestep a (e.inst.goalOf a) := by
  have known := (setting.deadline a bound).reachable
  obtain ⟨k, time⟩ : ∃ k : ℕ, (k : ℤ) = T - e.inst.firstTimestep a (e.inst.goalOf a) :=
    ⟨(T - e.inst.firstTimestep a (e.inst.goalOf a)).toNat, by omega⟩
  rw [← time, Int.ofNat_le]
  refine delay_le_of_forall fun d le inside => ?_
  have last := budget a bound
  obtain ⟨n, index⟩ : ∃ n : ℕ, (n : ℤ) = e.afterShortest a d :=
    ⟨(e.afterShortest a d).toNat, by unfold afterShortest; omega⟩
  have home : pos a n = e.inst.goalOf a := parked n (by unfold afterShortest at index; omega)
  have here : e.At σ a (e.inst.goalOf a) (e.afterShortest a d) :=
    (represents.positions a bound _ (setting.goalCell a bound) _).mpr
      ⟨n, index.symm, by unfold afterShortest at index; omega, home⟩
  unfold LateAt LateBy
  split
  · exact not_not.mpr here
  · rintro ⟨v, boundV, away, there⟩
    exact away (represents.at_unique bound boundV (setting.goalCell a bound) there here)

end Represents

/-- A plan within the bound of the cost arrives before the deadlines. -/
theorem arrives_of_cost_le (poses : task.Poses e) (walks : task.problem.Walks pos)
    (cheap : (task.cost pos e.config.costFunction : ℤ) ≤
      task.lowerBound e.config.costFunction + e.delta) : e.Arrives e.deadline pos := by
  have member {a : ℕ} (bound : a < e.agents) : a ∈ task.problem.agents :=
    Finset.mem_range.mpr (poses.lt_ags bound)
  refine ⟨fun a bound => ?_, fun a bound => ?_, fun a bound t late => ?_⟩
  · rw [poses.inst]
    exact walks.starts a (member bound)
  · rw [poses.inst]
    exact walks.moves a (member bound)
  · rw [poses.inst]
    refine walks.parked (member bound) (le_trans ?_ late)
    cases kind : e.config.costFunction with
    | mks =>
      rw [kind] at cheap
      change (task.problem.makespan pos : ℤ) ≤ task.inst.getMksLB task.ags + e.delta at cheap
      have arrival := Problem.makespan_le_iff.mp (le_refl (task.problem.makespan pos)) a
        (member bound)
      have last := poses.deadline_mks kind bound
      have steps := poses.timesteps_eq
      omega
    | soc =>
      rw [kind] at cheap
      have last := poses.deadline_soc kind bound
      have exceeds := Task.excess_le walks cheap (poses.lt_ags bound)
      rw [poses.inst] at last
      unfold Task.excess at exceeds
      omega

/-- The assignment of a cheap valid plan satisfies everything that the formula says. -/
theorem Represents.routes (represents : e.Represents σ e.deadline pos)
    (prepared : e.Prepared e.deadline hi) (poses : task.Poses e)
    (valid : task.Valid e.config.movement pos)
    (cheap : (task.cost pos e.config.costFunction : ℤ) ≤
      task.lowerBound e.config.costFunction + e.delta) : e.Routes e.deadline σ := by
  have setting := prepared.setting
  have arrives := arrives_of_cost_le poses valid.walks cheap
  have vertexFree : ∀ a < e.agents, ∀ b < e.agents, a ≠ b → ∀ t, pos a t ≠ pos b t :=
    fun a boundA b boundB => valid.vertexFree a (Finset.mem_range.mpr (poses.lt_ags boundA)) b
      (Finset.mem_range.mpr (poses.lt_ags boundB))
  refine
    { starts := fun a bound => ?_
      goals := fun a bound => ?_
      guarded := fun _ a boundA b boundB t late there => ?_
      moves := represents.moves prepared arrives vertexFree
      single := fun _ a bound t _ _ v boundV u boundU distinct both =>
        distinct (represents.at_unique bound boundV boundU both.1 both.2)
      bounded := fun soc _ => ?_ }
  · exact (represents.positions a bound _ (setting.startCell a bound) _).mpr
      ⟨0, rfl, Nat.zero_le _, arrives.starts a bound⟩
  · exact (represents.positions a bound _ (setting.goalCell a bound) _).mpr
      ⟨_, rfl, le_rfl, arrives.parks a bound _ le_rfl⟩
  · obtain ⟨n, rfl, le, home⟩ :=
      (represents.positions b boundB _ (setting.goalCell a boundA) t).mp there
    have same : b = a := by
      by_contra distinct
      exact vertexFree b boundB a boundA distinct n
        (home.trans (arrives.parks a boundA n (by omega)).symm)
    subst same
    omega
  · rw [soc] at cheap
    refine poses.sum_le _ cheap fun a boundA => ?_
    have member := poses.lt_ags boundA
    have late := Task.excess_nonneg valid.walks member
    unfold Task.excess at late
    rw [← poses.inst] at late
    refine represents.delay_le setting (prepared.budget soc) boundA (by omega) fun t parked => ?_
    rw [poses.inst]
    exact valid.walks.parked (Finset.mem_range.mpr member) parked

end Encoder

section

variable {lib : Externals} {task : Task} {e : Encoder} {lit : ℤ} {pos : ℕ → ℕ → ℕ}

/-- The clauses over prepared tables have a model which is read as a given cheap plan. -/
theorem Encoder.Prepared.exists_model {hi last : ℤ} {F : List Clause} (poses : task.Poses e)
    (prepared : e.Prepared e.deadline hi)
    (block : Block hi last F fun σ => e.Routes e.deadline σ ∧ e.Apart σ)
    (valid : task.Valid e.config.movement pos)
    (cheap : (task.cost pos e.config.costFunction : ℤ) ≤
      task.lowerBound e.config.costFunction + e.delta) :
    ∃ σ, Models σ F ∧ e.Represents σ e.deadline pos ∧
      (e.readPlan σ).Shows task.ags task.inst.goalOf pos := by
  have setting := prepared.setting
  have arrives := Encoder.arrives_of_cost_le poses valid.walks cheap
  obtain ⟨σ, represents⟩ := prepared.exists_represents arrives
  obtain ⟨τ, agree, models⟩ := block.complete
    ⟨represents.routes prepared poses valid cheap, represents.apart setting poses valid⟩
  have represents' := represents.congr prepared agree
  have extracts := prepared.extracts arrives.starts arrives.parks fun a bound t before =>
    represents'.getNextVertex_eq setting arrives
      (fun a boundA b boundB => valid.vertexFree a (Finset.mem_range.mpr (poses.lt_ags boundA)) b
        (Finset.mem_range.mpr (poses.lt_ags boundB))) bound before
  have shows := extracts.shows setting.fits prepared.together
  rw [poses.agents, poses.inst] at shows
  exact ⟨τ, models, represents', shows⟩

/-- A cheap valid plan is read from some model of an eager formula. -/
theorem createFormula_complete (contract : AtMostContract lib.encodeAtMostK) (poses : task.Poses e)
    (eager : e.config.lazyConst = .eager) (first : 1 ≤ lit) {useAvoid : Bool} {conflicts : Conflicts}
    (valid : task.Valid e.config.movement pos)
    (cheap : (task.cost pos e.config.costFunction : ℤ) ≤
      task.lowerBound e.config.costFunction + e.delta) :
    ∃ σ, Models σ (e.createFormula lib true useAvoid lit conflicts).clauses ∧
      ((e.createFormula lib true useAvoid lit conflicts).encoder.readPlan σ).Shows
        task.ags task.inst.goalOf pos := by
  obtain ⟨prepared, block⟩ := e.createFormula_eager contract poses eager first useAvoid conflicts
  obtain ⟨-, config, -, -, delta⟩ := e.createVariables_members lib lit
  rw [← config] at valid
  rw [← config, ← delta] at cheap
  obtain ⟨σ, models, -, shows⟩ :=
    prepared.exists_model (Encoder.createVariables_poses poses) block valid cheap
  exact ⟨σ, models, shows⟩

/-- Every valid plan within the bound of the cost is read from some model of the eager formula. -/
theorem exists_model_of_valid (contract : AtMostContract lib.encodeAtMostK) (poses : task.Poses e)
    (eager : e.config.lazyConst = .eager) (first : 1 ≤ lit) (useAvoid : Bool) (conflicts : Conflicts)
    (valid : task.Valid e.config.movement pos)
    (cheap : (task.cost pos e.config.costFunction : ℤ) ≤
      task.lowerBound e.config.costFunction + e.delta) :
    ∃ σ, Models σ (e.createFormula lib true useAvoid lit conflicts).clauses ∧
      ((e.createFormula lib true useAvoid lit conflicts).encoder.readPlan σ).Shows
        task.ags task.inst.goalOf pos :=
  createFormula_complete contract poses eager first valid cheap

theorem exists_model_of_valid_rows : let f := Formula.rows ⟨.shift, .mks, .pebble, .eager, .forbid⟩ 0
    ∃ σ, Models σ f.clauses ∧
      (f.encoder.readPlan σ).Shows 2 Task.rows.inst.goalOf Task.rowsPlan :=
  exists_model_of_valid binomialAtMost_contract (Task.rows_poses _ _) rfl le_rfl false ⟨[], [], []⟩
    Task.rows_valid (le_trans (Int.ofNat_le.mpr Task.rows_cost) (by decide))

end

end MAPFEncodings

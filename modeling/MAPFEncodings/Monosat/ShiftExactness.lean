import MAPFEncodings.Monosat.ShiftFormula

/-! # Plans and models of the formula with shifts

A shift is true exactly if some agent makes it before its deadline. This satisfies the clauses for
every valid plan within the bound of the cost. Conversely, at most one true shift leaves a node, so
that extraction from any model has no choice but to follow the required walks.
-/

namespace MAPFEncodings

open Cnf PathFinding

namespace Encoder

variable {e : Encoder} {lib : Externals} {task : Task} {σ τ : Valuation} {L : ℕ → ℕ} {hi lit : ℤ}
  {pos : ℕ → ℕ → ℕ}

/-! ## The assignment of a plan -/

/-- Exactly the shifts of the walks are true. -/
def ReadsShifts (e : Encoder) (σ : Valuation) (L : ℕ → ℕ) (pos : ℕ → ℕ → ℕ) : Prop :=
  ∀ v < e.vertices, ∀ dir t, e.Shifts σ v dir t ↔ ∃ a < e.agents, ∃ n : ℕ, t = n ∧ n < L a ∧
    pos a n = v ∧ e.inst.getNeighbor v dir = some (pos a (n + 1))

theorem exists_readsShifts (setting : (e.createShift lit e.timesteps).1.Setting L) (pos' : 1 ≤ lit)
    (arrives : (e.createShift lit e.timesteps).1.Arrives L pos) :
    ∃ σ, (e.createShift lit e.timesteps).1.ReadsShifts σ L pos := by
  have ready := createShift_ready e lit e.timesteps pos'
  let e' := (e.createShift lit e.timesteps).1
  obtain ⟨σ, reads⟩ := (allocates_createShift e lit e.timesteps).exists_valuation fun key =>
    ∃ a < e'.agents, ∃ n : ℕ, key.2.2 = n ∧ n < L a ∧ pos a n = key.1 ∧
      e'.inst.getNeighbor key.1 key.2.1 = some (pos a (n + 1))
  refine ⟨σ, fun v boundV dir t => ?_⟩
  constructor
  · rintro ⟨x, found, holds⟩
    exact (reads (v, dir, t) x ⟨boundV, found⟩).mp holds
  · rintro ⟨a, boundA, n, rfl, before, rfl, next⟩
    have fits := setting.fits a boundA
    have here := arrives.alive setting boundA before.le
    have there := arrives.alive setting boundA (show n + 1 ≤ L a from before)
    obtain ⟨x, found⟩ := Option.isSome_iff_exists.mp
      ((setting.shift_exists_iff ready boundV).mpr ⟨_, next, ⟨by omega, by omega⟩, a, boundA, here,
        by exact_mod_cast there⟩)
    exact ⟨x, found, (reads (_, dir, n) x ⟨boundV, found⟩).mpr
      ⟨a, boundA, n, rfl, before, rfl, next⟩⟩

theorem ReadsShifts.congr (ready : e.ShiftReady hi) (agree : Agree hi σ τ)
    (reads : e.ReadsShifts σ L pos) : e.ReadsShifts τ L pos := fun v boundV dir t =>
  (Shifts.congr ready agree boundV).symm.trans (reads v boundV dir t)

namespace ReadsShifts

variable (reads : e.ReadsShifts σ L pos) (setting : e.Setting L) (arrives : e.Arrives L pos)
include reads setting arrives

theorem carries {a : ℕ} (boundA : a < e.agents) : e.Carries σ a (L a) (pos a) where
  starts := arrives.starts a boundA
  ends := arrives.parks a boundA _ le_rfl
  shifts t before := by
    have cell := arrives.cell setting boundA t
    obtain ⟨dir, next⟩ := arrives.exists_dir setting boundA t
    exact ⟨cell, dir, next, (reads _ cell dir t).mpr ⟨a, boundA, t, rfl, before, rfl, next⟩⟩

/-- The rules hold of the walks of a cheap valid plan. -/
theorem rules (poses : task.Poses e) (valid : task.Valid .parallel pos)
    (cheap : (task.cost pos e.config.costFunction : ℤ) ≤
      task.lowerBound e.config.costFunction + e.delta) : e.ShiftRules L σ := by
  have member {a : ℕ} (bound : a < e.agents) : a ∈ task.problem.agents :=
    Finset.mem_range.mpr (poses.lt_ags bound)
  have vertexFree {a b n : ℕ} (boundA : a < e.agents) (boundB : b < e.agents)
      (meet : pos a n = pos b n) : a = b := by
    by_contra distinct
    exact valid.vertexFree a (member boundA) b (member boundB) distinct n meet
  refine ⟨fun _ a boundA dir t late shifts => ?_, fun v boundV dir u moves next t both => ?_,
    fun v boundV dir dir' distinct t both => ?_,
    fun v boundV dir u next dir' u' next' distinct t both => ?_, fun soc _ => ?_⟩
  · obtain ⟨b, boundB, n, rfl, before, home, -⟩ :=
      (reads _ (setting.goalCell a boundA) dir t).mp shifts
    obtain rfl := vertexFree boundA boundB
      ((arrives.parks a boundA n (by omega)).trans home.symm)
    omega
  · have boundU := setting.neighbor_lt boundV next
    obtain ⟨a, boundA, n, rfl, -, rfl, nextA⟩ := (reads v boundV dir t).mp both.1
    obtain ⟨b, boundB, m, same, -, there, nextB⟩ := (reads u boundU _ _).mp both.2
    obtain rfl : n = m := by exact_mod_cast same
    have head := Option.some.inj (next.symm.trans nextA)
    have tail := Option.some.inj ((setting.opposite boundV next).symm.trans nextB)
    by_cases distinct : a = b
    · subst distinct
      exact setting.ne_of_moves boundV moves next there.symm
    · exact valid.movementFree a (member boundA) b (member boundB) distinct n
        ⟨tail, head.symm.trans there.symm⟩
  · obtain ⟨a, boundA, n, rfl, -, rfl, nextA⟩ := (reads v boundV dir t).mp both.1
    obtain ⟨b, boundB, m, same, -, there, nextB⟩ := (reads _ boundV dir' _).mp both.2
    obtain rfl : n = m := by exact_mod_cast same
    obtain rfl := vertexFree boundA boundB there.symm
    exact distinct (setting.dir_unique boundV nextA nextB)
  · have boundU := setting.neighbor_lt boundV next
    have boundU' := setting.neighbor_lt boundV next'
    obtain ⟨a, boundA, n, rfl, -, here, nextA⟩ := (reads u boundU _ t).mp both.1
    obtain ⟨b, boundB, m, same, -, there, nextB⟩ := (reads u' boundU' _ _).mp both.2
    obtain rfl : n = m := by exact_mod_cast same
    have headA := Option.some.inj ((setting.opposite boundV next).symm.trans nextA)
    have headB := Option.some.inj ((setting.opposite boundV next').symm.trans nextB)
    obtain rfl := vertexFree boundA boundB (headA.symm.trans headB)
    obtain rfl : u = u' := here.symm.trans there
    exact distinct (setting.dir_unique boundV next next')
  · rw [soc] at cheap
    refine poses.sum_le _ cheap fun a boundA => ?_
    have excess := Task.excess_nonneg valid.walks (poses.lt_ags boundA)
    unfold Task.excess at excess
    rw [← poses.inst] at excess
    obtain ⟨k, bound⟩ := Int.eq_ofNat_of_zero_le excess
    rw [bound]
    refine Int.ofNat_le.mpr (delay_le_of_forall fun d after _ late => ?_)
    obtain ⟨dir, u, moves, next, shifts⟩ := late
    have goalCell := setting.goalCell a boundA
    have goal : task.problem.goal a = e.inst.goalOf a := by rw [poses.inst]; rfl
    obtain ⟨b, boundB, n, time, -, here, nextB⟩ :=
      (reads u (setting.neighbor_lt goalCell next) _ _).mp shifts
    unfold afterShortest at time
    have home := Option.some.inj ((setting.opposite goalCell next).symm.trans nextB)
    -- at time `n + 1` the agent itself has arrived
    have parked : pos a (n + 1) = e.inst.goalOf a := by
      rw [← goal]
      exact valid.walks.parked (member boundA) (by omega)
    obtain rfl := vertexFree boundA boundB (parked.trans home)
    have away : pos a n ≠ task.problem.goal a := by
      rw [goal, here]
      exact setting.ne_of_moves goalCell moves next
    have := valid.walks.lt_arrival (member boundA) away
    omega

end ReadsShifts

/-! ## Extraction -/

/-- `GetNextVertex` takes the only true shift. -/
theorem getNextVertexMonosat_of_shifts (kind : e.config.variableKind = .shift)
    (outgoing : ∀ v < e.vertices, ∀ dir dir', dir ≠ dir' →
      ∀ t, ¬(e.Shifts σ v dir t ∧ e.Shifts σ v dir' t)) {a v u : ℕ} (boundV : v < e.vertices) {dir : Dir}
    {t : ℤ} (next : e.inst.getNeighbor v dir = some u) (shifts : e.Shifts σ v dir t) :
    e.getNextVertexMonosat σ a v (t + 1) = some u := by
  have chosen : (e.getNextVertexMonosat σ a v (t + 1)).isSome := by
    rw [getNextVertexMonosat, List.findSome?_isSome_iff]
    refine ⟨(dir, u), Grid.mem_neighbors_iff.mpr ⟨Dir.mem_all dir, next⟩, ?_⟩
    simp only [kind, add_sub_cancel_right]
    rw [if_pos ((e.shifts_iff_any σ).mp shifts)]
    rfl
  obtain ⟨u', chosen⟩ := Option.isSome_iff_exists.mp chosen
  obtain ⟨⟨dir', w⟩, member, answer⟩ := List.exists_of_findSome?_eq_some chosen
  simp only [kind, add_sub_cancel_right, Option.ite_none_right_eq_some, Option.some.injEq] at answer
  obtain ⟨test, rfl⟩ := answer
  have next' := (Grid.mem_neighbors_iff.mp member).2
  obtain rfl : dir = dir' := by
    by_contra distinct
    exact outgoing v boundV dir dir' distinct t ⟨shifts, (e.shifts_iff_any σ).mpr test⟩
  rw [chosen]
  exact next'.symm.trans next

theorem getNextVertexMonosat_eq_none (kind : e.config.variableKind = .shift) {a v : ℕ} {t : ℤ}
    (empty : ∀ dir, ¬e.Shifts σ v dir t) : e.getNextVertexMonosat σ a v (t + 1) = none := by
  rw [getNextVertexMonosat, List.findSome?_eq_none_iff]
  intro p member
  simp only [kind, add_sub_cancel_right]
  exact if_neg fun test => empty p.1 ((e.shifts_iff_any σ).mpr test)

namespace CarriesAll

variable (carries : e.CarriesAll σ L pos) (setting : e.Setting L) (rules : e.ShiftRules L σ)
  (kind : e.config.variableKind = .shift)
include carries setting rules kind

omit setting in
theorem follow_eq {a t : ℕ} (boundA : a < e.agents) (le : t ≤ L a) :
    follow (fun v t => e.getNextVertexMonosat σ a v t) (e.inst.startOf a) t = some (pos a t) := by
  induction t with
  | zero => exact congrArg some (carries.carries a boundA).starts.symm
  | succ t ih =>
    obtain ⟨cell, dir, next, shifts⟩ := (carries.carries a boundA).shifts t le
    rw [follow, ih (by omega), Option.bind_some]
    exact_mod_cast getNextVertexMonosat_of_shifts kind rules.outgoing cell next shifts

/-- The extracted plan shows the required walks. -/
theorem shows (together : e.config.costFunction = .mks → ∀ a < e.agents, (L a : ℤ) + 1 = e.maxTimestep) :
    (e.readPlanMonosat σ).Shows e.agents e.inst.goalOf pos := by
  have follows := fun a (boundA : a < e.agents) t (le : t ≤ L a) =>
    carries.follow_eq rules kind boundA le
  cases cost : e.config.costFunction with
  | mks => exact shows_of_follow cost (together cost) follows carries.parks
  | soc =>
    refine Trails.shows (L := L) ⟨fun a boundA t => ?_, carries.parks⟩ cost setting.fits
    rcases Nat.lt_or_ge (L a) t with late | early
    · refine .inr ⟨follow_none (t := L a + 1) ?_ late,
        fun s after => carries.parks a boundA s (by omega)⟩
      rw [follow, follows a boundA _ le_rfl, Option.bind_some, carries.parks a boundA _ le_rfl]
      exact_mod_cast getNextVertexMonosat_eq_none kind
        fun dir => rules.guarded cost a boundA dir (L a) le_rfl
    · exact .inl (follows a boundA t early)

end CarriesAll

/-! ## The file -/

/-- The file of a call, over the encoder which it leaves behind. -/
theorem createFormulaMonosatShift_eq (e : Encoder) (lib : Externals) :
    let e' := (e.createShift 1 e.timesteps).1
    let hi := (e.createShift 1 e.timesteps).2
    let f := e.createFormulaMonosatShift lib
    f.encoder = e' ∧
      (∀ m n x, Line.edge 0 m n x ∈ f.lines ↔
        Line.edge 0 m n x ∈ (e'.createMoveGraphMonosatShift hi).1) ∧
      ∀ σ lines, (∀ line ∈ f.lines, line.Holds lines σ) ↔
        (∀ line ∈ (e'.createMoveGraphMonosatShift hi).1, line.Holds lines σ) ∧
          Models σ (e'.shiftClauses lib (hi + e'.agents)).1 := by
  intro e' hi f
  obtain ⟨_, -, graph⟩ := createMoveGraphMonosatShift_eq e' hi
  have last : (e'.createMoveGraphMonosatShift hi).2 = hi + e'.agents := by rw [graph]
  have lines : f.lines = (e'.createMoveGraphMonosatShift hi).1 ++
      emitLines .unit (if e'.config.costFunction = .soc then e'.createPossitionNoneAtGoalShift
        else []) ++
      emitLines .conflict e'.createConfSwappingShift ++
      emitLines .move (e'.createMoveExactlyOneShift ++ e'.createMoveExactlyOneIncomingShift) ++
      emitLines .soc (if e'.config.costFunction = .soc ∧ 0 < e'.delta then
        e'.createConstLimitSocShift lib (hi + e'.agents) else ([], hi + e'.agents)).1 := by
    obtain ⟨-, lines, -⟩ := e.createFormulaMonosatShift_lines lib
    rw [last] at lines
    exact lines
  refine ⟨rfl, fun m n x => ?_, fun σ lines' => ?_⟩
  · rw [lines]
    simp only [List.mem_append, edge_notMem_emitLines, or_false]
  · rw [lines]
    simp only [List.forall_mem_append, holds_emitLines, shiftClauses, models_append, and_assoc]

/-- What a model of the file is. -/
theorem satisfiesLines_shift_iff (poses : task.Poses e) :
    let e' := (e.createShift 1 e.timesteps).1
    let hi := (e.createShift 1 e.timesteps).2
    SatisfiesLines σ (e.createFormulaMonosatShift lib).lines ↔
      (∀ a < e'.agents, σ (hi + a) = true ∧ ∃ w, e'.Carries σ a (e.deadline a) w) ∧
        Models σ (e'.shiftClauses lib (hi + e'.agents)).1 := by
  intro e' hi
  have poses' : task.Poses e' := ⟨poses.inst, poses.agents, poses.vertices⟩
  have ready := createShift_ready e 1 e.timesteps le_rfl
  have le : 1 ≤ hi := (allocates_createShift e 1 e.timesteps).le
  obtain ⟨-, edges, holds⟩ := createFormulaMonosatShift_eq e lib
  rw [SatisfiesLines, holds]
  refine and_congr_left fun _ => ?_
  exact holds_shiftGraph_iff (poses'.setting rfl) ready (by omega) edges

/-- Every model of the file is read as a valid plan within the bound of the cost. -/
theorem monosatShift_sound (contract : AtMostContract lib.encodeAtMostK) (poses : task.Poses e)
    (kind : e.config.variableKind = .shift)
    (starts : ∀ a < task.ags, ∀ b < task.ags, a ≠ b → task.inst.startOf a ≠ task.inst.startOf b)
    (goals : ∀ a < task.ags, ∀ b < task.ags, a ≠ b → task.inst.goalOf a ≠ task.inst.goalOf b)
    (satisfies : SatisfiesLines σ (e.createFormulaMonosatShift lib).lines) :
    ∃ pos, ((e.createFormulaMonosatShift lib).encoder.readPlanMonosat σ).Shows task.ags
        task.inst.goalOf pos ∧ task.Valid .parallel pos ∧
      (task.cost pos e.config.costFunction : ℤ) ≤
        task.lowerBound e.config.costFunction + e.delta := by
  let e' := (e.createShift 1 e.timesteps).1
  have poses' : task.Poses e' := ⟨poses.inst, poses.agents, poses.vertices⟩
  have setting : e'.Setting e.deadline := poses'.setting rfl
  have ready := createShift_ready e 1 e.timesteps le_rfl
  have le := (allocates_createShift e 1 e.timesteps).le
  have together : e'.config.costFunction = .mks → ∀ a < e'.agents,
      (e.deadline a : ℤ) + 1 = e'.maxTimestep := fun mks a bound => by
    rw [poses.deadline_mks mks bound, sub_add_cancel]
    rfl
  obtain ⟨routes, models⟩ := (satisfiesLines_shift_iff poses).mp satisfies
  have rules := (shiftClauses_block contract setting ready le
    (le_add_of_nonneg_right (Int.natCast_nonneg _))).sound models
  obtain ⟨pos, carries⟩ := exists_carriesAll fun a boundA => (routes a boundA).2
  have bound {a : ℕ} (boundA : a < e'.agents) : a < task.ags := poses'.lt_ags boundA
  refine ⟨pos, ?_, ?_, ?_⟩
  · rw [← poses'.agents, ← poses'.inst]
    exact carries.shows setting rules kind together
  · refine carries.valid setting rules poses' together (fun a boundA b boundB distinct => ?_)
      fun a boundA b boundB distinct => ?_
    · rw [poses'.inst]
      exact starts a (bound boundA) b (bound boundB) distinct
    · rw [poses'.inst]
      exact goals a (bound boundA) b (bound boundB) distinct
  · refine poses'.cost_le (fun a => delay (e'.LateShift σ a) e'.delta) carries.parks
      (fun soc a boundA => carries.arrival_le setting poses' (poses'.budget soc) boundA) fun soc => ?_
    rcases Nat.eq_zero_or_pos e'.delta with zero | positive
    · rw [zero]
      simp [delay]
    · exact rules.bounded soc positive

/-- Every valid plan within the bound of the cost gives a model of the file. -/
theorem monosatShift_complete (contract : AtMostContract lib.encodeAtMostK) (poses : task.Poses e)
    (valid : task.Valid .parallel pos)
    (cheap : (task.cost pos e.config.costFunction : ℤ) ≤
      task.lowerBound e.config.costFunction + e.delta) :
    ∃ σ, SatisfiesLines σ (e.createFormulaMonosatShift lib).lines := by
  let e' := (e.createShift 1 e.timesteps).1
  let hi := (e.createShift 1 e.timesteps).2
  have poses' : task.Poses e' := ⟨poses.inst, poses.agents, poses.vertices⟩
  have setting : e'.Setting e.deadline := poses'.setting rfl
  have ready := createShift_ready e 1 e.timesteps le_rfl
  have first : 1 ≤ hi := (allocates_createShift e 1 e.timesteps).le
  have arrives : e'.Arrives e.deadline pos := arrives_of_cost_le poses' valid.walks cheap
  obtain ⟨σ, reads⟩ := exists_readsShifts setting le_rfl arrives
  -- the literals of the reach lines come directly after the tables
  let chosen : Valuation := fun x => if x < hi then σ x else true
  have tables : Agree hi σ chosen := fun x _ below => (if_pos below).symm
  have reads' := reads.congr ready tables
  have le : hi ≤ hi + e'.agents := le_add_of_nonneg_right (Int.natCast_nonneg _)
  obtain ⟨τ, agree, models⟩ := (shiftClauses_block contract setting ready first le).complete
    (reads'.rules setting arrives poses' valid cheap)
  refine ⟨τ, (satisfiesLines_shift_iff poses).mpr ⟨fun a boundA => ⟨?_, pos a, ?_⟩, models⟩⟩
  · have inside : (a : ℤ) < e'.agents := Int.ofNat_lt.mpr boundA
    rw [← agree (hi + a) (by omega) (by omega)]
    exact if_neg (by omega)
  · exact (reads'.congr ready (agree.mono le)).carries setting arrives boundA

end Encoder

section

variable {lib : Externals} {task : Task} {e : Encoder}

/-- The file for `variables = shift` has a model exactly if there is a valid plan within the bound of
the cost, and every model is read as such a plan. -/
theorem createFormulaMonosatShift_exact (contract : AtMostContract lib.encodeAtMostK)
    (poses : task.Poses e) (kind : e.config.variableKind = .shift)
    (starts : ∀ a < task.ags, ∀ b < task.ags, a ≠ b → task.inst.startOf a ≠ task.inst.startOf b)
    (goals : ∀ a < task.ags, ∀ b < task.ags, a ≠ b → task.inst.goalOf a ≠ task.inst.goalOf b) :
    let f := e.createFormulaMonosatShift lib
    ((∃ σ, SatisfiesLines σ f.lines) ↔ ∃ pos, task.Valid .parallel pos ∧
      (task.cost pos e.config.costFunction : ℤ) ≤
        task.lowerBound e.config.costFunction + e.delta) ∧
    ∀ σ, SatisfiesLines σ f.lines →
      ∃ pos, (f.encoder.readPlanMonosat σ).Shows task.ags task.inst.goalOf pos ∧
        task.Valid .parallel pos ∧ (task.cost pos e.config.costFunction : ℤ) ≤
          task.lowerBound e.config.costFunction + e.delta := by
  intro f
  have sound : ∀ σ, SatisfiesLines σ f.lines → _ := fun σ satisfies =>
    Encoder.monosatShift_sound contract poses kind starts goals satisfies
  refine ⟨⟨fun ⟨σ, satisfies⟩ => ?_, fun ⟨pos, valid, cheap⟩ =>
    Encoder.monosatShift_complete contract poses valid cheap⟩, sound⟩
  obtain ⟨pos, -, valid, cheap⟩ := sound σ satisfies
  exact ⟨pos, valid, cheap⟩

theorem createFormulaMonosatShift_exact_rows :
    ∃ σ, SatisfiesLines σ ((Encoder.rows ⟨.shift, .mks, .parallel, .eager, .allow⟩ 1
      ).createFormulaMonosatShift .binomial).lines :=
  (createFormulaMonosatShift_exact binomialAtMost_contract (Task.rows_poses _ 1) rfl (by decide)
    (by decide)).1.mpr
    ⟨Task.rowsPlan, ⟨Task.rows_valid.walks, Task.rows_valid.vertexFree, Task.rows_valid.swapFree⟩,
      (Int.ofNat_le.mpr Task.rows_cost).trans (by decide)⟩

end

end MAPFEncodings

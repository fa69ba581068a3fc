import MAPFEncodings.Completeness.Plans
import MAPFEncodings.Monosat.Shift

/-! # Exactness of the formula with shifts

There are no position variables. Vertex conflicts are excluded because every node has at most one
true shift which enters it and at most one which leaves it: two walks which meet have met since the
start. A parked agent is protected because nothing leaves its goal after its deadline.
-/

namespace MAPFEncodings

open Cnf PathFinding

namespace Encoder

variable {e : Encoder} {lib : Externals} {task : Task} {σ τ : Valuation} {L : ℕ → ℕ} {hi lit : ℤ}
  {pos : ℕ → ℕ → ℕ}

/-! ## Clauses -/

/-- Somebody enters the agent's goal at the end of a timestep after its shortest path. -/
def LateShift (e : Encoder) (σ : Valuation) (a d : ℕ) : Prop :=
  ∃ dir u, dir ≠ Dir.wait ∧ e.inst.getNeighbor (e.inst.goalOf a) dir = some u ∧
    e.Shifts σ u (oppositeDir dir) (e.afterShortest a d)

/-- What the clauses of the file besides the requirements of reachability say. -/
structure ShiftRules (e : Encoder) (L : ℕ → ℕ) (σ : Valuation) : Prop where
  guarded : e.config.costFunction = .soc → ∀ a < e.agents, ∀ dir, ∀ t, (L a : ℤ) ≤ t →
    ¬e.Shifts σ (e.inst.goalOf a) dir t
  swap : ∀ v < e.vertices, ∀ dir u, dir ≠ .wait → e.inst.getNeighbor v dir = some u →
    ∀ t, ¬(e.Shifts σ v dir t ∧ e.Shifts σ u (oppositeDir dir) t)
  outgoing : ∀ v < e.vertices, ∀ dir dir', dir ≠ dir' →
    ∀ t, ¬(e.Shifts σ v dir t ∧ e.Shifts σ v dir' t)
  incoming : ∀ v < e.vertices, ∀ dir u, e.inst.getNeighbor v dir = some u →
    ∀ dir' u', e.inst.getNeighbor v dir' = some u' → dir ≠ dir' →
      ∀ t, ¬(e.Shifts σ u (oppositeDir dir) t ∧ e.Shifts σ u' (oppositeDir dir') t)
  bounded : e.config.costFunction = .soc → 0 < e.delta →
    ∑ a ∈ Finset.range e.agents, delay (e.LateShift σ a) e.delta ≤ e.delta

/-- The clauses of the file besides the requirements of reachability. -/
def shiftClauses (e : Encoder) (lib : Externals) (lit : ℤ) : List Clause × ℤ :=
  let positions := if e.config.costFunction = .soc then e.createPossitionNoneAtGoalShift else []
  let cost := if e.config.costFunction = .soc ∧ 0 < e.delta then e.createConstLimitSocShift lib lit
    else ([], lit)
  (positions ++ e.createConfSwappingShift ++
    (e.createMoveExactlyOneShift ++ e.createMoveExactlyOneIncomingShift) ++ cost.1, cost.2)

theorem shiftClauses_block (contract : AtMostContract lib.encodeAtMostK) (setting : e.Setting L)
    (ready : e.ShiftReady hi) (pos : 1 ≤ hi) (le : hi ≤ lit) :
    Block lit (e.shiftClauses lib lit).2 (e.shiftClauses lib lit).1 (e.ShiftRules L) := by
  have positions := Expresses.guard fun _ : e.config.costFunction = .soc =>
    (createPossitionNoneAtGoalShift_expresses setting ready).mono le
  have swapping := (createConfSwappingShift_expresses setting.windows ready).mono le
  have moves := ((createMoveExactlyOneShift_expresses ready).append
    (createMoveExactlyOneIncomingShift_expresses setting.windows ready)).mono le
  have cost : Block lit
      (if e.config.costFunction = .soc ∧ 0 < e.delta then e.createConstLimitSocShift lib lit
        else ([], lit)).2
      (if e.config.costFunction = .soc ∧ 0 < e.delta then e.createConstLimitSocShift lib lit
        else ([], lit)).1
      fun σ => e.config.costFunction = .soc → 0 < e.delta →
        ∑ a ∈ Finset.range e.agents, delay (e.LateShift σ a) e.delta ≤ e.delta := by
    by_cases bounded : e.config.costFunction = .soc ∧ 0 < e.delta
    · rw [if_pos bounded]
      refine (createConstLimitSocShift_block contract setting ready pos le).congr fun σ => ?_
      simp only [bounded, forall_const]
      rfl
    · rw [if_neg bounded]
      exact Expresses.nil.block.congr fun σ => by
        simpa using fun soc positive => absurd ⟨soc, positive⟩ bounded
  refine (((cost.withBase positions).withBase swapping).withBase moves |>.of_mem_iff fun c => ?_).congr
    fun σ => ?_
  · simp only [shiftClauses, List.mem_append]
    tauto
  · constructor
    · rintro ⟨⟨⟨bounded, guarded⟩, swap⟩, outgoing, incoming⟩
      exact ⟨guarded, swap, outgoing, incoming, bounded⟩
    · rintro ⟨guarded, swap, outgoing, incoming, bounded⟩
      exact ⟨⟨⟨bounded, guarded⟩, swap⟩, outgoing, incoming⟩

/-! ## Walks on shifts -/

/-- Walks of all agents on true shifts. -/
structure CarriesAll (e : Encoder) (σ : Valuation) (L : ℕ → ℕ) (pos : ℕ → ℕ → ℕ) : Prop where
  carries : ∀ a < e.agents, e.Carries σ a (L a) (pos a)
  parks : ∀ a < e.agents, ∀ t, L a ≤ t → pos a t = e.inst.goalOf a

theorem exists_carriesAll (walks : ∀ a < e.agents, ∃ w, e.Carries σ a (L a) w) :
    ∃ pos, e.CarriesAll σ L pos := by
  choose! w carries using walks
  obtain ⟨pos, early, late⟩ : ∃ pos : ℕ → ℕ → ℕ, (∀ a t, t ≤ L a → pos a t = w a t) ∧
      ∀ a t, L a < t → pos a t = e.inst.goalOf a :=
    ⟨fun a t => if t ≤ L a then w a t else e.inst.goalOf a, fun _ _ le => if_pos le,
      fun _ _ lt => if_neg (by omega)⟩
  refine ⟨pos, fun a bound => ⟨?_, ?_, fun t before => ?_⟩, fun a bound t after => ?_⟩
  · rw [early a 0 (Nat.zero_le _), (carries a bound).starts]
  · rw [early a _ le_rfl, (carries a bound).ends]
  · rw [early a t before.le, early a (t + 1) before]
    exact (carries a bound).shifts t before
  · rcases after.eq_or_lt with rfl | lt
    · rw [early a _ le_rfl, (carries a bound).ends]
    · exact late a t lt

namespace CarriesAll

variable (carries : e.CarriesAll σ L pos) (setting : e.Setting L) (rules : e.ShiftRules L σ)
  {a b t : ℕ}
include carries

include setting rules

/-- Walks which are at one vertex were at one vertex before. -/
theorem met_before (boundA : a < e.agents) (boundB : b < e.agents) (beforeA : t < L a)
    (beforeB : t < L b) (meet : pos a (t + 1) = pos b (t + 1)) : pos a t = pos b t := by
  obtain ⟨cellA, dirA, nextA, shiftA⟩ := (carries.carries a boundA).shifts t beforeA
  obtain ⟨cellB, dirB, nextB, shiftB⟩ := (carries.carries b boundB).shifts t beforeB
  have backA := setting.opposite cellA nextA
  have backB := setting.opposite cellB nextB
  rw [← meet] at backB
  have same : oppositeDir dirA = oppositeDir dirB := by
    by_contra distinct
    refine rules.incoming _ (setting.neighbor_lt cellA nextA) _ _ backA _ _ backB distinct t ⟨?_, ?_⟩
    · rwa [show oppositeDir (oppositeDir dirA) = dirA by cases dirA <;> rfl]
    · rwa [show oppositeDir (oppositeDir dirB) = dirB by cases dirB <;> rfl]
  rw [same] at backA
  exact Option.some.inj (backA.symm.trans backB)

theorem apart (starts : e.inst.startOf a ≠ e.inst.startOf b) (boundA : a < e.agents)
    (boundB : b < e.agents) (leA : t ≤ L a) (leB : t ≤ L b) : pos a t ≠ pos b t := by
  induction t with
  | zero =>
    rw [(carries.carries a boundA).starts, (carries.carries b boundB).starts]
    exact starts
  | succ t ih =>
    exact fun meet => ih (by omega) (by omega)
      (carries.met_before setting rules boundA boundB leA leB meet)

omit setting in
/-- Nobody is at a goal after its agent's deadline but before the own one. -/
theorem avoids_parked (soc : e.config.costFunction = .soc) (goals : e.inst.goalOf a ≠ e.inst.goalOf b)
    (boundA : a < e.agents) (boundB : b < e.agents) (late : L a < t) (before : t ≤ L b) :
    pos b t ≠ e.inst.goalOf a := by
  intro there
  rcases before.lt_or_eq with before | rfl
  · obtain ⟨-, dir, -, shifts⟩ := (carries.carries b boundB).shifts t before
    rw [there] at shifts
    exact rules.guarded soc a boundA dir t (by omega) shifts
  · rw [carries.parks b boundB _ le_rfl] at there
    exact goals there.symm

omit rules in
theorem isWalk (boundA : a < e.agents) : Distance.IsWalk e.inst.Adj (pos a) := by
  intro t
  rcases Nat.lt_or_ge t (L a) with before | late
  · obtain ⟨cell, dir, next, -⟩ := (carries.carries a boundA).shifts t before
    exact (setting.step_iff cell).mpr ⟨dir, next⟩
  · exact .inl ((carries.parks a boundA (t + 1) (by omega)).trans
      (carries.parks a boundA t late).symm)

/-- Walks on true shifts from different starts to different goals form a valid plan. -/
theorem valid (poses : task.Poses e)
    (together : e.config.costFunction = .mks → ∀ a < e.agents, (L a : ℤ) + 1 = e.maxTimestep)
    (starts : ∀ a < e.agents, ∀ b < e.agents, a ≠ b → e.inst.startOf a ≠ e.inst.startOf b)
    (goals : ∀ a < e.agents, ∀ b < e.agents, a ≠ b → e.inst.goalOf a ≠ e.inst.goalOf b) :
    task.Valid .parallel pos := by
  have bound {a : ℕ} (member : a ∈ task.problem.agents) : a < e.agents :=
    poses.agents ▸ Finset.mem_range.mp member
  have goal (a : ℕ) : task.problem.goal a = e.inst.goalOf a := by rw [poses.inst]; rfl
  have parked : ∀ a ∈ task.problem.agents, ∀ t, L a ≤ t → pos a t = task.problem.goal a := by
    intro a member t late
    rw [goal, carries.parks a (bound member) t late]
  have vertexFree : task.problem.VertexFree pos := by
    refine Problem.vertexFree_of_tokens L (fun a v t => t ≤ L a ∧ pos a t = v) parked
      (fun a _ t le => ⟨le, rfl⟩) ?_ ?_
    · intro a memA b memB distinct v t here there
      exact carries.apart setting rules (starts a (bound memA) b (bound memB) distinct) (bound memA)
        (bound memB) here.1 there.1 (here.2.trans there.2.symm)
    · intro a memA b memB distinct t late before there
      rw [goal] at there
      cases kind : e.config.costFunction with
      | mks =>
        have lastA := together kind a (bound memA)
        have lastB := together kind b (bound memB)
        omega
      | soc =>
        exact carries.avoids_parked rules kind (goals a (bound memA) b (bound memB) distinct)
          (bound memA) (bound memB) late before there.2
  refine ⟨⟨fun a member => ?_, fun a member => ?_, fun a member => ⟨L a, parked a member⟩⟩,
    vertexFree, ?_⟩
  · rw [(carries.carries a (bound member)).starts, poses.inst]
    rfl
  · have walk := carries.isWalk setting (bound member)
    rwa [poses.inst] at walk
  · refine Problem.swapFree_of_moving L vertexFree parked
      fun a memA b memB distinct t beforeA beforeB moves swap => ?_
    obtain ⟨cell, dir, next, shifts⟩ := (carries.carries a (bound memA)).shifts t beforeA
    obtain ⟨-, dir', next', shifts'⟩ := (carries.carries b (bound memB)).shifts t beforeB
    rw [← swap.1, ← swap.2] at next'
    rw [← swap.2] at shifts'
    obtain rfl : dir' = oppositeDir dir :=
      setting.dir_unique (setting.neighbor_lt cell next) next' (setting.opposite cell next)
    exact rules.swap _ cell dir _ (fun wait => moves (by
      subst wait
      exact (Option.some.inj next).symm)) next t ⟨shifts, shifts'⟩

omit rules in
/-- An agent arrives at most its delay after its shortest path would take it there. -/
theorem arrival_le (poses : task.Poses e) (budget : e.Budget L) (boundA : a < e.agents) :
    (task.problem.arrival pos a : ℤ) ≤
      e.inst.firstTimestep a (e.inst.goalOf a) + delay (e.LateShift σ a) e.delta := by
  have goal : task.problem.goal a = e.inst.goalOf a := by rw [poses.inst]; rfl
  have last := budget a boundA
  have known := (setting.deadline a boundA).reachable
  by_contra exceeds
  obtain ⟨T, arrival⟩ : ∃ T, task.problem.arrival pos a = T + 1 :=
    ⟨task.problem.arrival pos a - 1, by omega⟩
  have away := Problem.away_before_arrival arrival
  have walks : ∃ N, ∀ t, N ≤ t → pos a t = task.problem.goal a :=
    ⟨L a, fun t late => by rw [goal, carries.parks a boundA t late]⟩
  have home : pos a (T + 1) = e.inst.goalOf a := by
    rw [← goal, ← arrival]
    exact Nat.sInf_mem walks _ le_rfl
  rw [goal] at away
  have before : T < L a := by
    by_contra late
    exact away (carries.parks a boundA T (by omega))
  obtain ⟨d, time⟩ : ∃ d : ℕ, (T : ℤ) = e.inst.firstTimestep a (e.inst.goalOf a) + d :=
    ⟨(T - e.inst.firstTimestep a (e.inst.goalOf a)).toNat, by omega⟩
  obtain ⟨cell, dir, next, shifts⟩ := (carries.carries a boundA).shifts T before
  rw [home] at next
  have late : e.LateShift σ a d := by
    refine ⟨oppositeDir dir, pos a T, fun wait => away ?_, setting.opposite cell next, ?_⟩
    · have stays : dir = .wait := by cases dir <;> first | rfl | cases wait
      subst stays
      exact Option.some.inj next
    · rw [show oppositeDir (oppositeDir dir) = dir by cases dir <;> rfl, afterShortest, ← time]
      exact shifts
  have := lt_delay (show d < e.delta by omega) late
  omega

end CarriesAll

end Encoder

end MAPFEncodings

import MAPFEncodings.Proofs.MovementClauses
import Mathlib.Algebra.BigOperators.Group.Finset.Basic
import Mathlib.Algebra.Order.BigOperators.Group.Finset
import Mathlib.Algebra.BigOperators.Group.List.Basic

/-! # The meaning of the cost clauses

The three functions `CreateConst_LimitSoc*` differ in what makes an agent late. In each of them the
late variables of an agent form a chain, so the number of true ones is at least the agent's delay,
and the at-most-one constraint bounds the sum of the delays.
-/

namespace MAPFEncodings

open Cnf

/-! ## Delays -/

open Classical in
/-- One past the largest `d < n` with `P d`, or zero. -/
noncomputable def delay (P : ℕ → Prop) : ℕ → ℕ
  | 0 => 0
  | n + 1 => if P n then n + 1 else delay P n

section Delay

variable {P : ℕ → Prop} {n d : ℕ}

theorem delay_le (P : ℕ → Prop) (n : ℕ) : delay P n ≤ n := by
  induction n with
  | zero => rfl
  | succ n ih =>
    unfold delay
    split
    · exact le_rfl
    · omega

theorem lt_delay (bound : d < n) (holds : P d) : d < delay P n := by
  induction n with
  | zero => omega
  | succ n ih =>
    unfold delay
    split
    · exact bound
    · next fails =>
      have : d ≠ n := by rintro rfl; exact fails holds
      exact ih (by omega)

theorem delay_spec (late : delay P n = d + 1) : d < n ∧ P d := by
  induction n with
  | zero => simp [delay] at late
  | succ n ih =>
    unfold delay at late
    split at late
    · next holds =>
      obtain rfl : n = d := by omega
      exact ⟨by omega, holds⟩
    · have := ih late
      exact ⟨by omega, this.2⟩

theorem delay_congr {Q : ℕ → Prop} (same : ∀ d < n, (P d ↔ Q d)) : delay P n = delay Q n := by
  induction n with
  | zero => rfl
  | succ n ih =>
    have rest := ih fun d bound => same d (by omega)
    have here := same n (by omega)
    unfold delay
    by_cases holds : P n
    · rw [if_pos holds, if_pos (here.mp holds)]
    · rw [if_neg holds, if_neg (mt here.mpr holds), rest]

/-- Whoever is late less often is delayed less. -/
theorem delay_mono {Q : ℕ → Prop} (imp : ∀ d, P d → Q d) : delay P n ≤ delay Q n := by
  cases late : delay P n with
  | zero => exact Nat.zero_le _
  | succ d =>
    obtain ⟨bound, holds⟩ := delay_spec late
    exact lt_delay bound (imp d holds)

/-- The delay is at most `k` if nothing happens from `k` on. -/
theorem delay_le_of_forall {k : ℕ} (none : ∀ d, k ≤ d → d < n → ¬P d) : delay P n ≤ k := by
  by_contra exceeds
  obtain ⟨d, late⟩ : ∃ d, delay P n = d + 1 := ⟨delay P n - 1, by omega⟩
  have := delay_spec late
  exact none d (by omega) this.1 this.2

end Delay

/-! ## The chain of late variables -/

namespace Encoder

variable {e : Encoder} {lib : Externals}

/-- The variable for agent `a` being late by more than `d` timesteps. -/
def lateVar (e : Encoder) (lit : ℤ) (a d : ℕ) : ℤ := lit + (a : ℤ) * e.delta + d

/-- The variables of the cost bound in the order of their creation. -/
def lateVars (e : Encoder) (lit : ℤ) : List ℤ :=
  (List.range e.agents).flatMap fun a => (List.range e.delta).map (e.lateVar lit a)

/-- What the clauses say about the late variables. -/
def Late (e : Encoder) (lit : ℤ) (trig : ℕ → ℕ → Valuation → Prop) (σ : Valuation) : Prop :=
  ∀ a < e.agents, ∀ d < e.delta, (trig a d σ → σ (e.lateVar lit a d) = true) ∧
    (d + 1 < e.delta → σ (e.lateVar lit a (d + 1)) = true → σ (e.lateVar lit a d) = true)

theorem limitLate_eq (triggers : ℕ → ℕ → ℤ → List Clause) (lit : ℤ) :
    e.limitLate lib triggers lit =
      (((List.range e.agents).flatMap fun a => (List.range e.delta).flatMap fun d =>
          triggers a d (e.lateVar lit a d) ++
            if (d : ℤ) < e.delta - 1 then [[e.lateVar lit a d, -(e.lateVar lit a d + 1)]] else []) ++
        (lib.encodeAtMostK (e.lateVars lit) e.delta (lit + (e.agents : ℤ) * e.delta)).2,
      (lib.encodeAtMostK (e.lateVars lit) e.delta (lit + (e.agents : ℤ) * e.delta)).1 + 1) := by
  have inner (a : ℕ) (r : ℤ) := List.mapState_range_counter (fun (lit : ℤ) (d : ℕ) =>
    ((triggers a d lit ++ if (d : ℤ) < e.delta - 1 then [[lit, -(lit + 1)]] else [], lit), lit + 1))
    r 1 e.delta fun _ _ => rfl
  unfold limitLate
  simp only [inner, mul_one]
  rw [List.mapState_range_counter _ lit e.delta e.agents fun _ _ => rfl]
  simp only [lateVars, lateVar, ← List.flatMap_def, List.map_flatMap, List.flatMap_assoc,
    List.map_map, List.flatMap_map]
  rfl

section Chain

variable {lo lit : ℤ}

private theorem lateVar_lt {a d : ℕ} (boundA : a < e.agents) (boundD : d < e.delta) :
    e.lateVar lit a d < lit + (e.agents : ℤ) * e.delta := by
  have rows : (a + 1) * e.delta ≤ e.agents * e.delta := Nat.mul_le_mul_right _ boundA
  have rows' : ((a : ℤ) + 1) * e.delta ≤ e.agents * e.delta := by exact_mod_cast rows
  rw [add_mul, one_mul] at rows'
  unfold lateVar
  omega

variable (e lit) in
private theorem le_lateVar (a d : ℕ) : lit ≤ e.lateVar lit a d := by
  have : (0 : ℤ) ≤ (a : ℤ) * e.delta := by positivity
  unfold lateVar
  omega

variable (e lit) in
/-- The late variables are numbered without gaps from the next unused variable. -/
theorem allocates_lateVar : Allocates (fun (key : ℕ × ℕ) x =>
      key.1 < e.agents ∧ key.2 < e.delta ∧ e.lateVar lit key.1 key.2 = x)
    lit (lit + (e.agents : ℤ) * e.delta) where
  le := by
    have : (0 : ℤ) ≤ (e.agents : ℤ) * e.delta := by positivity
    omega
  bounds := by
    rintro ⟨a, d⟩ x ⟨boundA, boundD, rfl⟩
    exact ⟨le_lateVar e lit a d, lateVar_lt boundA boundD⟩
  inj := by
    rintro ⟨a, d⟩ ⟨a', d'⟩ x ⟨-, boundD, rfl⟩ ⟨-, boundD', same⟩
    have positions : a' * e.delta + d' = a * e.delta + d := by
      unfold lateVar at same
      exact_mod_cast (by linarith : (a' : ℤ) * e.delta + d' = a * e.delta + d)
    have digits {b c : ℕ} (boundC : c < e.delta) :
        (b * e.delta + c) / e.delta = b ∧ (b * e.delta + c) % e.delta = c := by
      rw [mul_comm, Nat.mul_add_div (by omega), Nat.div_eq_of_lt boundC, Nat.mul_add_mod,
        Nat.mod_eq_of_lt boundC]
      exact ⟨rfl, rfl⟩
    have here := digits (b := a) boundD
    have there := digits (b := a') boundD'
    rw [positions] at there
    exact Prod.ext (here.1.symm.trans there.1) (here.2.symm.trans there.2)

private theorem chain_expresses {triggers : ℕ → ℕ → ℤ → List Clause}
    {trig : ℕ → ℕ → Valuation → Prop} (pos : 1 ≤ lit)
    (forced : ∀ a < e.agents, ∀ d < e.delta, ∀ x hi, IsVar hi x → lit ≤ hi →
      Expresses hi (triggers a d x) fun σ => trig a d σ → σ x = true) :
    Expresses (lit + (e.agents : ℤ) * e.delta)
      ((List.range e.agents).flatMap fun a => (List.range e.delta).flatMap fun d =>
        triggers a d (e.lateVar lit a d) ++
          if (d : ℤ) < e.delta - 1 then [[e.lateVar lit a d, -(e.lateVar lit a d + 1)]] else [])
      (e.Late lit trig) := by
  have isVar {a d : ℕ} (boundA : a < e.agents) (boundD : d < e.delta) :
      IsVar (lit + (e.agents : ℤ) * e.delta) (e.lateVar lit a d) :=
    ⟨zero_lt_one.trans_le (pos.trans (le_lateVar e lit a d)), lateVar_lt boundA boundD⟩
  have succ (a d : ℕ) : e.lateVar lit a d + 1 = e.lateVar lit a (d + 1) := by
    unfold lateVar
    push_cast
    ring
  refine (Expresses.flatMap fun a memA => Expresses.flatMap fun d memD =>
    (forced a (List.mem_range.mp memA) d (List.mem_range.mp memD) _ _ ?_
      (allocates_lateVar e lit).le).append (Expresses.guard fun inside => Expresses.guarded [e.lateVar lit a d] ?_ ?_)).congr
        fun σ => ?_
  all_goals simp only [List.mem_range, List.mem_singleton, forall_eq, succ] at *
  · exact isVar memA memD
  · exact isVar memA (by omega)
  · exact isVar memA memD
  · simp only [exists_eq_left]
    refine forall₂_congr fun a boundA => forall₂_congr fun d boundD => and_congr_right fun _ => ?_
    rw [show ((d : ℤ) < e.delta - 1) = (d + 1 < e.delta) from propext (by omega)]

/-! ## Counting -/

private theorem sum_map_range (f : ℕ → ℕ) (n : ℕ) :
    ((List.range n).map f).sum = ∑ i ∈ Finset.range n, f i := by
  induction n with
  | zero => rfl
  | succ n ih => rw [List.range_succ, List.map_append, List.sum_append, ih, Finset.sum_range_succ]; simp

private theorem countP_range_lt {k n : ℕ} (le : k ≤ n) :
    (List.range n).countP (fun d => decide (d < k)) = k := by
  induction n with
  | zero => simp; omega
  | succ n ih =>
    rw [List.range_succ, List.countP_append, List.countP_singleton]
    rcases le.lt_or_eq with lt | rfl
    · rw [ih (by omega)]
      simp
      omega
    · rw [List.countP_eq_length.mpr fun d member => by
        have := List.mem_range.mp member
        simp
        omega]
      simp

/-- The number of true late variables, agent by agent. -/
private theorem countP_lateVars (pos : 1 ≤ lit) (σ : Valuation) :
    (e.lateVars lit).countP (litHolds σ) =
      ∑ a ∈ Finset.range e.agents, (List.range e.delta).countP fun d => σ (e.lateVar lit a d) := by
  rw [lateVars, List.countP_flatMap, sum_map_range]
  refine Finset.sum_congr rfl fun a _ => ?_
  rw [Function.comp_apply, List.countP_map]
  exact List.countP_congr fun d _ => by
    rw [Function.comp_apply, litHolds_pos (zero_lt_one.trans_le (pos.trans (le_lateVar e lit a d)))]

/-- All late variables below the delay are true. -/
private theorem Late.of_lt_delay {trig : ℕ → ℕ → Valuation → Prop} {σ : Valuation}
    (late : e.Late lit trig σ) {a : ℕ} (boundA : a < e.agents) {d : ℕ}
    (bound : d < delay (trig a · σ) e.delta) : σ (e.lateVar lit a d) = true := by
  obtain ⟨last, spec⟩ : ∃ last, delay (trig a · σ) e.delta = last + 1 :=
    ⟨delay (trig a · σ) e.delta - 1, by omega⟩
  obtain ⟨inside, triggered⟩ := delay_spec spec
  -- walk down the chain from the last trigger
  have down : ∀ k ≤ last, σ (e.lateVar lit a (last - k)) = true := by
    intro k
    induction k with
    | zero => exact fun _ => (late a boundA last inside).1 triggered
    | succ k ih =>
      intro le
      have index : last - (k + 1) + 1 = last - k := by omega
      apply (late a boundA (last - (k + 1)) (by omega)).2 (by omega)
      rw [index]
      exact ih (by omega)
  have here := down (last - d) (by omega)
  rwa [show last - (last - d) = d by omega] at here

/-! ## The bound -/

/-- Late variables and the bound on their number exist exactly if the delays add up to at most
`delta`. -/
theorem limitLate_block (contract : AtMostContract lib.encodeAtMostK)
    {triggers : ℕ → ℕ → ℤ → List Clause} (trig : ℕ → ℕ → Valuation → Prop) (pos : 1 ≤ lo)
    (le : lo ≤ lit)
    (forced : ∀ a < e.agents, ∀ d < e.delta, ∀ x hi, IsVar hi x → lo ≤ hi →
      Expresses hi (triggers a d x) fun σ => trig a d σ → σ x = true)
    (depends : ∀ a < e.agents, ∀ d < e.delta, DependsBelow lo (trig a d)) :
    Block lit (e.limitLate lib triggers lit).2 (e.limitLate lib triggers lit).1 fun σ =>
      ∑ a ∈ Finset.range e.agents, delay (trig a · σ) e.delta ≤ e.delta := by
  have posLit : 1 ≤ lit := pos.trans le
  have chain := chain_expresses (e := e) posLit fun a boundA d boundD x hi isVar above =>
    forced a boundA d boundD x hi isVar (le.trans above)
  have alloc := allocates_lateVar e lit
  have counter := contract (e.lateVars lit) e.delta (lit + (e.agents : ℤ) * e.delta)
    (by positivity) (posLit.trans alloc.le) fun x member => by
      simp only [lateVars, List.mem_flatMap, List.mem_map, List.mem_range] at member
      obtain ⟨a, boundA, d, boundD, rfl⟩ := member
      have bounds := alloc.bounds (k := (a, d)) ⟨boundA, boundD, rfl⟩
      exact lit_below (zero_lt_one.trans_le (posLit.trans bounds.1)) bounds.2
  rw [limitLate_eq]
  refine ⟨alloc.le.trans counter.le, below_append.mpr ⟨chain.below.mono counter.le, counter.below⟩,
    fun {σ} models => ?_, fun {σ} bounded => ?_⟩
  · have late := (chain.models_iff σ).mp (models_append.mp models).1
    have count := counter.sound (models_append.mp models).2
    rw [countP_lateVars posLit] at count
    refine le_trans (Finset.sum_le_sum fun a memA => ?_) (by exact_mod_cast count)
    calc delay (trig a · σ) e.delta
        = (List.range e.delta).countP fun d => decide (d < delay (trig a · σ) e.delta) :=
          (countP_range_lt (delay_le _ _)).symm
      _ ≤ (List.range e.delta).countP fun d => σ (e.lateVar lit a d) :=
          List.countP_mono_left fun d _ inside =>
            late.of_lt_delay (Finset.mem_range.mp memA) (of_decide_eq_true inside)
  · -- make exactly the variables below the delays true
    obtain ⟨ρ, reads⟩ := alloc.exists_valuation fun key => key.2 < delay (trig key.1 · σ) e.delta
    let τ : Valuation := fun x => if x < lit then σ x else ρ x
    have agree : Agree lit σ τ := fun x _ below => (if_pos below).symm
    have value {a d : ℕ} (boundA : a < e.agents) (boundD : d < e.delta) :
        τ (e.lateVar lit a d) = true ↔ d < delay (trig a · σ) e.delta := by
      rw [← reads (a, d) _ ⟨boundA, boundD, rfl⟩]
      simp only [τ, if_neg (not_lt.mpr (le_lateVar e lit a d))]
    have same {a d : ℕ} (boundA : a < e.agents) (boundD : d < e.delta) :
        trig a d τ ↔ trig a d σ :=
      ⟨depends a boundA d boundD τ σ (agree.mono le).symm,
        depends a boundA d boundD σ τ (agree.mono le)⟩
    have late : e.Late lit trig τ := fun a boundA d boundD =>
      ⟨fun triggered => (value boundA boundD).mpr
          (lt_delay boundD ((same boundA boundD).mp triggered)),
        fun next holds => (value boundA boundD).mpr
          ((Nat.lt_succ_self d).trans ((value boundA next).mp holds))⟩
    have count : ((e.lateVars lit).countP (litHolds τ) : ℤ) ≤ e.delta := by
      rw [countP_lateVars posLit]
      refine le_trans (Int.ofNat_le.mpr (le_of_eq (Finset.sum_congr rfl fun a memA => ?_)))
        (Int.ofNat_le.mpr bounded)
      rw [← countP_range_lt (delay_le (trig a · σ) e.delta)]
      refine List.countP_congr fun d memD => ?_
      rw [decide_eq_true_iff]
      exact value (Finset.mem_range.mp memA) (List.mem_range.mp memD)
    obtain ⟨υ, further, models⟩ := counter.complete count
    exact ⟨υ, agree.trans (further.mono alloc.le), models_append.mpr
      ⟨(models_congr chain.below further).mp ((chain.models_iff τ).mpr late), models⟩⟩

end Chain

/-! ## The three bounds -/

section Bounds

variable {L : ℕ → ℕ} {hi lit : ℤ}

/-- Every agent has `delta` timesteps more than its shortest path needs. -/
def Budget (e : Encoder) (L : ℕ → ℕ) : Prop :=
  ∀ a < e.agents, (L a : ℤ) = e.inst.firstTimestep a (e.inst.goalOf a) + e.delta

/-- The windows of the goals reach `delta` timesteps beyond the earliest arrivals. -/
def Slack (e : Encoder) : Prop :=
  ∀ a < e.agents, e.goalTime a = e.inst.firstTimestep a (e.inst.goalOf a) + e.delta

theorem Budget.slack (budget : e.Budget L) (setting : e.Setting L) : e.Slack := fun a boundA => by
  rw [setting.goalTime_eq boundA, budget a boundA]

/-- The timestep `d` after the earliest arrival of an agent. -/
def afterShortest (e : Encoder) (a d : ℕ) : ℤ := e.inst.firstTimestep a (e.inst.goalOf a) + d

theorem goal_entry (windows : e.Windows) (ready : e.AtReady hi) {a : ℕ}
    (boundA : a < e.agents) : (e.atEntry a (e.inst.goalOf a)).firstTimestep =
      e.inst.firstTimestep a (e.inst.goalOf a) :=
  (ready.entry a boundA _ (windows.goalCell a boundA) (windows.goal_covers ready boundA).1).1

/-- The goal has a variable for every delay. -/
theorem afterShortest_covers (windows : e.Windows) (slack : e.Slack) (ready : e.AtReady hi)
    {a d : ℕ} (boundA : a < e.agents) (boundD : d < e.delta) :
    (e.atEntry a (e.inst.goalOf a)).Covers (e.afterShortest a d) := by
  refine ⟨(windows.goal_covers ready boundA).1, ?_, ?_⟩
  · rw [goal_entry windows ready boundA]
    exact Int.le_add_of_nonneg_right (Int.natCast_nonneg d)
  · rw [windows.goal_lastTimestep ready boundA, slack a boundA, afterShortest]
    omega

theorem createConstLimitSoc_block (contract : AtMostContract lib.encodeAtMostK)
    (windows : e.Windows) (slack : e.Slack) (ready : e.AtReady hi) (pos : 1 ≤ hi)
    (le : hi ≤ lit) : Block lit (e.createConstLimitSoc lib lit).2 (e.createConstLimitSoc lib lit).1
      fun σ => ∑ a ∈ Finset.range e.agents,
        delay (fun d => ¬e.At σ a (e.inst.goalOf a) (e.afterShortest a d)) e.delta ≤ e.delta := by
  apply limitLate_block contract
    (fun a d σ => ¬e.At σ a (e.inst.goalOf a) (e.afterShortest a d)) pos le
  · intro a boundA d boundD x top isVar above
    have covers := afterShortest_covers windows slack ready boundA boundD
    have var : (e.atEntry a (e.inst.goalOf a)).firstVariable + d =
        (e.atEntry a (e.inst.goalOf a)).var (e.afterShortest a d) := by
      rw [TEGAgent.var, goal_entry windows ready boundA, afterShortest]
      omega
    rw [var]
    refine (Expresses.or ((ready.isVar a boundA _ (windows.goalCell a boundA) _ covers).mono above)
      isVar).congr fun σ => ?_
    rw [At, and_iff_right covers]
    exact or_iff_not_imp_left
  · exact fun a boundA d _ σ τ agree away =>
      mt (At.congr ready agree boundA (windows.goalCell a boundA)).mpr away

theorem createConstLimitSocAllAt_block (contract : AtMostContract lib.encodeAtMostK)
    (windows : e.Windows) (ready : e.AtReady hi) (pos : 1 ≤ hi) (le : hi ≤ lit) :
    Block lit (e.createConstLimitSocAllAt lib lit).2 (e.createConstLimitSocAllAt lib lit).1
      fun σ => ∑ a ∈ Finset.range e.agents, delay (fun d => ∃ v < e.vertices,
        v ≠ e.inst.goalOf a ∧ e.At σ a v (e.afterShortest a d)) e.delta ≤ e.delta := by
  apply limitLate_block contract (fun a d σ => ∃ v < e.vertices,
    v ≠ e.inst.goalOf a ∧ e.At σ a v (e.afterShortest a d)) pos le
  · intro a boundA d boundD x top isVar above
    dsimp only
    rw [goal_entry windows ready boundA]
    change Expresses top ((List.range e.vertices).flatMap fun v =>
      if v = e.inst.goalOf a then [] else if (e.atEntry a v).Covers (e.afterShortest a d) then
        [[-(e.atEntry a v).var (e.afterShortest a d), x]] else []) _
    refine (Expresses.flatMap fun v memV => .skip fun _ => .guard fun covers => .imp
      ((ready.isVar a boundA v (List.mem_range.mp memV) _ covers).mono above) isVar).congr
        fun σ => ?_
    simp only [List.mem_range]
    constructor
    · rintro all ⟨v, boundV, away, covers, holds⟩
      exact all v boundV away covers holds
    · exact fun all v boundV away covers holds => all ⟨v, boundV, away, covers, holds⟩
  · rintro a boundA d - σ τ agree ⟨v, boundV, away, here⟩
    exact ⟨v, boundV, away, (At.congr ready agree boundA boundV).mp here⟩

theorem createConstLimitSocShift_block (contract : AtMostContract lib.encodeAtMostK)
    (setting : e.Setting L) (ready : e.ShiftReady hi) (pos : 1 ≤ hi) (le : hi ≤ lit) :
    Block lit (e.createConstLimitSocShift lib lit).2 (e.createConstLimitSocShift lib lit).1
      fun σ => ∑ a ∈ Finset.range e.agents, delay (fun d => ∃ dir u, dir ≠ Dir.wait ∧
        e.inst.getNeighbor (e.inst.goalOf a) dir = some u ∧
          e.Shifts σ u (oppositeDir dir) (e.afterShortest a d)) e.delta ≤ e.delta := by
  apply limitLate_block contract (fun a d σ => ∃ dir u, dir ≠ Dir.wait ∧
    e.inst.getNeighbor (e.inst.goalOf a) dir = some u ∧
      e.Shifts σ u (oppositeDir dir) (e.afterShortest a d)) pos le
  · intro a boundA d boundD x top isVar above
    refine (Expresses.flatMap fun (p : Dir × ℕ) memP => .map fun y memY => .imp
      ((ready.isVar p.2 ?_ (oppositeDir p.1) (e.afterShortest a d) y ?_).mono above) isVar).congr
        fun σ => ?_
    all_goals simp only [Grid.mem_neighbors_iff, Dir.mem_moves_iff, Option.mem_toList] at *
    · exact setting.neighbor_lt (setting.goalCell a boundA) memP.2
    · exact memY
    · constructor
      · rintro all ⟨dir, u, moves, next, y, found, holds⟩
        exact all (dir, u) ⟨moves, next⟩ y found holds
      · exact fun all p bounds y found holds =>
          all ⟨p.1, p.2, bounds.1, bounds.2, y, found, holds⟩
  · rintro a boundA d - σ τ agree ⟨dir, u, moves, next, enters⟩
    exact ⟨dir, u, moves, next, (Shifts.congr ready agree
      (setting.neighbor_lt (setting.goalCell a boundA) next)).mp enters⟩

end Bounds

end Encoder

end MAPFEncodings

import MAPFEncodings.Proofs.Formula

/-! # The sum-of-costs clauses bound the total delay

For each of the three functions `CreateConst_LimitSoc*` an assignment of the tables' variables
extends to the late and auxiliary variables exactly if the delays of all agents add up to at most
`delta`. The functions differ in what they read as lateness.
-/

namespace MAPFEncodings

open Cnf

namespace Encoder

variable (e : Encoder) (σ : Valuation) (a d : ℕ)

/-- The variable of the goal is false: the lateness of `CreateConst_LimitSoc`. -/
def AwayFromGoal : Prop :=
  ¬σ ((e.atEntry a (e.inst.goalOf a)).var (e.inst.spLength a + d)) = true

/-- A variable of another vertex is true: the lateness of `CreateConst_LimitSoc_AllAt`. -/
def Elsewhere : Prop :=
  ∃ v < e.vertices, v ≠ e.inst.goalOf a ∧ e.At σ a v (e.inst.spLength a + d)

/-- A shift into the goal is true: the lateness of `CreateConst_LimitSoc_Shift`. -/
def EntersGoal : Prop := ∃ dir u, dir ≠ Dir.wait ∧
  e.inst.getNeighbor (e.inst.goalOf a) dir = some u ∧
    e.Shifts σ u (oppositeDir dir) (e.inst.spLength a + d)

variable {e σ}

/-- The clauses `F` over fresh variables from `first` on bound the sum of the delays by `delta`. -/
structure BoundsDelays (lib : Externals) (e : Encoder) (first : ℤ) (out : List Clause × ℤ)
    (late : ℕ → ℕ → Prop) (σ : Valuation) : Prop where
  exact : (∃ τ, Agree first σ τ ∧ Models τ out.1) ↔
    ∑ a ∈ Finset.range e.agents, delay (late a) e.delta ≤ e.delta
  /-- The late variables are the ones which are counted. -/
  counted : out.2 =
    (lib.encodeAtMostK (e.lateVars first) e.delta (first + (e.agents : ℤ) * e.delta)).1 + 1
  distinct : (e.lateVars first).Nodup
  fresh : ∀ x ∈ e.lateVars first, first ≤ x ∧ x < out.2

variable {lib : Externals} {task : Task} {lit first : ℤ}

private theorem mem_lateVars_iff {x : ℤ} :
    x ∈ e.lateVars first ↔ ∃ a < e.agents, ∃ d < e.delta, e.lateVar first a d = x := by
  simp [lateVars]

private theorem nodup_lateVars : (e.lateVars first).Nodup := by
  have distinct {a d b c : ℕ} (memA : a < e.agents) (memD : d < e.delta) (memB : b < e.agents)
      (memC : c < e.delta) (same : e.lateVar first b c = e.lateVar first a d) : (a, d) = (b, c) :=
    (allocates_lateVar e first).inj ⟨memA, memD, rfl⟩ ⟨memB, memC, same⟩
  refine List.nodup_flatMap.mpr ⟨fun a memA => ?_, ?_⟩
  · refine List.Nodup.map_on (fun d memD c memC same => ?_) List.nodup_range
    rw [List.mem_range] at memA memD memC
    exact congrArg Prod.snd (distinct memA memD memA memC same.symm)
  · refine List.Pairwise.imp_of_mem (fun {a b} memA memB apart => ?_) List.nodup_range
    rw [Function.onFun, List.disjoint_left]
    rintro x memX memX'
    obtain ⟨d, memD, rfl⟩ := List.mem_map.mp memX
    obtain ⟨c, memC, same⟩ := List.mem_map.mp memX'
    rw [List.mem_range] at memA memB memD memC
    exact apart (congrArg Prod.fst (distinct memA memD memB memC same))

/-- A block over fresh variables bounds the delays of its lateness. -/
private theorem boundsDelays_of_block (contract : AtMostContract lib.encodeAtMostK)
    {triggers : ℕ → ℕ → ℤ → List Clause} {late : ℕ → ℕ → Valuation → Prop}
    (late' : ℕ → ℕ → Valuation → Prop) (pos : 1 ≤ first)
    (block : Block first (e.limitLate lib triggers first).2 (e.limitLate lib triggers first).1
      fun σ => ∑ a ∈ Finset.range e.agents, delay (late a · σ) e.delta ≤ e.delta)
    (depends : ∀ a < e.agents, ∀ d < e.delta, DependsBelow first (late a d))
    (reads : ∀ a < e.agents, ∀ d < e.delta, ∀ σ, late a d σ ↔ late' a d σ) :
    BoundsDelays lib e first (e.limitLate lib triggers first) (late' · · σ) σ where
  exact := by
    have sums (τ : Valuation) (agree : Agree first σ τ) :
        ∑ a ∈ Finset.range e.agents, delay (late a · τ) e.delta =
          ∑ a ∈ Finset.range e.agents, delay (late' a · σ) e.delta := by
      refine Finset.sum_congr rfl fun a memA => delay_congr fun d bound => ?_
      have boundA := Finset.mem_range.mp memA
      rw [← reads a boundA d bound]
      exact ⟨depends a boundA d bound τ σ agree.symm, depends a boundA d bound σ τ agree⟩
    constructor
    · rintro ⟨τ, agree, models⟩
      rw [← sums τ agree]
      exact block.sound models
    · intro bounded
      rw [← sums σ (Agree.refl _ _)] at bounded
      exact block.complete bounded
  counted := by rw [limitLate_eq]
  distinct := nodup_lateVars
  fresh := by
    intro x member
    obtain ⟨a, boundA, d, boundD, rfl⟩ := mem_lateVars_iff.mp member
    have alloc := allocates_lateVar e first
    have bounds := alloc.bounds (k := (a, d)) ⟨boundA, boundD, rfl⟩
    have counter := contract (e.lateVars first) e.delta (first + (e.agents : ℤ) * e.delta)
      (by positivity) (pos.trans alloc.le) fun y memY => by
        obtain ⟨b, boundB, c, boundC, rfl⟩ := mem_lateVars_iff.mp memY
        have inside := alloc.bounds (k := (b, c)) ⟨boundB, boundC, rfl⟩
        exact lit_below (zero_lt_one.trans_le (pos.trans inside.1)) inside.2
    rw [limitLate_eq]
    exact ⟨bounds.1, bounds.2.trans_le counter.le⟩

/-- The functions `CreateConst_LimitSoc*`, called with the next unused variable `first`, bound the
sum of the delays by `delta`. -/
theorem limitSoc_boundsDelays (contract : AtMostContract lib.encodeAtMostK) (poses : task.Poses e)
    (soc : e.config.costFunction = .soc) (pos : 1 ≤ lit) :
    (∀ first, (e.createAt lib lit e.timesteps).2 ≤ first → ∀ σ,
      let e' := (e.createAt lib lit e.timesteps).1
      BoundsDelays lib e' first (e'.createConstLimitSoc lib first) (e'.AwayFromGoal σ) σ ∧
      BoundsDelays lib e' first (e'.createConstLimitSocAllAt lib first) (e'.Elsewhere σ) σ) ∧
    ∀ first, (e.createShift lit e.timesteps).2 ≤ first → ∀ σ,
      let e' := (e.createShift lit e.timesteps).1
      BoundsDelays lib e' first (e'.createConstLimitSocShift lib first) (e'.EntersGoal σ) σ := by
  have shortest (e' : Encoder) (poses : task.Poses e') {a : ℕ} (bound : a < e'.agents) (d : ℕ) :
      e'.afterShortest a d = e'.inst.spLength a + d := by
    rw [afterShortest, poses.inst, Task.spLength_eq (poses.lt_ags bound)]
  constructor
  · intro first le σ
    let e' := (e.createAt lib lit e.timesteps).1
    have poses' : task.Poses e' := ⟨poses.inst, poses.agents, poses.vertices⟩
    have setting : e'.Setting e'.deadline := poses'.setting rfl
    have budget : e'.Budget e'.deadline := poses'.budget soc
    have ready := createAt_ready e lib lit e.timesteps pos
    have posHi : 1 ≤ (e.createAt lib lit e.timesteps).2 :=
      pos.trans (allocates_createAt e lib lit e.timesteps).le
    have posFirst := posHi.trans le
    refine ⟨boundsDelays_of_block contract (fun a d σ => e'.AwayFromGoal σ a d) posFirst
      (createConstLimitSoc_block contract setting.windows (budget.slack setting) ready posHi le) ?_ ?_,
      boundsDelays_of_block contract (fun a d σ => e'.Elsewhere σ a d) posFirst
      (createConstLimitSocAllAt_block contract setting.windows ready posHi le) ?_ ?_⟩
    · exact fun a boundA d _ σ τ agree away => mt (At.congr ready (agree.mono le) boundA
        (setting.goalCell a boundA)).mpr away
    · intro a boundA d boundD σ
      have covers := afterShortest_covers setting.windows (budget.slack setting) ready boundA boundD
      rw [AwayFromGoal, At, and_iff_right covers, shortest e' poses' boundA]
    · rintro a boundA d - σ τ agree ⟨v, boundV, away, here⟩
      exact ⟨v, boundV, away, (At.congr ready (agree.mono le) boundA boundV).mp here⟩
    · intro a boundA d _ σ
      rw [Elsewhere, shortest e' poses' boundA]
  · intro first le σ
    let e' := (e.createShift lit e.timesteps).1
    have poses' : task.Poses e' := ⟨poses.inst, poses.agents, poses.vertices⟩
    have setting : e'.Setting e'.deadline := poses'.setting rfl
    have ready := createShift_ready e lit e.timesteps pos
    have posHi : 1 ≤ (e.createShift lit e.timesteps).2 :=
      pos.trans (allocates_createShift e lit e.timesteps).le
    refine boundsDelays_of_block contract (fun a d σ => e'.EntersGoal σ a d)
      (posHi.trans le) (createConstLimitSocShift_block contract setting ready posHi le) ?_ ?_
    · rintro a boundA d - σ τ agree ⟨dir, u, moves, next, enters⟩
      exact ⟨dir, u, moves, next, (Shifts.congr ready (agree.mono le)
        (setting.neighbor_lt (setting.goalCell a boundA) next)).mp enters⟩
    · intro a boundA d _ σ
      rw [EntersGoal, shortest e' poses' boundA]

theorem limitSoc_boundsDelays_rows :
    let e := Encoder.rows ⟨.shift, .soc, .parallel, .eager, .forbid⟩ 1
    let out := e.createShift 1 e.timesteps
    let σ : Valuation := fun _ => false
    BoundsDelays .binomial out.1 out.2 (out.1.createConstLimitSocShift .binomial out.2)
      (out.1.EntersGoal σ) σ :=
  (limitSoc_boundsDelays binomialAtMost_contract (Task.rows_poses _ 1) rfl le_rfl).2 _ le_rfl _

end Encoder

end MAPFEncodings

import MAPFEncodings.Proofs.Formula

/-! # The positions with variables

On a connected map `CreateAt` allocates a variable for exactly the positions of walks which reach
the goal at the deadline. A cell which the agent cannot reach has distance `-1` from both of its
endpoints, and this marker passes the test `FirstTimestep <= LastTimestep` like a distance: the cell
gets variables for all timesteps from `-1` to one past the deadline.
-/

namespace MAPFEncodings

open Cnf PathFinding

namespace Encoder

variable {e : Encoder} {task : Task} {lib : Externals} {lit : ℤ}

/-- Some walk of the agent is at `v` at time `t` and at its goal at the deadline. -/
def Useful (e : Encoder) (a v : ℕ) (t : ℤ) : Prop :=
  ∃ n : ℕ, t = n ∧ n ≤ e.deadline a ∧ ∃ w, Distance.IsWalk e.inst.Adj w ∧
    w 0 = e.inst.startOf a ∧ w n = v ∧ w (e.deadline a) = e.inst.goalOf a

/-- The encoder after `CreateAt`. -/
def withAt (e : Encoder) (lib : Externals) (lit : ℤ) : Encoder := (e.createAt lib lit e.timesteps).1

private theorem covers_iff (poses : task.Poses e) (pos : 1 ≤ lit) {a v : ℕ} (boundA : a < e.agents)
    (boundV : v < e.vertices) {t : ℤ} :
    ((e.withAt lib lit).atEntry a v).Covers t ↔ e.Alive e.deadline a v t := by
  have poses' : task.Poses (e.withAt lib lit) := ⟨poses.inst, poses.agents, poses.vertices⟩
  have setting : (e.withAt lib lit).Setting e.deadline := poses'.setting rfl
  exact setting.at_covers_iff (createAt_ready e lib lit e.timesteps pos) boundA boundV

/-- A cell gets exactly the useful variables if and only if the agent can reach it. -/
theorem useful_iff_reachable (poses : task.Poses e) (pos : 1 ≤ lit) {a v : ℕ}
    (boundA : a < e.agents) (boundV : v < e.vertices) :
    (∀ t, ((e.withAt lib lit).atEntry a v).Covers t ↔ e.Useful a v t) ↔
      Relation.ReflTransGen e.inst.Adj (e.inst.startOf a) v := by
  have poses' : task.Poses (e.withAt lib lit) := ⟨poses.inst, poses.agents, poses.vertices⟩
  have setting : (e.withAt lib lit).Setting e.deadline := poses'.setting rfl
  have deadline : Deadline e.inst.Adj (e.inst.startOf a) (e.inst.goalOf a)
      (e.inst.firstTimestep a) (e.inst.toGoal a) (e.deadline a) := setting.deadline a boundA
  simp only [covers_iff poses pos boundA boundV]
  rw [← deadline.fromStart.nonneg_iff]
  constructor
  · -- the marker opens the window of an unreachable cell at time `-1`
    intro exact
    by_contra unknown
    have alive : e.Alive e.deadline a v (-1) := by
      have first := deadline.fromStart.eq_neg_one unknown
      have last := deadline.toGoal.eq_neg_one (mt deadline.known_iff.mpr unknown)
      exact ⟨first.le, by omega⟩
    obtain ⟨n, negative, -⟩ := (exact (-1)).mp alive
    omega
  · intro known t
    constructor
    · intro alive
      have late : 0 ≤ t := known.trans alive.1
      obtain ⟨n, rfl⟩ := Int.eq_ofNat_of_zero_le late
      have le : n ≤ e.deadline a := by exact_mod_cast deadline.le_deadline known alive
      exact ⟨n, rfl, le, (deadline.alive_iff_exists_isWalk le).mp ⟨known, alive⟩⟩
    · rintro ⟨n, rfl, le, walk⟩
      exact ((deadline.alive_iff_exists_isWalk le).mpr walk).2

/-- `CreateAt` allocates exactly the useful variables if and only if every agent can reach every
free cell. -/
theorem createAt_useful_iff (poses : task.Poses e) (pos : 1 ≤ lit) :
    (∀ a < e.agents, ∀ v < e.vertices, ∀ t,
      (((e.createAt lib lit e.timesteps).1).atEntry a v).Covers t ↔ e.Useful a v t) ↔
    ∀ a < e.agents, ∀ v < e.vertices, Relation.ReflTransGen e.inst.Adj (e.inst.startOf a) v :=
  forall₄_congr fun _ boundA _ boundV => useful_iff_reachable poses pos boundA boundV

end Encoder

/-! ## A map with two islands -/

/-- The unreachable cell has a variable for the time before the start. -/
theorem createAt_not_useful_island :
    let e := Task.island.encoder ⟨.at_, .mks, .parallel, .eager, .forbid⟩ 0
    ¬∀ a < e.agents, ∀ v < e.vertices, ∀ t,
      ((e.createAt .binomial 1 e.timesteps).1.atEntry a v).Covers t ↔ e.Useful a v t := by
  intro e exact
  have covers : ((e.createAt .binomial 1 e.timesteps).1.atEntry 0 1).Covers (-1) := by decide
  obtain ⟨n, negative, -⟩ := (exact 0 (by decide) 1 (by decide) (-1)).mp covers
  omega

theorem createAt_useful_iff_rows :
    let e := Encoder.rows ⟨.at_, .soc, .parallel, .eager, .forbid⟩ 1
    (∀ a < e.agents, ∀ v < e.vertices, ∀ t,
      ((e.createAt .binomial 1 e.timesteps).1.atEntry a v).Covers t ↔ e.Useful a v t) ↔
    ∀ a < e.agents, ∀ v < e.vertices, Relation.ReflTransGen e.inst.Adj (e.inst.startOf a) v :=
  Encoder.createAt_useful_iff (Task.rows_poses _ 1) le_rfl

end MAPFEncodings

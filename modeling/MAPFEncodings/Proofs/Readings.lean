import MAPFEncodings.PathFinding.Deadline
import MAPFEncodings.Proofs.Tables

/-! # What valuations say about agents

A valuation of the variables is read as three relations: which agent is where, which agent passes
which edge, and which edge is shifted. `Windows` is the geometry behind the tables that the
generators rely on, whether or not the goals can be reached. `Setting` fixes the last timestep `L a`
at which agent `a` is represented and the distances around it, so that all existence questions about
variables become questions about the windows `Alive`.
-/

namespace MAPFEncodings

open Cnf PathFinding

namespace Encoder

variable (e : Encoder) (σ : Valuation)

/-- The variable for agent `a` at `v` exists and is true. -/
def At (a v : ℕ) (t : ℤ) : Prop := (e.atEntry a v).Covers t ∧ σ ((e.atEntry a v).var t) = true

/-- The variable for agent `a` leaving `v` in a direction exists and is true. -/
def Pass (a v : ℕ) (dir : Dir) (t : ℤ) : Prop :=
  (e.passEntry a v dir).Covers t ∧ σ ((e.passEntry a v dir).var t) = true

/-- The variable for a shift from `v` in a direction exists and is true. -/
def Shifts (v : ℕ) (dir : Dir) (t : ℤ) : Prop :=
  ∃ x, (e.shiftEntry v dir).var? t = some x ∧ σ x = true

instance (a v : ℕ) (t : ℤ) : Decidable (e.At σ a v t) := inferInstanceAs (Decidable (_ ∧ _))

instance (a v : ℕ) (dir : Dir) (t : ℤ) : Decidable (e.Pass σ a v dir t) :=
  inferInstanceAs (Decidable (_ ∧ _))

theorem shifts_iff_any {v : ℕ} {dir : Dir} {t : ℤ} :
    e.Shifts σ v dir t ↔ ((e.shiftEntry v dir).var? t).any σ = true := by
  cases found : (e.shiftEntry v dir).var? t <;> simp [Shifts, found]

/-- The last timestep of an agent at its goal. -/
def goalTime (a : ℕ) : ℤ := e.lastTimestep a (e.inst.goalOf a) e.maxTimestep

/-- The windows of the agents' positions change by at most one along an edge, and contain the start
at time zero and some time at the goal. -/
structure Windows : Prop where
  numbered : e.inst.Numbered
  vertices : e.vertices = e.inst.numberOfVertices
  startCell : ∀ a < e.agents, e.inst.startOf a < e.vertices
  goalCell : ∀ a < e.agents, e.inst.goalOf a < e.vertices
  near : ∀ a < e.agents, ∀ v u, u = v ∨ e.inst.Adj v u →
    e.inst.firstTimestep a u ≤ e.inst.firstTimestep a v + 1 ∧
      e.lastTimestep a u e.maxTimestep ≤ e.lastTimestep a v e.maxTimestep + 1
  starts : ∀ a < e.agents, e.inst.firstTimestep a (e.inst.startOf a) = 0 ∧
    0 ≤ e.lastTimestep a (e.inst.startOf a) e.maxTimestep
  ends : ∀ a < e.agents, e.inst.firstTimestep a (e.inst.goalOf a) ≤ e.goalTime a

/-- The windows of the agents' positions. -/
def Alive (L : ℕ → ℕ) (a v : ℕ) (t : ℤ) : Prop :=
  PathFinding.Alive (e.inst.firstTimestep a) (e.inst.toGoal a) (L a) v t

/-- The agents' walks end at the deadlines `L`, to which all windows refer. -/
structure Setting (L : ℕ → ℕ) : Prop where
  numbered : e.inst.Numbered
  vertices : e.vertices = e.inst.numberOfVertices
  startCell : ∀ a < e.agents, e.inst.startOf a < e.vertices
  goalCell : ∀ a < e.agents, e.inst.goalOf a < e.vertices
  deadline : ∀ a < e.agents, Deadline e.inst.Adj (e.inst.startOf a) (e.inst.goalOf a)
    (e.inst.firstTimestep a) (e.inst.toGoal a) (L a)
  last : ∀ a < e.agents, ∀ v, e.lastTimestep a v e.maxTimestep = L a - e.inst.toGoal a v
  fits : ∀ a < e.agents, (L a : ℤ) < e.maxTimestep

variable {e σ} {L : ℕ → ℕ} {hi : ℤ}

/-! Readings depend only on the variables of their tables. -/

theorem At.congr (ready : e.AtReady hi) {τ : Valuation} (agree : Agree hi σ τ) {a v : ℕ}
    (boundA : a < e.agents) (boundV : v < e.vertices) {t : ℤ} : e.At σ a v t ↔ e.At τ a v t := by
  refine and_congr_right fun covers => ?_
  have isVar := ready.isVar a boundA v boundV t covers
  rw [agree _ isVar.1 isVar.2]

theorem Pass.congr (ready : e.PassReady hi) {τ : Valuation} (agree : Agree hi σ τ) {a v : ℕ}
    (boundA : a < e.agents) (boundV : v < e.vertices) {dir : Dir} {t : ℤ} :
    e.Pass σ a v dir t ↔ e.Pass τ a v dir t := by
  refine and_congr_right fun covers => ?_
  have isVar := ready.isVar a boundA v boundV dir t covers
  rw [agree _ isVar.1 isVar.2]

theorem Shifts.congr (ready : e.ShiftReady hi) {τ : Valuation} (agree : Agree hi σ τ) {v : ℕ}
    (boundV : v < e.vertices) {dir : Dir} {t : ℤ} : e.Shifts σ v dir t ↔ e.Shifts τ v dir t := by
  refine exists_congr fun x => and_congr_right fun found => ?_
  have isVar := ready.isVar v boundV dir t x found
  rw [agree _ isVar.1 isVar.2]

namespace Windows

variable (windows : e.Windows)
include windows

theorem neighbor_lt {v u : ℕ} {dir : Dir} (boundV : v < e.vertices)
    (next : e.inst.getNeighbor v dir = some u) : u < e.vertices := by
  rw [windows.vertices] at boundV ⊢
  exact windows.numbered.getNeighbor_lt boundV next

theorem opposite {v u : ℕ} {dir : Dir} (boundV : v < e.vertices)
    (next : e.inst.getNeighbor v dir = some u) :
    e.inst.getNeighbor u (oppositeDir dir) = some v :=
  windows.numbered.getNeighbor_opposite (windows.vertices ▸ boundV) next

theorem dir_unique {v u : ℕ} {dir dir' : Dir} (boundV : v < e.vertices)
    (next : e.inst.getNeighbor v dir = some u) (next' : e.inst.getNeighbor v dir' = some u) :
    dir = dir' := windows.numbered.dir_unique (windows.vertices ▸ boundV) next next'

/-- Every direction but waiting leaves the vertex. -/
theorem ne_of_moves {v u : ℕ} {dir : Dir} (boundV : v < e.vertices) (moves : dir ≠ .wait)
    (next : e.inst.getNeighbor v dir = some u) : u ≠ v := by
  rintro rfl
  exact moves (windows.dir_unique boundV next (show e.inst.getNeighbor u .wait = some u from rfl))

theorem step_iff {v u : ℕ} (boundV : v < e.vertices) :
    (u = v ∨ e.inst.Adj v u) ↔ ∃ dir, e.inst.getNeighbor v dir = some u :=
  windows.numbered.step_iff (windows.vertices ▸ boundV)

/-- The window of a move is the part of both ends' windows that fits together. -/
theorem covers_edge (ready : e.AtReady hi) {a v u : ℕ} {dir : Dir} (boundA : a < e.agents)
    (boundV : v < e.vertices) (next : e.inst.getNeighbor v dir = some u) {t : ℤ} :
    (e.inst.firstTimestep a v ≤ t ∧ t < e.lastTimestep a u e.maxTimestep) ↔
      (e.atEntry a v).Covers t ∧ (e.atEntry a u).Covers (t + 1) := by
  have near := windows.near a boundA v u ((windows.step_iff boundV).mpr ⟨dir, next⟩)
  rw [ready.covers a boundA v boundV, ready.covers a boundA u (windows.neighbor_lt boundV next)]
  omega

theorem pass_covers_iff {lo : ℤ} (readyAt : e.AtReady lo) (ready : e.PassReady hi) {a v : ℕ}
    (boundA : a < e.agents) (boundV : v < e.vertices) {dir : Dir} {t : ℤ} :
    (e.passEntry a v dir).Covers t ↔ ∃ u, e.inst.getNeighbor v dir = some u ∧
      (e.atEntry a v).Covers t ∧ (e.atEntry a u).Covers (t + 1) := by
  rw [ready.covers a boundA v boundV]
  exact exists_congr fun u => and_congr_right fun next =>
    windows.covers_edge readyAt boundA boundV next

end Windows

namespace Setting

variable (setting : e.Setting L)
include setting

theorem goalTime_eq {a : ℕ} (boundA : a < e.agents) : e.goalTime a = L a := by
  rw [goalTime, setting.last a boundA, (setting.deadline a boundA).toGoal.source_eq, sub_zero]

/-- Deadlines which can be met make windows. -/
theorem windows : e.Windows where
  numbered := setting.numbered
  vertices := setting.vertices
  startCell := setting.startCell
  goalCell := setting.goalCell
  near a boundA v u step := by
    have near := (setting.deadline a boundA).near step
    rw [setting.last a boundA, setting.last a boundA]
    omega
  starts a boundA := by
    rw [setting.last a boundA]
    have alive := (setting.deadline a boundA).alive_start.2
    exact ⟨(setting.deadline a boundA).fromStart.source_eq, alive⟩
  ends a boundA := by
    rw [setting.goalTime_eq boundA]
    exact (setting.deadline a boundA).fits

theorem neighbor_lt {v u : ℕ} {dir : Dir} (boundV : v < e.vertices)
    (next : e.inst.getNeighbor v dir = some u) : u < e.vertices :=
  setting.windows.neighbor_lt boundV next

theorem opposite {v u : ℕ} {dir : Dir} (boundV : v < e.vertices)
    (next : e.inst.getNeighbor v dir = some u) : e.inst.getNeighbor u (oppositeDir dir) = some v :=
  setting.windows.opposite boundV next

theorem dir_unique {v u : ℕ} {dir dir' : Dir} (boundV : v < e.vertices)
    (next : e.inst.getNeighbor v dir = some u) (next' : e.inst.getNeighbor v dir' = some u) :
    dir = dir' := setting.windows.dir_unique boundV next next'

theorem ne_of_moves {v u : ℕ} {dir : Dir} (boundV : v < e.vertices) (moves : dir ≠ .wait)
    (next : e.inst.getNeighbor v dir = some u) : u ≠ v := setting.windows.ne_of_moves boundV moves next

theorem step_iff {v u : ℕ} (boundV : v < e.vertices) :
    (u = v ∨ e.inst.Adj v u) ↔ ∃ dir, e.inst.getNeighbor v dir = some u :=
  setting.windows.step_iff boundV

theorem at_covers_iff (ready : e.AtReady hi) {a v : ℕ} (boundA : a < e.agents)
    (boundV : v < e.vertices) {t : ℤ} : (e.atEntry a v).Covers t ↔ e.Alive L a v t := by
  rw [ready.covers a boundA v boundV, setting.last a boundA]
  rfl

theorem alive_edge {a v u : ℕ} {dir : Dir} (boundA : a < e.agents) (boundV : v < e.vertices)
    (next : e.inst.getNeighbor v dir = some u) {t : ℤ} :
    (e.inst.firstTimestep a v ≤ t ∧ t < e.lastTimestep a u e.maxTimestep) ↔
      e.Alive L a v t ∧ e.Alive L a u (t + 1) := by
  rw [setting.last a boundA]
  exact (setting.deadline a boundA).alive_edge ((setting.step_iff boundV).mpr ⟨dir, next⟩)

/-- A pass has a variable exactly if both its ends have one. -/
theorem pass_covers_iff (ready : e.PassReady hi) {a v : ℕ} (boundA : a < e.agents)
    (boundV : v < e.vertices) {dir : Dir} {t : ℤ} : (e.passEntry a v dir).Covers t ↔
      ∃ u, e.inst.getNeighbor v dir = some u ∧ e.Alive L a v t ∧ e.Alive L a u (t + 1) := by
  rw [ready.covers a boundA v boundV]
  exact exists_congr fun u => and_congr_right fun next => setting.alive_edge boundA boundV next

/-- A shift has a variable exactly if some agent has one at both ends. -/
theorem shift_exists_iff (ready : e.ShiftReady hi) {v : ℕ} (boundV : v < e.vertices) {dir : Dir}
    {t : ℤ} : ((e.shiftEntry v dir).var? t).isSome ↔
      ∃ u, e.inst.getNeighbor v dir = some u ∧ (0 ≤ t ∧ t < e.maxTimestep) ∧
        ∃ a < e.agents, e.Alive L a v t ∧ e.Alive L a u (t + 1) := by
  rw [ready.exists_iff v boundV]
  refine exists_congr fun u => and_congr_right fun next => and_congr_right fun _ => ?_
  exact exists_congr fun a => and_congr_right fun boundA => setting.alive_edge boundA boundV next

end Setting

/-- A condition on two agents which does not depend on their order. -/
theorem forall_pairs_iff {n : ℕ} {P : ℕ → ℕ → Prop} (symm : ∀ a b, P a b → P b a) :
    (∀ a ∈ List.range n, ∀ b ∈ List.Ico (a + 1) n, P a b) ↔
      ∀ a < n, ∀ b < n, a ≠ b → P a b := by
  simp only [List.mem_range, List.Ico.mem]
  constructor
  · intro ordered a boundA b boundB distinct
    rcases distinct.lt_or_gt with lt | gt
    · exact ordered a boundA b ⟨lt, boundB⟩
    · exact symm b a (ordered b boundB a ⟨gt, boundA⟩)
  · exact fun all a boundA b bounds => all a boundA b bounds.2 (by omega)

end Encoder

end MAPFEncodings

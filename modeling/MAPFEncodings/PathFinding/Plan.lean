import MAPFEncodings.ToMathlib.Distance
import Mathlib.Algebra.BigOperators.Group.Finset.Basic
import Mathlib.Algebra.Order.BigOperators.Group.Finset
import Mathlib.Data.Finset.Lattice.Fold
import Mathlib.Order.Lattice.Nat

/-! # Multi-agent path finding

A plan gives every agent an infinite walk from its start which parks at its goal. Two notions of
interference besides sharing a vertex are in use: exchanging the endpoints of an edge (parallel
motion forbids only this) and entering a vertex which another agent occupied one step earlier
(forbidden by pebble motion). The makespan counts timesteps, so a plan in which nobody moves has
makespan one; the sum of costs adds up arrival times plus one in the same way.

The criteria at the end reduce freedom from conflicts to the time before the agents' deadlines,
which is all that an encoding with finitely many variables can talk about.
-/

namespace PathFinding

open Distance

variable {A V : Type*}

structure Problem (A V : Type*) where
  agents : Finset A
  adj : V → V → Prop
  start : A → V
  goal : A → V

namespace Problem

variable (P : Problem A V) (pos : A → ℕ → V)

/-- Every agent walks from its start and eventually stays at its goal. -/
structure Walks : Prop where
  starts : ∀ a ∈ P.agents, pos a 0 = P.start a
  moves : ∀ a ∈ P.agents, IsWalk P.adj (pos a)
  parks : ∀ a ∈ P.agents, ∃ T, ∀ t, T ≤ t → pos a t = P.goal a

def VertexFree : Prop :=
  ∀ a ∈ P.agents, ∀ b ∈ P.agents, a ≠ b → ∀ t, pos a t ≠ pos b t

def SwapFree : Prop :=
  ∀ a ∈ P.agents, ∀ b ∈ P.agents, a ≠ b → ∀ t,
    ¬(pos a t = pos b (t + 1) ∧ pos a (t + 1) = pos b t)

def FollowFree : Prop :=
  ∀ a ∈ P.agents, ∀ b ∈ P.agents, a ≠ b → ∀ t, pos a (t + 1) ≠ pos b t

/-- The first time from which the agent stays at its goal. -/
noncomputable def arrival (a : A) : ℕ := sInf {T | ∀ t, T ≤ t → pos a t = P.goal a}

/-- The number of timesteps until every agent has arrived. -/
noncomputable def makespan : ℕ := P.agents.sup fun a => P.arrival pos a + 1

noncomputable def sumOfCosts : ℕ := ∑ a ∈ P.agents, (P.arrival pos a + 1)

variable {P pos}

/-- An exchange of vertices enters a vertex which was occupied just before. -/
theorem FollowFree.swapFree (follow : P.FollowFree pos) : P.SwapFree pos :=
  fun a memA b memB distinct t swap => follow a memA b memB distinct t swap.2

theorem arrival_le {a : A} {T : ℕ} (parked : ∀ t, T ≤ t → pos a t = P.goal a) :
    P.arrival pos a ≤ T := Nat.sInf_le parked

theorem Walks.parked (walks : P.Walks pos) {a : A} (member : a ∈ P.agents) {t : ℕ}
    (late : P.arrival pos a ≤ t) : pos a t = P.goal a :=
  Nat.sInf_mem (walks.parks a member) t late

theorem Walks.lt_arrival (walks : P.Walks pos) {a : A} (member : a ∈ P.agents) {t : ℕ}
    (away : pos a t ≠ P.goal a) : t < P.arrival pos a := by
  by_contra late
  exact away (walks.parked member (not_lt.mp late))

/-- Just before its arrival the agent is not at its goal. -/
theorem away_before_arrival {a : A} {t : ℕ} (before : P.arrival pos a = t + 1) :
    pos a t ≠ P.goal a := by
  intro home
  by_cases parked : ∀ s, t + 1 ≤ s → pos a s = P.goal a
  · have early : P.arrival pos a ≤ t := arrival_le fun s late => by
      rcases late.eq_or_lt with rfl | later
      · exact home
      · exact parked s later
    omega
  · apply parked
    have member : P.arrival pos a ∈ {T | ∀ s, T ≤ s → pos a s = P.goal a} :=
      Nat.sInf_mem (Nat.nonempty_of_pos_sInf (by change 0 < P.arrival pos a; omega))
    rwa [before] at member

/-- An agent travels at least the distance between its endpoints. -/
theorem Walks.distance_le_arrival (walks : P.Walks pos) {a : A} (member : a ∈ P.agents)
    {ds : V → ℤ} (dist : IsDistance P.adj (P.start a) ds) :
    ds (P.goal a) ≤ P.arrival pos a := by
  have origin : pos a 0 = P.start a := walks.starts a member
  have bound := (dist.le_of_isWalk (walks.moves a member) (t := 0)
    (by rw [origin, dist.source_eq]) (P.arrival pos a)).2
  rw [Nat.zero_add, walks.parked member le_rfl, origin, dist.source_eq] at bound
  omega

theorem makespan_le_iff {n : ℕ} :
    P.makespan pos ≤ n ↔ ∀ a ∈ P.agents, P.arrival pos a + 1 ≤ n := Finset.sup_le_iff

/-! ## Conflicts before deadlines -/

variable (deadline : A → ℕ)

/-- Agents which hold mutually exclusive tokens until their deadlines, and keep others' tokens off
their goals afterwards, never share a vertex. -/
theorem vertexFree_of_tokens (token : A → V → ℕ → Prop)
    (parked : ∀ a ∈ P.agents, ∀ t, deadline a ≤ t → pos a t = P.goal a)
    (holds : ∀ a ∈ P.agents, ∀ t, t ≤ deadline a → token a (pos a t) t)
    (exclusive : ∀ a ∈ P.agents, ∀ b ∈ P.agents, a ≠ b → ∀ v t, token a v t → ¬token b v t)
    (guarded : ∀ a ∈ P.agents, ∀ b ∈ P.agents, a ≠ b → ∀ t, deadline a < t → t ≤ deadline b →
      ¬token b (P.goal a) t) : P.VertexFree pos := by
  have early : ∀ a ∈ P.agents, ∀ b ∈ P.agents, a ≠ b → deadline a ≤ deadline b → ∀ t,
      t ≤ deadline b → pos a t ≠ pos b t := by
    intro a memA b memB distinct le t bound same
    by_cases both : t ≤ deadline a
    · exact exclusive a memA b memB distinct _ t (holds a memA t both) (same ▸ holds b memB t bound)
    · have home := parked a memA t (by omega)
      have tokenB := holds b memB t bound
      rw [← same, home] at tokenB
      exact guarded a memA b memB distinct t (by omega) bound tokenB
  have ordered : ∀ a ∈ P.agents, ∀ b ∈ P.agents, a ≠ b → deadline a ≤ deadline b → ∀ t,
      pos a t ≠ pos b t := by
    intro a memA b memB distinct le t same
    by_cases bound : t ≤ deadline b
    · exact early a memA b memB distinct le t bound same
    · -- both have parked, so they already met at the later deadline
      rw [parked a memA t (by omega), parked b memB t (by omega)] at same
      exact early a memA b memB distinct le _ le_rfl
        ((parked a memA _ le).trans (same.trans (parked b memB _ le_rfl).symm))
  intro a memA b memB distinct t
  rcases le_total (deadline a) (deadline b) with le | le
  · exact ordered a memA b memB distinct le t
  · exact (ordered b memB a memA distinct.symm le t).symm

/-- Without shared vertices only agents which both move before their deadlines can swap. -/
theorem swapFree_of_moving (vertex : P.VertexFree pos)
    (parked : ∀ a ∈ P.agents, ∀ t, deadline a ≤ t → pos a t = P.goal a)
    (moving : ∀ a ∈ P.agents, ∀ b ∈ P.agents, a ≠ b → ∀ t, t < deadline a → t < deadline b →
      pos a (t + 1) ≠ pos a t → ¬(pos a t = pos b (t + 1) ∧ pos a (t + 1) = pos b t)) :
    P.SwapFree pos := by
  intro a memA b memB distinct t swap
  have movesA : pos a (t + 1) ≠ pos a t := fun stay =>
    vertex a memA b memB distinct t (stay.symm.trans swap.2)
  have movesB : pos b (t + 1) ≠ pos b t := fun stay =>
    vertex a memA b memB distinct t (swap.1.trans stay)
  have before {c : A} (member : c ∈ P.agents) (moves : pos c (t + 1) ≠ pos c t) :
      t < deadline c := by
    by_contra late
    exact moves ((parked c member _ (by omega)).trans (parked c member _ (by omega)).symm)
  exact moving a memA b memB distinct t (before memA movesA) (before memB movesB) movesA swap

/-- Without shared vertices only agents which both move before their deadlines can follow. -/
theorem followFree_of_moving (vertex : P.VertexFree pos)
    (parked : ∀ a ∈ P.agents, ∀ t, deadline a ≤ t → pos a t = P.goal a)
    (moving : ∀ a ∈ P.agents, ∀ b ∈ P.agents, a ≠ b → ∀ t, t < deadline a → t < deadline b →
      pos a (t + 1) ≠ pos a t → pos b (t + 1) ≠ pos b t → pos a (t + 1) ≠ pos b t) :
    P.FollowFree pos := by
  intro a memA b memB distinct t follow
  have movesA : pos a (t + 1) ≠ pos a t := fun stay =>
    vertex a memA b memB distinct t (stay.symm.trans follow)
  have movesB : pos b (t + 1) ≠ pos b t := fun stay =>
    vertex a memA b memB distinct (t + 1) (follow.trans stay.symm)
  have before {c : A} (member : c ∈ P.agents) (moves : pos c (t + 1) ≠ pos c t) :
      t < deadline c := by
    by_contra late
    exact moves ((parked c member _ (by omega)).trans (parked c member _ (by omega)).symm)
  exact moving a memA b memB distinct t (before memA movesA) (before memB movesB) movesA movesB
    follow

end Problem

end PathFinding

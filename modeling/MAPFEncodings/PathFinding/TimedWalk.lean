import Mathlib.Logic.Relation
import Mathlib.Tactic.NormNum

/-! # Walks in a time-expanded graph

The nodes of a time-expanded graph are pairs of a vertex and a time, and every edge leads to the
next time. A path between two nodes is a walk which takes one step for each unit of time. The
nodes may also be split into an in-node and an out-node, with an edge between the two wherever the
vertex may be used.
-/

namespace PathFinding

open Relation

variable {V κ : Type*}

/-- The vertices which a walk from `s` reaches at a time. -/
inductive Reached (step : V → ℤ → V → Prop) (s : V) : V → ℕ → Prop where
  | start : Reached step s s 0
  | next {v u : V} {t : ℕ} : Reached step s v t → step v t u → Reached step s u (t + 1)

variable {step : V → ℤ → V → Prop} {s : V}

theorem reached_of_walk {w : ℕ → V} {n : ℕ} (first : w 0 = s)
    (steps : ∀ t < n, step (w t) t (w (t + 1))) : Reached step s (w n) n := by
  induction n with
  | zero => exact first ▸ .start
  | succ n ih => exact (ih fun t before => steps t (by omega)).next (steps n (by omega))

/-- A vertex is reached exactly by the walks which end there. -/
theorem reached_iff {v : V} {n : ℕ} : Reached step s v n ↔
    ∃ w : ℕ → V, w 0 = s ∧ w n = v ∧ ∀ t < n, step (w t) t (w (t + 1)) := by
  constructor
  · intro reached
    induction reached with
    | start => exact ⟨fun _ => s, rfl, rfl, fun t before => absurd before t.not_lt_zero⟩
    | @next v u n _ move ih =>
      obtain ⟨w, first, last, steps⟩ := ih
      refine ⟨fun t => if t ≤ n then w t else u, by simp [first], by simp, fun t before => ?_⟩
      have inside : t ≤ n := by omega
      rcases inside.lt_or_eq with lt | rfl
      · simpa [inside, show t + 1 ≤ n from lt] using steps t lt
      · simpa [last] using move
  · rintro ⟨w, first, rfl, steps⟩
    exact reached_of_walk first steps

/-! ## Graphs -/

variable {R : κ → κ → Prop}

/-- In a time-expanded graph with one node for each vertex and time. -/
theorem reflTransGen_node_iff (dom : V → ℤ → Prop) (node : V → ℤ → κ) (step : V → ℤ → V → Prop)
    (inj : ∀ {v t v' t'}, dom v t → dom v' t' → node v t = node v' t' → v = v' ∧ t = t')
    (edges : ∀ k k', R k k' ↔ ∃ v t u, (dom v t ∧ dom u (t + 1)) ∧ step v t u ∧
      k = node v t ∧ k' = node u (t + 1)) {g : V} {n : ℕ} (source : dom s 0) (target : dom g n) :
    ReflTransGen R (node s 0) (node g n) ↔
      Reached (fun v t u => (dom v t ∧ dom u (t + 1)) ∧ step v t u) s g n := by
  constructor
  · have reached : ∀ k, ReflTransGen R (node s 0) k → ∃ v, ∃ n : ℕ, dom v n ∧ k = node v n ∧
        Reached (fun v t u => (dom v t ∧ dom u (t + 1)) ∧ step v t u) s v n := by
      intro k path
      induction path with
      | refl => exact ⟨s, 0, source, rfl, .start⟩
      | tail _ edge ih =>
        obtain ⟨v, n, inside, rfl, before⟩ := ih
        obtain ⟨v', t', u, ⟨tail, head⟩, move, same, rfl⟩ := (edges _ _).mp edge
        obtain ⟨rfl, rfl⟩ := inj inside tail same
        exact ⟨u, n + 1, by exact_mod_cast head, by push_cast; rfl,
          before.next ⟨⟨inside, head⟩, move⟩⟩
    intro path
    obtain ⟨v, m, inside, same, before⟩ := reached _ path
    obtain ⟨rfl, times⟩ := inj target inside same
    obtain rfl : n = m := by exact_mod_cast times
    exact before
  · intro before
    clear target
    induction before with
    | start => exact .refl
    | @next v u n _ move ih =>
      refine ih.tail ((edges _ _).mpr ⟨v, n, u, move.1, move.2, rfl, ?_⟩)
      push_cast
      rfl

/-- In a time-expanded graph whose nodes are split. -/
theorem reflTransGen_split_iff (dom : V → ℤ → Prop) (inner outer : V → ℤ → κ)
    (here : V → ℤ → Prop) (step : V → ℤ → V → Prop)
    (injI : ∀ {v t v' t'}, dom v t → dom v' t' → inner v t = inner v' t' → v = v' ∧ t = t')
    (injO : ∀ {v t v' t'}, dom v t → dom v' t' → outer v t = outer v' t' → v = v' ∧ t = t')
    (apart : ∀ {v t v' t'}, dom v t → dom v' t' → inner v t ≠ outer v' t')
    (edges : ∀ k k', R k k' ↔
      (∃ v t, dom v t ∧ here v t ∧ k = inner v t ∧ k' = outer v t) ∨
      ∃ v t u, (dom v t ∧ dom u (t + 1)) ∧ step v t u ∧ k = outer v t ∧ k' = inner u (t + 1))
    {g : V} {n : ℕ} (source : dom s 0) (target : dom g n) :
    ReflTransGen R (inner s 0) (outer g n) ↔
      Reached (fun v t u => (dom v t ∧ here v t) ∧ dom u (t + 1) ∧ step v t u) s g n ∧
        here g n := by
  constructor
  · -- a path is at an in-node, or at an out-node which it entered through the split
    have reached : ∀ k, ReflTransGen R (inner s 0) k → ∃ v, ∃ n : ℕ, dom v n ∧
        Reached (fun v t u => (dom v t ∧ here v t) ∧ dom u (t + 1) ∧ step v t u) s v n ∧
          (k = inner v n ∨ (k = outer v n ∧ here v n)) := by
      intro k path
      induction path with
      | refl => exact ⟨s, 0, source, .start, .inl rfl⟩
      | tail _ edge ih =>
        obtain ⟨v, n, inside, before, position⟩ := ih
        rcases (edges _ _).mp edge with ⟨v', t', tail, used, same, rfl⟩ |
          ⟨v', t', u, ⟨tail, head⟩, move, same, rfl⟩
        · rcases position with rfl | ⟨rfl, -⟩
          · obtain ⟨rfl, rfl⟩ := injI inside tail same
            exact ⟨v, n, inside, before, .inr ⟨rfl, used⟩⟩
          · exact absurd same.symm (apart tail inside)
        · rcases position with rfl | ⟨rfl, used⟩
          · exact absurd same (apart inside tail)
          · obtain ⟨rfl, rfl⟩ := injO inside tail same
            exact ⟨u, n + 1, by exact_mod_cast head, before.next ⟨⟨inside, used⟩, head, move⟩,
              .inl (by push_cast; rfl)⟩
    intro path
    obtain ⟨v, m, inside, before, position⟩ := reached _ path
    rcases position with same | ⟨same, used⟩
    · exact absurd same.symm (apart inside target)
    · obtain ⟨rfl, times⟩ := injO target inside same
      obtain rfl : n = m := by exact_mod_cast times
      exact ⟨before, used⟩
  · rintro ⟨before, used⟩
    suffices arrives : ReflTransGen R (inner s 0) (inner g n) from
      arrives.tail ((edges _ _).mpr (.inl ⟨g, n, target, used, rfl, rfl⟩))
    clear target used
    induction before with
    | start => exact .refl
    | @next v u n _ move ih =>
      refine (ih.tail ((edges _ _).mpr (.inl ⟨v, n, move.1.1, move.1.2, rfl, rfl⟩))).tail
        ((edges _ _).mpr (.inr ⟨v, n, u, ⟨move.1.1, move.2.1⟩, move.2.2, rfl, ?_⟩))
      push_cast
      rfl

end PathFinding

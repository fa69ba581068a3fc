import Mathlib.Algebra.Order.Ring.Int
import Mathlib.Logic.Relation
import Mathlib.Tactic

/-! # Distance tables and the breadth-first search invariant

A distance table assigns `-1` to unreachable vertices and the length of a shortest path to the
others. `IsDistance` characterizes it locally: one source of value zero, values which grow by at
most one along an edge, and a predecessor for every positive value.

`Frontier` is the invariant of the queue loop of breadth-first search and `Expanding` the one
inside an iteration, after the head of the queue has been removed and while its neighbours are
inspected. The rules here are independent of how the table and the queue are represented.
-/

namespace Distance

variable {V : Type*}

/-- A shortest-path table from `source` along `adj`, with `-1` for unreachable vertices. -/
structure IsDistance (adj : V → V → Prop) (source : V) (len : V → ℤ) : Prop where
  source_eq : len source = 0
  lower : ∀ v, -1 ≤ len v
  eq_source : ∀ v, len v = 0 → v = source
  extend : ∀ v u, adj v u → 0 ≤ len v → 0 ≤ len u ∧ len u ≤ len v + 1
  pred : ∀ v, 0 < len v → ∃ u, adj u v ∧ len u = len v - 1

/-- A sequence of vertices which stays or moves along `adj` at every step. -/
def IsWalk (adj : V → V → Prop) (w : ℕ → V) : Prop := ∀ t, w (t + 1) = w t ∨ adj (w t) (w (t + 1))

namespace IsWalk

variable {adj : V → V → Prop} {w w' : ℕ → V}

/-- A walk which stops after `n` steps. -/
theorem stop (walk : IsWalk adj w) (n : ℕ) : IsWalk adj fun t => w (min t n) := by
  intro t
  dsimp only
  rcases Nat.lt_or_ge t n with before | after
  · rw [Nat.min_eq_left before.le, Nat.min_eq_left before]
    exact walk t
  · rw [Nat.min_eq_right after, Nat.min_eq_right (Nat.le_succ_of_le after)]
    exact .inl rfl

/-- The first `n` steps of a walk backwards. -/
theorem reverse (symm : ∀ v u, adj v u → adj u v) (walk : IsWalk adj w) (n : ℕ) :
    IsWalk adj fun t => w (n - t) := by
  intro t
  dsimp only
  rcases Nat.lt_or_ge t n with before | after
  · have index : n - t = n - (t + 1) + 1 := by omega
    rcases walk (n - (t + 1)) with stay | move
    · rw [← index] at stay
      exact .inl stay.symm
    · rw [← index] at move
      exact .inr (symm _ _ move)
  · exact .inl (by rw [Nat.sub_eq_zero_of_le after, Nat.sub_eq_zero_of_le (Nat.le_succ_of_le after)])

/-- A walk which continues as another one after `n` steps. -/
theorem append (first : IsWalk adj w) (second : IsWalk adj w') {n : ℕ} (meet : w n = w' 0) :
    IsWalk adj fun t => if t ≤ n then w t else w' (t - n) := by
  intro t
  dsimp only
  rcases Nat.lt_trichotomy t n with before | rfl | after
  · rw [if_pos (Nat.succ_le_of_lt before), if_pos before.le]
    exact first t
  · rw [if_neg (by omega), if_pos le_rfl, Nat.add_sub_cancel_left, meet]
    exact second 0
  · rw [if_neg (by omega), if_neg (by omega), Nat.sub_add_comm after.le]
    exact second (t - n)

end IsWalk

namespace IsDistance

variable {adj : V → V → Prop} {s g : V} {len : V → ℤ}

/-- Along a walk the distance grows by at most one per step. -/
theorem le_of_isWalk (dist : IsDistance adj s len) {w : ℕ → V} (walk : IsWalk adj w) {t : ℕ}
    (known : 0 ≤ len (w t)) (k : ℕ) :
    0 ≤ len (w (t + k)) ∧ len (w (t + k)) ≤ len (w t) + k := by
  induction k with
  | zero => exact ⟨known, by simp⟩
  | succ k ih =>
    rcases walk (t + k) with stay | move
    · rw [← Nat.add_assoc, stay]
      exact ⟨ih.1, by push_cast; omega⟩
    · have step := dist.extend _ _ move ih.1
      rw [← Nat.add_assoc]
      exact ⟨step.1, by push_cast; omega⟩

/-- The table knows exactly the reachable vertices. -/
theorem nonneg_iff (dist : IsDistance adj s len) {v : V} :
    0 ≤ len v ↔ Relation.ReflTransGen adj s v := by
  constructor
  · intro known
    obtain ⟨n, same⟩ := Int.eq_ofNat_of_zero_le known
    induction n generalizing v with
    | zero => rw [dist.eq_source v same]
    | succ n ih =>
      obtain ⟨u, edge, before⟩ := dist.pred v (by omega)
      exact (ih (by omega) (by omega)).tail edge
  · intro path
    induction path with
    | refl => exact dist.source_eq.ge
    | tail _ edge ih => exact (dist.extend _ _ edge ih).1

theorem eq_neg_one (dist : IsDistance adj s len) {v : V} (unknown : ¬0 ≤ len v) : len v = -1 := by
  have := dist.lower v
  omega

/-- On a symmetric graph the values at the ends of an edge differ by at most one, also where both
are unreachable. -/
theorem le_succ (dist : IsDistance adj s len) (symm : ∀ v u, adj v u → adj u v) {v u : V}
    (step : u = v ∨ adj v u) : len u ≤ len v + 1 := by
  rcases step with rfl | edge
  · omega
  · have lower := dist.lower v
    by_cases known : 0 ≤ len u
    · have back := (dist.extend u v (symm v u edge) known).1
      exact (dist.extend v u edge back).2
    · omega

/-- The value is attained: some walk reaches `v` in exactly `len v` steps. -/
theorem exists_isWalk (dist : IsDistance adj s len) {v : V} {n : ℕ} (atN : len v = n) :
    ∃ w, IsWalk adj w ∧ w 0 = s ∧ w n = v := by
  induction n generalizing v with
  | zero =>
    exact ⟨fun _ => v, fun _ => .inl rfl, dist.eq_source v atN, rfl⟩
  | succ n ih =>
    obtain ⟨u, edge, before⟩ := dist.pred v (by omega)
    obtain ⟨w, walk, first, last⟩ := ih (v := u) (by push_cast at atN; omega)
    refine ⟨fun t => if t ≤ n then w t else v, fun t => ?_, by simpa using first, by simp⟩
    rcases lt_trichotomy t n with lt | rfl | gt
    · simpa [lt.le, Nat.succ_le_of_lt lt] using walk t
    · right
      simpa [last] using edge
    · left
      simp [show ¬t ≤ n by omega, show ¬t + 1 ≤ n by omega]

/-- On a symmetric graph a positive value decreases along some outgoing edge. -/
theorem descend (dist : IsDistance adj s len) (symm : ∀ v u, adj v u → adj u v) {v : V}
    (pos : 0 < len v) : ∃ u, adj v u ∧ len u = len v - 1 := by
  obtain ⟨u, edge, before⟩ := dist.pred v pos
  exact ⟨u, symm u v edge, before⟩

end IsDistance

/-! ## Paths of a given length -/

/-- A path along `adj` from `s` with a number of edges. -/
inductive PathOfLength (adj : V → V → Prop) (s : V) : V → ℕ → Prop
  | start : PathOfLength adj s s 0
  | step {v u : V} {n : ℕ} (path : PathOfLength adj s v n) (edge : adj v u) :
    PathOfLength adj s u (n + 1)

/-- A map which keeps edges keeps paths with their lengths. -/
theorem PathOfLength.map {W : Type*} {adj : V → V → Prop} {adj' : W → W → Prop} {f : V → W}
    (keeps : ∀ v u, adj v u → adj' (f v) (f u)) {s v : V} {n : ℕ} (path : PathOfLength adj s v n) :
    PathOfLength adj' (f s) (f v) n := by
  induction path with
  | start => exact .start
  | step _ edge ih => exact ih.step (keeps _ _ edge)

theorem PathOfLength.eq_start {adj : V → V → Prop} {s v : V} (path : PathOfLength adj s v 0) :
    v = s := by
  cases path
  rfl

theorem PathOfLength.reachable {adj : V → V → Prop} {s v : V} {n : ℕ}
    (path : PathOfLength adj s v n) : Relation.ReflTransGen adj s v := by
  induction path with
  | start => exact .refl
  | step _ edge ih => exact ih.tail edge

namespace IsDistance

variable {adj : V → V → Prop} {s : V} {len : V → ℤ}

/-- No path is shorter than the table says. -/
theorem le_of_path (dist : IsDistance adj s len) {v : V} {n : ℕ} (path : PathOfLength adj s v n) :
    0 ≤ len v ∧ len v ≤ n := by
  induction path with
  | start => exact ⟨dist.source_eq.ge, by rw [dist.source_eq]; rfl⟩
  | step _ edge ih =>
    have := dist.extend _ _ edge ih.1
    push_cast
    exact ⟨this.1, by omega⟩

/-- Some path is as short as the table says. -/
theorem exists_path (dist : IsDistance adj s len) {v : V} {n : ℕ} (atN : len v = n) :
    PathOfLength adj s v n := by
  induction n generalizing v with
  | zero => rw [dist.eq_source v atN]; exact .start
  | succ n ih =>
    obtain ⟨u, edge, before⟩ := dist.pred v (by omega)
    exact (ih (by push_cast at atN; omega)).step edge

/-- The value of a reachable vertex is the least length of a path. -/
theorem eq_of_isLeast (dist : IsDistance adj s len) {v : V} {n : ℕ}
    (least : IsLeast {n | PathOfLength adj s v n} n) : len v = n := by
  have bound := dist.le_of_path least.1
  obtain ⟨k, same⟩ := Int.eq_ofNat_of_zero_le bound.1
  have := least.2 (dist.exists_path same)
  omega

/-- The value of an unreachable vertex is `-1`. -/
theorem eq_neg_one_of_forall (dist : IsDistance adj s len) {v : V}
    (unreachable : ∀ n, ¬PathOfLength adj s v n) : len v = -1 := by
  apply dist.eq_neg_one
  intro known
  obtain ⟨k, same⟩ := Int.eq_ofNat_of_zero_le known
  exact unreachable k (dist.exists_path same)

end IsDistance

/-- Walks may be read backwards on a symmetric graph. -/
theorem reachable_symm {adj : V → V → Prop} (symm : ∀ v u, adj v u → adj u v) {v u : V}
    (path : Relation.ReflTransGen adj v u) : Relation.ReflTransGen adj u v := by
  induction path with
  | refl => exact .refl
  | tail _ edge ih => exact ih.head (symm _ _ edge)

/-- Distances between two vertices agree in both directions. -/
theorem swap_endpoints {adj : V → V → Prop} (symm : ∀ v u, adj v u → adj u v) {s g : V}
    {ds dg : V → ℤ} (fromS : IsDistance adj s ds) (fromG : IsDistance adj g dg)
    (known : 0 ≤ ds g) : dg s = ds g := by
  have known' : 0 ≤ dg s := fromG.nonneg_iff.mpr (reachable_symm symm (fromS.nonneg_iff.mp known))
  have le {a b : V} {da db : V → ℤ} (fromA : IsDistance adj a da) (fromB : IsDistance adj b db)
      (h : 0 ≤ da b) : db a ≤ da b := by
    obtain ⟨n, same⟩ := Int.eq_ofNat_of_zero_le h
    obtain ⟨w, walk, first, last⟩ := fromA.exists_isWalk same
    let back : ℕ → V := fun t => w (n - t)
    have backWalk : IsWalk adj back := fun t => by
      by_cases inside : t < n
      · have index : n - t = n - (t + 1) + 1 := by omega
        rcases walk (n - (t + 1)) with stay | move
        · exact .inl (by change w _ = w _; rw [index, stay])
        · exact .inr (symm _ _ (by change adj (w _) (w (n - t)); rwa [index]))
      · exact .inl (by change w _ = w _; congr 1; omega)
    have bound := (fromB.le_of_isWalk backWalk (t := 0)
      (by change 0 ≤ db (w (n - 0)); rw [Nat.sub_zero, last, fromB.source_eq]) n).2
    change db (w (n - (0 + n))) ≤ db (w (n - 0)) + n at bound
    rw [Nat.zero_add, Nat.sub_self, Nat.sub_zero, first, last, fromB.source_eq] at bound
    omega
  exact le_antisymm (le fromS fromG known) (le fromG fromS known')

/-! ## Breadth-first search -/

/-- The queue loop's invariant. Values in the queue ascend and span at most two levels, and
every settled vertex (known and no longer queued) has had all its edges relaxed. -/
structure Frontier (adj : V → V → Prop) (source : V) (len : V → ℤ) (queue : List V) : Prop where
  source_eq : len source = 0
  lower : ∀ v, -1 ≤ len v
  eq_source : ∀ v, len v = 0 → v = source
  pred : ∀ v, 0 < len v → ∃ u, adj u v ∧ len u = len v - 1
  known : ∀ v ∈ queue, 0 ≤ len v
  settled : ∀ v, 0 ≤ len v → v ∉ queue → ∀ u, adj v u → 0 ≤ len u ∧ len u ≤ len v + 1
  ascending : queue.Pairwise (fun v u => len v ≤ len u)
  spread : ∀ v, 0 ≤ len v → ∀ q ∈ queue, len v ≤ len q + 1

/-- The invariant while the neighbours `todo` of the removed head `x` are still to be seen. -/
structure Expanding (adj : V → V → Prop) (source : V) (len : V → ℤ) (x : V) (queue todo : List V) :
    Prop where
  source_eq : len source = 0
  lower : ∀ v, -1 ≤ len v
  eq_source : ∀ v, len v = 0 → v = source
  pred : ∀ v, 0 < len v → ∃ u, adj u v ∧ len u = len v - 1
  known : ∀ v ∈ x :: queue, 0 ≤ len v
  settled : ∀ v, 0 ≤ len v → v ∉ queue → ∀ u, adj v u →
    (v = x ∧ u ∈ todo) ∨ 0 ≤ len u ∧ len u ≤ len v + 1
  ascending : (x :: queue).Pairwise (fun v u => len v ≤ len u)
  spread : ∀ v, 0 ≤ len v → ∀ q ∈ x :: queue, len v ≤ len q + 1
  edges : ∀ u ∈ todo, adj x u

variable {adj : V → V → Prop} {source x u : V} {len : V → ℤ} {queue todo : List V}

/-- The search starts with the source alone in the queue. -/
theorem Frontier.init [DecidableEq V] :
    Frontier adj source (Function.update (fun _ => -1) source 0) [source] where
  source_eq := Function.update_self ..
  lower v := by unfold Function.update; split <;> simp
  eq_source v zero := by
    by_contra other
    simp [Function.update_of_ne other] at zero
  pred v pos := by
    by_cases same : v = source
    · simp [same] at pos
    · simp [Function.update_of_ne same] at pos
  known v member := by simp [List.mem_singleton.mp member]
  settled v known outside := by
    rw [List.mem_singleton] at outside
    simp [Function.update_of_ne outside] at known
  ascending := by simp
  spread v known q member := by
    rw [List.mem_singleton.mp member, Function.update_self]
    unfold Function.update
    split <;> simp

/-- Removing the head leaves all its neighbours to be seen. -/
theorem Frontier.pop (inv : Frontier adj source len (x :: queue))
    (all : ∀ u, adj x u ↔ u ∈ todo) : Expanding adj source len x queue todo where
  source_eq := inv.source_eq
  lower := inv.lower
  eq_source := inv.eq_source
  pred := inv.pred
  known := inv.known
  settled v known outside u edge := by
    by_cases head : v = x
    · exact .inl ⟨head, (all u).mp (head ▸ edge)⟩
    · exact .inr (inv.settled v known (by simp [head, outside]) u edge)
  ascending := inv.ascending
  spread := inv.spread
  edges u member := (all u).mpr member

/-- A neighbour without a value receives the next level and joins the queue. -/
theorem Expanding.discover [DecidableEq V] (inv : Expanding adj source len x queue (u :: todo))
    (fresh : len u = -1) :
    Expanding adj source (Function.update len u (len x + 1)) x (queue ++ [u]) todo := by
  have knownX : 0 ≤ len x := inv.known x List.mem_cons_self
  have other {v : V} (known : 0 ≤ len v) : v ≠ u := by rintro rfl; omega
  have keep {v : V} (known : 0 ≤ len v) : Function.update len u (len x + 1) v = len v :=
    Function.update_of_ne (other known) ..
  have value : Function.update len u (len x + 1) u = len x + 1 := Function.update_self ..
  have before {v : V} (known : 0 ≤ Function.update len u (len x + 1) v) : v = u ∨ 0 ≤ len v := by
    by_cases same : v = u
    · exact .inl same
    · exact .inr (by rwa [Function.update_of_ne same] at known)
  have queued {q : V} (member : q ∈ x :: (queue ++ [u])) : q = u ∨ q ∈ x :: queue := by
    simp only [List.mem_cons, List.mem_append, List.not_mem_nil, or_false] at member ⊢
    tauto
  have level {q : V} (member : q ∈ x :: queue) : len x ≤ len q := by
    rcases List.mem_cons.mp member with rfl | tail
    · exact le_rfl
    · exact (List.pairwise_cons.mp inv.ascending).1 q tail
  refine ⟨?_, ?_, ?_, ?_, ?_, ?_, ?_, ?_, ?_⟩
  · rw [keep inv.source_eq.ge, inv.source_eq]
  · intro v
    by_cases same : v = u
    · rw [same, value]; omega
    · rw [Function.update_of_ne same]; exact inv.lower v
  · intro v zero
    rcases before zero.ge with rfl | known
    · omega
    · exact inv.eq_source v (by rwa [keep known] at zero)
  · intro v pos
    rcases before pos.le with rfl | known
    · exact ⟨x, inv.edges v List.mem_cons_self, by rw [keep knownX, value]; omega⟩
    · rw [keep known] at pos ⊢
      obtain ⟨p, edge, level⟩ := inv.pred v pos
      exact ⟨p, edge, by rw [keep (by omega), level]⟩
  · intro v member
    rcases queued member with rfl | old
    · omega
    · rw [keep (inv.known v old)]; exact inv.known v old
  · intro v known outside w edge
    have fresh' : v ≠ u := by rintro rfl; simp at outside
    have old : 0 ≤ len v := (before known).resolve_left fresh'
    rw [keep old]
    rcases inv.settled v old (fun member => outside (by simp [member])) w edge with
      ⟨rfl, member⟩ | done
    · rcases List.mem_cons.mp member with rfl | later
      · exact .inr ⟨by omega, by omega⟩
      · exact .inl ⟨rfl, later⟩
    · exact .inr (by rw [keep done.1]; exact done)
  · rw [List.pairwise_cons, List.pairwise_append]
    have old := List.pairwise_cons.mp inv.ascending
    have tail {q : V} (member : q ∈ queue) : 0 ≤ len q := inv.known q (List.mem_cons_of_mem _ member)
    refine ⟨fun q member => ?_, ?_, by simp, fun q member r last => ?_⟩
    · rw [keep knownX]
      rcases List.mem_append.mp member with inside | last
      · rw [keep (tail inside)]; exact old.1 q inside
      · rw [List.mem_singleton.mp last, value]; omega
    · refine old.2.imp_of_mem fun {q r} mq mr le => ?_
      rwa [keep (tail mq), keep (tail mr)]
    · rw [List.mem_singleton.mp last, value, keep (tail member)]
      exact inv.spread q (tail member) x List.mem_cons_self
  · intro v known q member
    have high : Function.update len u (len x + 1) v ≤ len x + 1 := by
      rcases before known with rfl | old
      · exact value.le
      · rw [keep old]; exact inv.spread v old x List.mem_cons_self
    rcases queued member with rfl | old
    · omega
    · rw [keep (inv.known q old)]
      have := level old
      omega
  · exact fun w member => inv.edges w (List.mem_cons_of_mem _ member)

/-- A neighbour which already has a value needs no update. -/
theorem Expanding.skip (inv : Expanding adj source len x queue (u :: todo)) (seen : len u ≠ -1) :
    Expanding adj source len x queue todo where
  source_eq := inv.source_eq
  lower := inv.lower
  eq_source := inv.eq_source
  pred := inv.pred
  known := inv.known
  settled v known outside w edge := by
    rcases inv.settled v known outside w edge with ⟨rfl, member⟩ | done
    · rcases List.mem_cons.mp member with rfl | later
      · have := inv.lower w
        have bound := inv.spread w (by omega) v List.mem_cons_self
        exact .inr ⟨by omega, bound⟩
      · exact .inl ⟨rfl, later⟩
    · exact .inr done
  ascending := inv.ascending
  spread := inv.spread
  edges w member := inv.edges w (List.mem_cons_of_mem _ member)

/-- Once every neighbour has been seen the head is settled. -/
theorem Expanding.done (inv : Expanding adj source len x queue []) :
    Frontier adj source len queue where
  source_eq := inv.source_eq
  lower := inv.lower
  eq_source := inv.eq_source
  pred := inv.pred
  known v member := inv.known v (List.mem_cons_of_mem _ member)
  settled v known outside u edge := by simpa using inv.settled v known outside u edge
  ascending := (List.pairwise_cons.mp inv.ascending).2
  spread v known q member := inv.spread v known q (List.mem_cons_of_mem _ member)

/-- With an empty queue every known vertex is settled: the table is the distance table. -/
theorem Frontier.isDistance (inv : Frontier adj source len []) : IsDistance adj source len where
  source_eq := inv.source_eq
  lower := inv.lower
  eq_source := inv.eq_source
  extend v u edge known := inv.settled v known List.not_mem_nil u edge
  pred := inv.pred

end Distance

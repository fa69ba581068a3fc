import MAPFEncodings.Proofs.PlanChecks
import MAPFEncodings.Soundness.Plans

/-! # Recorded conflicts

`GenerateConflicts` compares the positions shown by a plan. If it records nothing, the plan has no
conflicts at any time, because all agents are parked where the rows end. The tuples it records name
positions inside the windows of the tables, if goals are distinct: a parked agent is protected by
the clauses which keep others off its goal. Windows only grow with the bound of the cost, so this
stays true for tuples which are left over from a smaller bound.
-/

namespace MAPFEncodings

open Cnf PathFinding

/-- The agents and the cells between which a recorded conflict with two vertices takes place. -/
structure EdgeConflict.Between (task : Task) (c : EdgeConflict) (v u : ℕ) (dir : Dir) : Prop where
  boundA : c.a1 < task.ags
  boundB : c.a2 < task.ags
  distinct : c.a1 ≠ c.a2
  tail : c.v = some v
  head : c.u = some u
  cell : v < task.inst.numberOfVertices
  moves : dir ≠ .wait
  next : task.inst.getNeighbor v dir = some u

namespace Task

variable (task : Task) (L : ℕ → ℕ)

/-- The windows of the agents' positions. -/
def Window (a v : ℕ) (t : ℤ) : Prop :=
  Alive (task.inst.firstTimestep a) (task.inst.toGoal a) (L a) v t

/-- Both agents of a vertex conflict have a variable for it. -/
structure VertexRecord (c : VertexConflict) : Prop where
  ordered : c.a1 < c.a2
  bound : c.a2 < task.ags
  windows : ∃ v, c.v = some v ∧ v < task.inst.numberOfVertices ∧
    task.Window L c.a1 v c.t ∧ task.Window L c.a2 v c.t

/-- Both agents of a swapping conflict have variables for their moves. -/
structure SwapRecord (c : EdgeConflict) : Prop where
  ordered : c.a1 < c.a2
  before : c.t < L c.a1
  windows : ∃ v u dir, c.Between task v u dir ∧
    (task.Window L c.a1 v c.t ∧ task.Window L c.a1 u ((c.t : ℤ) + 1)) ∧
      task.Window L c.a2 u c.t ∧ task.Window L c.a2 v ((c.t : ℤ) + 1)

/-- The first agent of a pebble conflict has variables for its move and the second one has a
variable for the entered vertex. -/
structure PebbleRecord (c : EdgeConflict) (t : ℕ) : Prop where
  time : c.t = t + 1
  before : t < L c.a1
  windows : ∃ v u dir, c.Between task v u dir ∧
    (task.Window L c.a1 v t ∧ task.Window L c.a1 u ((t : ℤ) + 1)) ∧ task.Window L c.a2 u t

/-- All recorded tuples name existing variables. -/
structure Recorded (conflicts : Conflicts) : Prop where
  vertex : ∀ c ∈ conflicts.vertex, task.VertexRecord L c
  swap : ∀ c ∈ conflicts.swap, task.SwapRecord L c
  pebble : ∀ c ∈ conflicts.pebble, ∃ t, task.PebbleRecord L c t

variable {task L} {L' : ℕ → ℕ}

theorem Window.mono (le : ∀ a < task.ags, L a ≤ L' a) {a v : ℕ} {t : ℤ} (bound : a < task.ags)
    (window : task.Window L a v t) : task.Window L' a v t := by
  have := le a bound
  exact ⟨window.1, window.2.trans (by omega)⟩

/-- Tuples survive an increase of the bound. -/
theorem Recorded.mono (le : ∀ a < task.ags, L a ≤ L' a) {conflicts : Conflicts}
    (recorded : task.Recorded L conflicts) : task.Recorded L' conflicts where
  vertex c member := by
    obtain ⟨ordered, bound, v, same, cell, first, second⟩ := recorded.vertex c member
    exact ⟨ordered, bound, v, same, cell, first.mono le (ordered.trans bound), second.mono le bound⟩
  swap c member := by
    obtain ⟨ordered, before, v, u, dir, between, ⟨tail, head⟩, tail', head'⟩ :=
      recorded.swap c member
    exact ⟨ordered, before.trans_le (le _ between.boundA), v, u, dir, between,
      ⟨tail.mono le between.boundA, head.mono le between.boundA⟩,
      tail'.mono le between.boundB, head'.mono le between.boundB⟩
  pebble c member := by
    obtain ⟨t, time, before, v, u, dir, between, ⟨tail, head⟩, there⟩ := recorded.pebble c member
    exact ⟨t, time, before.trans_le (le _ between.boundA), v, u, dir, between,
      ⟨tail.mono le between.boundA, head.mono le between.boundA⟩, there.mono le between.boundB⟩

end Task

/-! ## `GenerateConflicts` on shown positions -/

section Generate

variable {n len : ℕ} {pos : ℕ → ℕ → ℕ} {movement : Movement}

theorem planOf_entry {a t : ℕ} (boundA : a < n) (boundT : t < len) :
    (planOf n len pos).entry a t = some (pos a t) := by
  simp [Plan.entry, planOf, List.getD_eq_getElem?_getD, boundA, boundT]

private theorem length_planOf : (planOf n len pos).length = n := by simp [planOf]

private theorem rectangular_planOf : (planOf n len pos).Rectangular len := by
  intro row member
  obtain ⟨a, -, rfl⟩ := List.mem_map.mp member
  simp

/-- Vertex conflicts are shared positions. -/
theorem mem_vertex_iff {c : VertexConflict} :
    c ∈ (generateConflicts movement (planOf n len pos)).vertex ↔
      ∃ a b t, a < b ∧ b < n ∧ t < len ∧ pos a t = pos b t ∧ c = ⟨a, b, some (pos a t), t⟩ := by
  rw [mem_vertexConflicts_iff rectangular_planOf, length_planOf]
  refine exists₃_congr fun a b t => and_congr_right fun ordered => and_congr_right fun bound =>
    and_congr_right fun inside => ?_
  rw [planOf_entry (ordered.trans bound) inside, planOf_entry bound inside, Option.some.injEq]

/-- Swapping conflicts are exchanged positions. -/
theorem mem_swap_iff {c : EdgeConflict} :
    c ∈ (generateConflicts movement (planOf n len pos)).swap ↔
      ∃ a b t, a < b ∧ b < n ∧ t + 1 < len ∧ (pos a t = pos b (t + 1) ∧ pos a (t + 1) = pos b t) ∧
        pos a t ≠ pos b t ∧ c = ⟨a, b, some (pos a t), some (pos a (t + 1)), t⟩ := by
  rw [mem_swapConflicts_iff rectangular_planOf, length_planOf]
  refine exists₃_congr fun a b t => and_congr_right fun ordered => and_congr_right fun bound =>
    and_congr_right fun later => ?_
  have boundA := ordered.trans bound
  have inside : t < len := by omega
  simp only [planOf_entry boundA inside, planOf_entry boundA later, planOf_entry bound inside,
    planOf_entry bound later, ne_eq, Option.some.injEq]
  exact and_congr_right fun swap => by rw [swap.2]

/-- Pebble conflicts are entered vertices which were occupied just before, by whichever agent. -/
theorem mem_pebble_iff {c : EdgeConflict} :
    c ∈ (generateConflicts movement (planOf n len pos)).pebble ↔ movement = .pebble ∧
      ∃ a b t, a ≠ b ∧ a < n ∧ b < n ∧ t + 1 < len ∧ pos a (t + 1) = pos b t ∧
        pos a t ≠ pos a (t + 1) ∧ c = ⟨a, b, some (pos a t), some (pos a (t + 1)), t + 1⟩ := by
  rw [mem_pebbleConflicts_iff rectangular_planOf, length_planOf]
  refine and_congr_right fun _ => exists₃_congr fun a b t => and_congr_right fun _ =>
    and_congr_right fun boundA => and_congr_right fun boundB => and_congr_right fun later => ?_
  have inside : t < len := by omega
  simp only [planOf_entry boundA inside, planOf_entry boundA later, planOf_entry boundB inside,
    ne_eq, Option.some.injEq]

/-- If nothing is recorded the shown positions are free of conflicts. -/
theorem not_present_iff (conflicts : Conflicts) : conflicts.present = false ↔
    conflicts.vertex = [] ∧ conflicts.swap = [] ∧ conflicts.pebble = [] := by
  simp [Conflicts.present, and_assoc]

end Generate

namespace Task

variable {task : Task} {L : ℕ → ℕ} {len : ℕ} {pos : ℕ → ℕ → ℕ} {movement : Movement}

/-- Different agents have different goals. -/
def DistinctGoals (task : Task) : Prop :=
  ∀ a < task.ags, ∀ b < task.ags, a ≠ b → task.inst.goalOf a ≠ task.inst.goalOf b

theorem swapping_distinctGoals : Task.swapping.DistinctGoals :=
  show ∀ a < 2, ∀ b < 2, a ≠ b →
    Scenario.swapping.inst.goalOf a ≠ Scenario.swapping.inst.goalOf b by decide

/-- Without recorded conflicts the plan is valid, also after the end of its rows. -/
theorem valid_of_not_present (walks : task.problem.Walks pos) (long : 0 < len)
    (parked : ∀ a < task.ags, ∀ t, len ≤ t + 1 → pos a t = task.inst.goalOf a)
    (quiet : (generateConflicts movement (planOf task.ags len pos)).present = false) :
    task.Valid movement pos := by
  obtain ⟨noVertex, noSwap, noPebble⟩ := (not_present_iff _).mp quiet
  rw [List.eq_nil_iff_forall_not_mem] at noVertex noSwap noPebble
  have apart : ∀ a b, a < b → b < task.ags → ∀ t, pos a t ≠ pos b t := by
    have shown : ∀ a b, a < b → b < task.ags → ∀ t < len, pos a t ≠ pos b t := by
      intro a b ordered bound t inside same
      exact noVertex _ (mem_vertex_iff.mpr ⟨a, b, t, ordered, bound, inside, same, rfl⟩)
    intro a b ordered bound t same
    rcases Nat.lt_or_ge t len with inside | late
    · exact shown a b ordered bound t inside same
    · apply shown a b ordered bound (len - 1) (by omega)
      rw [parked a (ordered.trans bound) _ (by omega), parked b bound _ (by omega),
        ← parked a (ordered.trans bound) t (by omega), ← parked b bound t (by omega)]
      exact same
  have vertexFree : task.problem.VertexFree pos := by
    intro a memA b memB distinct t same
    rcases distinct.lt_or_gt with ordered | ordered
    · exact apart a b ordered (Finset.mem_range.mp memB) t same
    · exact apart b a ordered (Finset.mem_range.mp memA) t same.symm
  refine ⟨walks, vertexFree, ?_⟩
  have still : ∀ a ∈ task.problem.agents, ∀ t, len - 1 ≤ t → pos a t = task.problem.goal a :=
    fun a memA t late => parked a (Finset.mem_range.mp memA) t (by omega)
  cases movement with
  | parallel =>
    refine Problem.swapFree_of_moving (fun _ => len - 1) vertexFree still ?_
    intro a memA b memB distinct t before _ _ swap
    have away : pos a t ≠ pos b t := vertexFree a memA b memB distinct t
    rcases distinct.lt_or_gt with ordered | ordered
    · exact noSwap _ (mem_swap_iff.mpr
        ⟨a, b, t, ordered, Finset.mem_range.mp memB, by omega, swap, away, rfl⟩)
    · exact noSwap _ (mem_swap_iff.mpr ⟨b, a, t, ordered, Finset.mem_range.mp memA, by omega,
        ⟨swap.2.symm, swap.1.symm⟩, away.symm, rfl⟩)
  | pebble =>
    refine Problem.followFree_of_moving (fun _ => len - 1) vertexFree still ?_
    intro a memA b memB distinct t before _ moves _ entered
    exact noPebble _ (mem_pebble_iff.mpr ⟨rfl, a, b, t, distinct, Finset.mem_range.mp memA,
      Finset.mem_range.mp memB, by omega, entered, moves.symm, rfl⟩)

end Task

namespace Encoder.Follows

variable {e : Encoder} {σ : Valuation} {L : ℕ → ℕ} {hi : ℤ} {pos : ℕ → ℕ → ℕ} {task : Task}
  (follows : e.Follows σ L pos)
include follows

/-- An agent which moves has not reached its deadline. -/
theorem before_of_moves {a t : ℕ} (bound : a < e.agents) (moves : pos a (t + 1) ≠ pos a t) :
    t < L a := by
  by_contra late
  exact moves ((follows.parks a bound _ (by omega)).trans (follows.parks a bound _ (by omega)).symm)

/-- Nobody meets an agent which has no variables left. -/
theorem present (prepared : e.Prepared L hi) (routes : e.Routes L σ) {a b t : ℕ}
    (boundA : a < e.agents) (boundB : b < e.agents) (meet : pos a t = pos b t) (before : t ≤ L b) :
    t ≤ L a := by
  by_contra late
  have there := follows.positions b boundB t before
  rw [← meet, follows.parks a boundA t (by omega)] at there
  exact guarded prepared routes.regulated boundA boundB (by omega) before there

/-- Agents with distinct goals meet only while both have variables. -/
theorem early (prepared : e.Prepared L hi) (routes : e.Routes L σ) (poses : task.Poses e)
    (goals : task.DistinctGoals) {a b t : ℕ} (boundA : a < task.ags) (boundB : b < task.ags)
    (distinct : a ≠ b) (meet : pos a t = pos b t) : t ≤ L a ∧ t ≤ L b := by
  have boundA' : a < e.agents := poses.agents ▸ boundA
  have boundB' : b < e.agents := poses.agents ▸ boundB
  rcases Nat.lt_or_ge (L b) t with late | before
  · have ofA : ¬t ≤ L a := fun before => by
      have := follows.present prepared routes boundB' boundA' meet.symm before
      omega
    rw [follows.parks a boundA' t (by omega), follows.parks b boundB' t late.le, poses.inst] at meet
    exact absurd meet (goals a boundA b boundB distinct)
  · exact ⟨follows.present prepared routes boundA' boundB' meet before, before⟩

/-- Who is entered has a variable for the vertex. -/
theorem stands (prepared : e.Prepared L hi) (routes : e.Routes L σ) {a b t : ℕ}
    (boundA : a < e.agents) (boundB : b < e.agents) (before : t < L a)
    (entered : pos a (t + 1) = pos b t) : t ≤ L b := by
  by_contra late
  have there := follows.positions a boundA (t + 1) before
  rw [entered, follows.parks b boundB t (by omega)] at there
  exact guarded prepared routes.regulated boundB boundA (by omega) before there

theorem window (poses : task.Poses e) (prepared : e.Prepared L hi) {a t : ℕ} (bound : a < e.agents)
    (le : t ≤ L a) : task.Window L a (pos a t) t := by
  have alive := (prepared.setting.at_covers_iff prepared.atReady bound
    (follows.cells a bound t le)).mp (follows.positions a bound t le).1
  rw [Alive, poses.inst] at alive
  exact alive

/-- The windows of an agent's move. -/
theorem windows (poses : task.Poses e) (prepared : e.Prepared L hi) {a t : ℕ} (bound : a < e.agents)
    (before : t < L a) :
    task.Window L a (pos a t) t ∧ task.Window L a (pos a (t + 1)) ((t : ℤ) + 1) :=
  ⟨follows.window poses prepared bound before.le,
    by exact_mod_cast follows.window poses prepared bound before⟩

/-- The edge of an agent's move. -/
theorem between (poses : task.Poses e) {a b t : ℕ} (boundA : a < e.agents) (boundB : b < e.agents)
    (distinct : a ≠ b) (moves : pos a (t + 1) ≠ pos a t) (s : ℕ) : ∃ dir,
      EdgeConflict.Between task ⟨a, b, some (pos a t), some (pos a (t + 1)), s⟩ (pos a t)
        (pos a (t + 1)) dir := by
  have before := follows.before_of_moves boundA moves
  obtain ⟨dir, next, -⟩ := follows.steps a boundA t before
  have cell := follows.cells a boundA t before.le
  rw [poses.vertices] at cell
  refine ⟨dir, poses.lt_ags boundA, poses.lt_ags boundB, distinct, rfl, rfl, cell, ?_, ?_⟩
  · rintro rfl
    exact moves (Option.some.inj next).symm
  · rw [← poses.inst]
    exact next

/-- The recorded conflicts of a followed plan name existing variables. -/
theorem recorded (poses : task.Poses e) (prepared : e.Prepared L hi) (routes : e.Routes L σ)
    (goals : task.DistinctGoals) (movement : Movement) (len : ℕ) :
    task.Recorded L (generateConflicts movement (planOf task.ags len pos)) := by
  have bound {a : ℕ} (lt : a < task.ags) : a < e.agents := poses.agents ▸ lt
  constructor
  · intro c member
    obtain ⟨a, b, t, ordered, boundB, -, meet, rfl⟩ := mem_vertex_iff.mp member
    have boundA := ordered.trans boundB
    have early := follows.early prepared routes poses goals boundA boundB ordered.ne meet
    have cell := follows.cells a (bound boundA) t early.1
    rw [poses.vertices] at cell
    refine ⟨ordered, boundB, _, rfl, cell, follows.window poses prepared (bound boundA) early.1, ?_⟩
    rw [show pos a t = pos b t from meet]
    exact follows.window poses prepared (bound boundB) early.2
  · intro c member
    obtain ⟨a, b, t, ordered, boundB, -, ⟨first, second⟩, away, rfl⟩ := mem_swap_iff.mp member
    have boundA := ordered.trans boundB
    have movesA : pos a (t + 1) ≠ pos a t := by rw [second]; exact away.symm
    have movesB : pos b (t + 1) ≠ pos b t := by rw [← first]; exact away
    obtain ⟨dir, between⟩ :=
      follows.between poses (bound boundA) (bound boundB) ordered.ne movesA t
    have beforeA := follows.before_of_moves (bound boundA) movesA
    have beforeB := follows.before_of_moves (bound boundB) movesB
    refine ⟨ordered, beforeA, _, _, dir, between,
      follows.windows poses prepared (bound boundA) beforeA, ?_⟩
    dsimp only
    rw [first, second]
    exact follows.windows poses prepared (bound boundB) beforeB
  · intro c member
    obtain ⟨-, a, b, t, distinct, boundA, boundB, -, entered, moves, rfl⟩ :=
      mem_pebble_iff.mp member
    obtain ⟨dir, between⟩ :=
      follows.between poses (bound boundA) (bound boundB) distinct moves.symm (t + 1)
    have beforeA := follows.before_of_moves (bound boundA) moves.symm
    have windowsA := follows.windows poses prepared (bound boundA) beforeA
    have standsB := follows.stands prepared routes (bound boundA) (bound boundB) beforeA entered
    refine ⟨t, rfl, beforeA, _, _, dir, between, windowsA, ?_⟩
    dsimp only
    rw [entered]
    exact follows.window poses prepared (bound boundB) standsB

end Encoder.Follows

end MAPFEncodings

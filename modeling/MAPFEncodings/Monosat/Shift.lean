import MAPFEncodings.Monosat.Nodes
import MAPFEncodings.Proofs.Tasks

/-! # Movement by reachability over shifts

All agents share one graph, whose nodes are pairs of a vertex and a timestep and whose edges are
shifts. A path from a start to the node of a goal is a walk on true shifts.
-/

namespace MAPFEncodings

open Cnf PathFinding FirstUse

/-- Different vertices and timesteps have different numbers. -/
theorem cantor_inj {v v' : ℕ} {t t' : ℤ} (nonneg : 0 ≤ t) (nonneg' : 0 ≤ t')
    (same : cantor v t = cantor v' t') : v = v' ∧ t = t' := by
  -- the number lies between the triangular numbers of `v + t` and of its successor
  have triangle (s : ℤ) : 2 * (s * (s + 1) / 2) = s * (s + 1) :=
    Int.mul_ediv_cancel' (Int.even_mul_succ_self s).two_dvd
  have grows {s s' : ℤ} (pos : 0 ≤ s) (less : s < s') :
      s * (s + 1) / 2 + s < s' * (s' + 1) / 2 := by
    have first := triangle s
    have second := triangle s'
    nlinarith
  unfold cantor at same
  have sums : (v : ℤ) + t = v' + t' := by
    by_contra distinct
    rcases lt_or_gt_of_ne distinct with less | greater
    · have := grows (by omega) less
      omega
    · have := grows (by omega) greater
      omega
  rw [sums] at same
  omega

namespace Encoder

variable {e : Encoder} {σ : Valuation} {L : ℕ → ℕ} {hi lit : ℤ} {a : ℕ}

/-- A walk from the start to the goal on which all shifts are true. -/
structure Carries (e : Encoder) (σ : Valuation) (a n : ℕ) (w : ℕ → ℕ) : Prop where
  starts : w 0 = e.inst.startOf a
  ends : w n = e.inst.goalOf a
  shifts : ∀ t < n, w t < e.vertices ∧
    ∃ dir, e.inst.getNeighbor (w t) dir = some (w (t + 1)) ∧ e.Shifts σ (w t) dir t

theorem mem_shiftLinks_iff (ready : e.ShiftReady hi) {link : Link} : link ∈ e.shiftLinks ↔
    ∃ v < e.vertices, ∃ dir u, e.inst.getNeighbor v dir = some u ∧ ∃ t x,
      (e.shiftEntry v dir).var? t = some x ∧
        link = ⟨(cantor v t, false), (cantor u (t + 1), false), x⟩ := by
  unfold shiftLinks
  simp only [List.mem_flatMap, List.mem_range, List.mem_ite_nil_left, List.mem_map,
    Int.mem_range_iff, Int.lt_add_one_iff, Prod.exists, Grid.mem_neighbors_iff, Dir.mem_all, true_and,
    Option.mem_toList]
  refine exists_congr fun v => and_congr_right fun boundV => ?_
  constructor
  · rintro ⟨-, t, -, dir, u, next, x, found, rfl⟩
    exact ⟨dir, u, next, t, x, found, rfl⟩
  · rintro ⟨dir, u, next, t, x, found, rfl⟩
    obtain ⟨present, inside⟩ := ready.span v boundV dir t (Option.isSome_of_eq_some found)
    exact ⟨present, t, inside, dir, u, next, x, found, rfl⟩

/-- A path over true links is a walk on true shifts. -/
theorem linked_shiftLinks_iff (ready : e.ShiftReady hi) {n : ℕ} :
    Relation.ReflTransGen (Linked e.shiftLinks σ) (nodeKey (cantor (e.inst.startOf a) 0, false))
      (nodeKey (cantor (e.inst.goalOf a) n, false)) ↔ ∃ w, e.Carries σ a n w := by
  have path := reflTransGen_node_iff (R := Linked e.shiftLinks σ) (s := e.inst.startOf a)
    (g := e.inst.goalOf a) (n := n) (fun _ t => 0 ≤ t) (fun v t => cantor v t)
    (fun v t u => v < e.vertices ∧ ∃ dir, e.inst.getNeighbor v dir = some u ∧ e.Shifts σ v dir t)
  refine (path (fun nonneg nonneg' same => cantor_inj nonneg nonneg' same) ?_ le_rfl
    (Int.natCast_nonneg n)).trans ?_
  · intro k k'
    constructor
    · rintro ⟨link, member, rfl, rfl, holds⟩
      obtain ⟨v, boundV, dir, u, next, t, x, found, rfl⟩ := (mem_shiftLinks_iff ready).mp member
      obtain ⟨-, -, ⟨nonneg, -⟩, -⟩ :=
        (ready.exists_iff v boundV dir t).mp (Option.isSome_of_eq_some found)
      exact ⟨v, t, u, ⟨nonneg, by omega⟩, ⟨boundV, dir, next, x, found, holds⟩, rfl, rfl⟩
    · rintro ⟨v, t, u, -, ⟨boundV, dir, next, x, found, holds⟩, rfl, rfl⟩
      exact ⟨_, (mem_shiftLinks_iff ready).mpr ⟨v, boundV, dir, u, next, t, x, found, rfl⟩, rfl, rfl,
        holds⟩
  · rw [reached_iff]
    constructor
    · rintro ⟨w, first, last, steps⟩
      exact ⟨w, first, last, fun t before => (steps t before).2⟩
    · rintro ⟨w, first, last, shifts⟩
      exact ⟨w, first, last, fun t before => ⟨⟨by omega, by omega⟩, shifts t before⟩⟩

/-! ## The file -/

/-- The lines which require a path for one agent. -/
def shiftGoalLines (e : Encoder) (state : Numbering × ℤ) (a : ℕ) : List Line × Numbering × ℤ :=
  let (goal, numbering) := numberLink state.1 (e.shiftGoal a state.2)
  ([Line.reach 0 goal.1 goal.2.1 goal.2.2, Line.clause .unit [state.2]], numbering, state.2 + 1)

/-- The numbers which the loop over the agents' goals hands out. -/
structure ShiftNumbers (e : Encoder) (numbering : Numbering) (lit : ℤ) (n : ℕ) (last : Numbering)
    (required : List (List Line)) : Prop where
  proper : last.Proper
  keeps : Keeps numbering.dict last.dict
  length : required.length = n
  goals : ∀ a < n, ∃ i j, last.id? (e.shiftGoal a lit).source = some i ∧
    last.id? (e.shiftGoal a lit).target = some j ∧
      required[a]? = some [Line.reach 0 i j (lit + a), Line.clause .unit [lit + a]]

theorem shiftGoals_numbers {numbering : Numbering} (proper : numbering.Proper) (lit : ℤ) (n : ℕ) :
    (List.mapState e.shiftGoalLines (numbering, lit) (List.range n)).2.2 = lit + n ∧
      e.ShiftNumbers numbering lit n
        (List.mapState e.shiftGoalLines (numbering, lit) (List.range n)).2.1
        (List.mapState e.shiftGoalLines (numbering, lit) (List.range n)).1 := by
  induction n with
  | zero => exact ⟨by simp, proper, fun known => known, rfl, fun a bound => absurd bound a.not_lt_zero⟩
  | succ n ih =>
    obtain ⟨counter, proper', keeps, length, goals⟩ := ih
    rw [List.range_succ, List.mapState_append, List.mapState_cons, List.mapState_nil]
    generalize List.mapState e.shiftGoalLines (numbering, lit) (List.range n) = before at *
    obtain ⟨lines, last, next⟩ := before
    dsimp only at *
    subst counter
    obtain ⟨first, kept, source, target⟩ :=
      numberLink_proper proper' (e.shiftGoal n (lit + n))
    refine ⟨?_, first, keeps.trans kept, ?_, fun a bound => ?_⟩
    · simp only [shiftGoalLines]
      push_cast
      ring
    · simp [length]
    · rcases Nat.lt_succ_iff_lt_or_eq.mp bound with before | rfl
      · obtain ⟨i, j, tail, head, entry⟩ := goals a before
        refine ⟨i, j, kept tail, kept head, ?_⟩
        rw [List.getElem?_append_left (by omega), entry]
      · refine ⟨_, _, source, target, ?_⟩
        rw [List.getElem?_append_right (by omega), length, Nat.sub_self]
        rfl

/-- The node numbers after the requirements of all agents. -/
def shiftNumbering (e : Encoder) (lit : ℤ) : Numbering :=
  (List.mapState e.shiftGoalLines ((List.mapState numberLink .empty e.shiftLinks).2, lit)
    (List.range e.agents)).2.1

/-- The graph and its requirements. -/
theorem createMoveGraphMonosatShift_eq (e : Encoder) (lit : ℤ) : ∃ required,
    e.ShiftNumbers (List.mapState numberLink .empty e.shiftLinks).2 lit e.agents
        (e.shiftNumbering lit) required ∧
      e.createMoveGraphMonosatShift lit = (Line.digraph 0 ::
        (List.mapState numberLink .empty e.shiftLinks).1.map (fun edge =>
          Line.edge 0 edge.1 edge.2.1 edge.2.2) ++ required.flatten, lit + e.agents) := by
  obtain ⟨proper, -⟩ := mapState_numberLink Numbering.Proper.empty e.shiftLinks
  obtain ⟨counter, numbers⟩ := shiftGoals_numbers (e := e) proper lit e.agents
  refine ⟨_, numbers, ?_⟩
  rw [← counter]
  rfl

theorem mem_required_iff {numbering last : Numbering} {required : List (List Line)} {n : ℕ}
    (numbers : e.ShiftNumbers numbering lit n last required) {line : Line} :
    line ∈ required.flatten ↔ ∃ a < n, ∃ i j, last.id? (e.shiftGoal a lit).source = some i ∧
      last.id? (e.shiftGoal a lit).target = some j ∧
        (line = Line.reach 0 i j (lit + a) ∨ line = Line.clause .unit [lit + a]) := by
  rw [List.mem_flatten]
  constructor
  · rintro ⟨row, member, inside⟩
    obtain ⟨a, bound, rfl⟩ := List.mem_iff_getElem.mp member
    rw [numbers.length] at bound
    obtain ⟨i, j, source, target, entry⟩ := numbers.goals a bound
    rw [List.getElem?_eq_some_iff] at entry
    obtain ⟨_, entry⟩ := entry
    rw [entry] at inside
    exact ⟨a, bound, i, j, source, target, by simpa using inside⟩
  · rintro ⟨a, bound, i, j, source, target, same⟩
    obtain ⟨i', j', source', target', entry⟩ := numbers.goals a bound
    obtain rfl := Option.some.inj (source.symm.trans source')
    obtain rfl := Option.some.inj (target.symm.trans target')
    exact ⟨_, List.mem_of_getElem? entry, by simpa using same⟩

/-- The requirements leave the numbers of the edges as they are. -/
theorem shiftEdges_iff {lit : ℤ} {required : List (List Line)} (numbers :
      e.ShiftNumbers (List.mapState numberLink .empty e.shiftLinks).2 lit e.agents
        (e.shiftNumbering lit) required) :
    (∀ link ∈ e.shiftLinks, ∃ i j, (e.shiftNumbering lit).id? link.source = some i ∧
      (e.shiftNumbering lit).id? link.target = some j) ∧
    ∀ m n x, (m, n, x) ∈ (List.mapState numberLink .empty e.shiftLinks).1 ↔
      ∃ link ∈ e.shiftLinks, (e.shiftNumbering lit).id? link.source = some m ∧
        (e.shiftNumbering lit).id? link.target = some n ∧ link.var = x := by
  obtain ⟨-, -, ends, edges⟩ := mapState_numberLink Numbering.Proper.empty e.shiftLinks
  refine ⟨fun link member => ?_, fun m n x => ?_⟩
  · obtain ⟨i, j, tail, head⟩ := ends link member
    exact ⟨i, j, numbers.keeps tail, numbers.keeps head⟩
  · rw [edges]
    refine exists_congr fun link => and_congr_right fun member => ?_
    obtain ⟨i, j, tail, head⟩ := ends link member
    have tail' : (e.shiftNumbering lit).id? link.source = some i := numbers.keeps tail
    have head' : (e.shiftNumbering lit).id? link.target = some j := numbers.keeps head
    rw [tail, head, tail', head']

/-- The clauses of the graph are the units of its requirements. -/
theorem kind_of_mem_shiftGraph {e : Encoder} {lit : ℤ} {kind : ClauseKind} {c : Clause}
    (member : Line.clause kind c ∈ (e.createMoveGraphMonosatShift lit).1) : kind = .unit := by
  obtain ⟨required, numbers, same⟩ := createMoveGraphMonosatShift_eq e lit
  rw [same, List.cons_append, List.mem_cons, List.mem_append, List.mem_map,
    mem_required_iff numbers] at member
  simp only [reduceCtorEq, and_false, exists_false, false_or, Line.clause.injEq] at member
  obtain ⟨_, -, _, _, -, -, same, -⟩ := member
  exact same

/-- The lines of the graph require a walk on true shifts for every agent. -/
theorem holds_shiftGraph_iff (setting : e.Setting L) (ready : e.ShiftReady hi) (positive : 0 < lit)
    {lines : List Line} (drawn : ∀ m n x, Line.edge 0 m n x ∈ lines ↔
      Line.edge 0 m n x ∈ (e.createMoveGraphMonosatShift lit).1) :
    (∀ line ∈ (e.createMoveGraphMonosatShift lit).1, line.Holds lines σ) ↔
      ∀ a < e.agents, σ (lit + a) = true ∧ ∃ w, e.Carries σ a (L a) w := by
  obtain ⟨required, numbers, same⟩ := createMoveGraphMonosatShift_eq e lit
  obtain ⟨ends, edges⟩ := shiftEdges_iff numbers
  rw [same] at drawn ⊢
  dsimp only at drawn ⊢
  have draws : Draws lines 0 (e.shiftNumbering lit) e.shiftLinks := by
    intro m n x
    rw [drawn, ← edges m n x]
    simp [mem_required_iff numbers]
  have walks {a i j : ℕ} (bound : a < e.agents)
      (source : (e.shiftNumbering lit).id? (e.shiftGoal a lit).source = some i)
      (target : (e.shiftNumbering lit).id? (e.shiftGoal a lit).target = some j) :
      Relation.ReflTransGen (LinkedIn lines 0 σ) i j ↔ ∃ w, e.Carries σ a (L a) w := by
    have time : e.lastTimestep a (e.inst.goalOf a) e.maxTimestep = (L a : ℤ) := by
      rw [setting.last a bound, (setting.deadline a bound).toGoal.source_eq, sub_zero]
    have path := draws.reflTransGen_iff numbers.proper ends (σ := σ) source target
    rw [shiftGoal, time] at path
    exact path.trans (linked_shiftLinks_iff ready)
  constructor
  · intro holds a bound
    obtain ⟨i, j, source, target, entry⟩ := numbers.goals a bound
    have reach := holds (.reach 0 i j (lit + a)) (List.mem_append_right _
      ((mem_required_iff numbers).mpr ⟨a, bound, i, j, source, target, .inl rfl⟩))
    have unit := holds (.clause .unit [lit + a]) (List.mem_append_right _
      ((mem_required_iff numbers).mpr ⟨a, bound, i, j, source, target, .inr rfl⟩))
    have chosen := (holds_unit (by omega)).mp unit
    have reaches : litHolds σ (lit + a) = true := by rwa [litHolds_pos (by omega)]
    exact ⟨chosen, (walks bound source target).mp (reach.mp reaches)⟩
  · intro routes line member
    rcases List.mem_append.mp member with drawn | required
    · rcases List.mem_cons.mp drawn with rfl | edge
      · trivial
      · obtain ⟨_, -, rfl⟩ := List.mem_map.mp edge
        trivial
    · obtain ⟨a, bound, i, j, source, target, rfl | rfl⟩ := (mem_required_iff numbers).mp required
      · exact iff_of_true (by rw [litHolds_pos (by omega)]; exact (routes a bound).1)
          ((walks bound source target).mpr (routes a bound).2)
      · exact (holds_unit (by omega)).mpr (routes a bound).1

end Encoder

end MAPFEncodings

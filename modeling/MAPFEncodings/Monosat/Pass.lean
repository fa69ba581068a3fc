import MAPFEncodings.Completeness.Plans
import MAPFEncodings.Monosat.Nodes

/-! # Movement by reachability over passes

The graph of one agent has an edge for each of its variables: a position leads from its in-node to
its out-node, and a pass leads from the out-node of its tail to the in-node of its head. Paths from
the start's in-node to the goal's last out-node are the walks of the agent on true variables.
-/

namespace MAPFEncodings

open Cnf PathFinding FirstUse

namespace Encoder

variable {e : Encoder} {σ : Valuation} {L : ℕ → ℕ} {hi lit : ℤ} {a : ℕ}

/-! ## The graph of an agent -/

/-- A walk from the start to the goal on which all variables are true. -/
structure Travels (e : Encoder) (σ : Valuation) (a n : ℕ) (w : ℕ → ℕ) : Prop where
  starts : w 0 = e.inst.startOf a
  ends : w n = e.inst.goalOf a
  cells : ∀ t ≤ n, w t < e.vertices
  positions : ∀ t ≤ n, e.At σ a (w t) t
  passes : ∀ t < n, ∃ dir, e.inst.getNeighbor (w t) dir = some (w (t + 1)) ∧ e.Pass σ a (w t) dir t

/-- The node numbers after the edges of an agent. -/
def passNumbering (e : Encoder) (a : ℕ) : Numbering :=
  (List.mapState numberLink .empty (e.passLinks a)).2

/-- The number of the in-node or, with `duplicate`, of the out-node of a position. -/
def positionNode (e : Encoder) (a v : ℕ) (t : ℤ) (duplicate : Bool) : ℕ :=
  (varToID (e.passNumbering a) ((e.atEntry a v).var t) duplicate).1

/-- The lines for one agent. -/
def passGraph (e : Encoder) (a : ℕ) (lit : ℤ) : List Line :=
  let edges := List.mapState numberLink .empty (e.passLinks a)
  let goal := (numberLink edges.2 (e.passGoal a lit)).1
  Line.digraph a :: edges.1.map (fun (source, target, var) => Line.edge a source target var) ++
    [Line.reach a goal.1 goal.2.1 goal.2.2, Line.clause .unit [lit]]

theorem createMoveGraphMonosatPass_eq (e : Encoder) (lit : ℤ) :
    e.createMoveGraphMonosatPass lit =
      ((List.range e.agents).flatMap fun a => e.passGraph a (lit + a), lit + e.agents) := by
  unfold createMoveGraphMonosatPass
  rw [List.mapState_range_counter _ lit 1 e.agents fun _ _ => rfl, List.flatMap_def]
  simp only [mul_one]
  rfl

/-- The clauses of the graphs are the units of their requirements. -/
theorem kind_of_mem_passGraphs {e : Encoder} {lit : ℤ} {kind : ClauseKind} {c : Clause}
    (member : Line.clause kind c ∈ (e.createMoveGraphMonosatPass lit).1) : kind = .unit := by
  rw [createMoveGraphMonosatPass_eq] at member
  obtain ⟨a, -, member⟩ := List.mem_flatMap.mp member
  simp only [passGraph, List.cons_append, List.mem_cons, List.mem_append, List.mem_map,
    List.not_mem_nil, or_false, reduceCtorEq, and_false, exists_false, false_or,
    Line.clause.injEq] at member
  exact member.1

/-- Positions with variables have different variables. -/
theorem Prepared.at_var_inj (prepared : e.Prepared L hi) {v v' : ℕ} {t t' : ℤ} (boundA : a < e.agents)
    (boundV : v < e.vertices) (boundV' : v' < e.vertices) (covers : (e.atEntry a v).Covers t)
    (covers' : (e.atEntry a v').Covers t')
    (same : (e.atEntry a v).var t = (e.atEntry a v').var t') : v = v' ∧ t = t' := by
  obtain ⟨σ, reads, -⟩ := prepared.free (fun _ u s => u = v ∧ s = t) (fun _ _ _ _ => True)
    (fun _ _ _ => True)
  have here : e.At σ a v t := (reads a boundA v boundV t).mpr ⟨covers, rfl, rfl⟩
  have there : e.At σ a v' t' := ⟨covers', same ▸ here.2⟩
  obtain ⟨-, rfl, rfl⟩ := (reads a boundA v' boundV' t').mp there
  exact ⟨rfl, rfl⟩

theorem mem_passLinks_iff (ready : e.Ready hi) (kind : e.config.variableKind = .pass)
    (boundA : a < e.agents) {link : Link} : link ∈ e.passLinks a ↔
      (∃ v < e.vertices, ∃ t, (e.atEntry a v).Covers t ∧
        link = ⟨((e.atEntry a v).var t, false), ((e.atEntry a v).var t, true), (e.atEntry a v).var t⟩) ∨
      ∃ v < e.vertices, ∃ dir u, e.inst.getNeighbor v dir = some u ∧
        ∃ t, (e.passEntry a v dir).Covers t ∧ link = ⟨((e.atEntry a v).var t, true),
          ((e.atEntry a u).var (t + 1), false), (e.passEntry a v dir).var t⟩ := by
  unfold passLinks
  simp only [List.mem_append, List.mem_flatMap, List.mem_range, List.mem_ite_nil_left, List.mem_map,
    Int.mem_range_iff, Int.lt_add_one_iff, Prod.exists, Grid.mem_neighbors_iff, Dir.mem_all, true_and]
  apply or_congr
  · refine exists_congr fun v => and_congr_right fun _ => ?_
    constructor
    · rintro ⟨present, t, inside, rfl⟩
      exact ⟨t, ⟨present, inside⟩, rfl⟩
    · rintro ⟨t, ⟨present, inside⟩, rfl⟩
      exact ⟨present, t, inside, rfl⟩
  · refine exists_congr fun v => and_congr_right fun boundV => ?_
    constructor
    · rintro ⟨-, dir, u, next, present, t, inside, rfl⟩
      exact ⟨dir, u, next, t, ⟨present, inside⟩, rfl⟩
    · rintro ⟨dir, u, next, t, covers, rfl⟩
      obtain ⟨-, -, tail, -⟩ := (ready.windows.pass_covers_iff ready.atReady (ready.passReady kind)
        boundA boundV).mp covers
      exact ⟨tail.1, dir, u, next, covers.1, t, covers.2, rfl⟩

/-- The ends of a pass are positions with variables. -/
theorem Ready.pass_ends (ready : e.Ready hi) (kind : e.config.variableKind = .pass)
    (boundA : a < e.agents) {v u : ℕ} (boundV : v < e.vertices) {dir : Dir} {t : ℤ}
    (next : e.inst.getNeighbor v dir = some u) (covers : (e.passEntry a v dir).Covers t) :
    (e.atEntry a v).Covers t ∧ u < e.vertices ∧ (e.atEntry a u).Covers (t + 1) := by
  obtain ⟨u', next', tail, head⟩ := (ready.windows.pass_covers_iff ready.atReady
    (ready.passReady kind) boundA boundV).mp covers
  obtain rfl : u = u' := Option.some.inj (next.symm.trans next')
  exact ⟨tail, ready.windows.neighbor_lt boundV next, head⟩

/-- A path over true links is a walk on true variables. -/
theorem linked_passLinks_iff (prepared : e.Prepared L hi) (kind : e.config.variableKind = .pass)
    (boundA : a < e.agents) : Relation.ReflTransGen (Linked (e.passLinks a) σ)
      (nodeKey ((e.atEntry a (e.inst.startOf a)).var 0, false))
      (nodeKey ((e.atEntry a (e.inst.goalOf a)).var (L a), true)) ↔
        ∃ w, e.Travels σ a (L a) w := by
  have setting := prepared.setting
  have ready := prepared.atReady
  have startCell := setting.startCell a boundA
  have goalCell := setting.goalCell a boundA
  have posVar {v : ℕ} {t : ℤ} (inside : v < e.vertices ∧ (e.atEntry a v).Covers t) :
      0 < (e.atEntry a v).var t := (ready.isVar a boundA v inside.1 t inside.2).1
  have path := reflTransGen_split_iff (R := Linked (e.passLinks a) σ) (s := e.inst.startOf a)
    (fun v t => v < e.vertices ∧ (e.atEntry a v).Covers t)
    (fun v t => (e.atEntry a v).var t) (fun v t => -(e.atEntry a v).var t)
    (fun v t => σ ((e.atEntry a v).var t) = true)
    (fun v t u => ∃ dir, e.inst.getNeighbor v dir = some u ∧ e.Pass σ a v dir t)
  refine (path ?_ ?_ ?_ ?_ ⟨startCell, setting.start_covers ready boundA⟩
    ⟨goalCell, setting.goal_covers ready boundA⟩).trans ?_
  · exact fun tail tail' same => prepared.at_var_inj boundA tail.1 tail'.1 tail.2 tail'.2 same
  · exact fun tail tail' same =>
      prepared.at_var_inj boundA tail.1 tail'.1 tail.2 tail'.2 (neg_injective same)
  · intro v t v' t' inside inside' same
    have := posVar inside
    have := posVar inside'
    omega
  · intro k k'
    constructor
    · rintro ⟨link, member, rfl, rfl, holds⟩
      rcases (mem_passLinks_iff prepared.ready kind boundA).mp member with
        ⟨v, boundV, t, covers, rfl⟩ | ⟨v, boundV, dir, u, next, t, covers, rfl⟩
      · exact .inl ⟨v, t, ⟨boundV, covers⟩, holds, rfl, rfl⟩
      · obtain ⟨tail, boundU, head⟩ := prepared.ready.pass_ends kind boundA boundV next covers
        exact .inr ⟨v, t, u, ⟨⟨boundV, tail⟩, boundU, head⟩, ⟨dir, next, covers, holds⟩, rfl, rfl⟩
    · rintro (⟨v, t, inside, holds, rfl, rfl⟩ |
        ⟨v, t, u, ⟨tail, head⟩, ⟨dir, next, covers, holds⟩, rfl, rfl⟩)
      · exact ⟨_, (mem_passLinks_iff prepared.ready kind boundA).mpr
          (.inl ⟨v, inside.1, t, inside.2, rfl⟩), rfl, rfl, holds⟩
      · exact ⟨_, (mem_passLinks_iff prepared.ready kind boundA).mpr
          (.inr ⟨v, tail.1, dir, u, next, t, covers, rfl⟩), rfl, rfl, holds⟩
  · rw [reached_iff]
    constructor
    · rintro ⟨⟨w, first, last, steps⟩, home⟩
      have here : ∀ t ≤ L a, w t < e.vertices ∧ e.At σ a (w t) t := by
        intro t le
        rcases le.lt_or_eq with before | rfl
        · have step := (steps t before).1
          exact ⟨step.1.1, step.1.2, step.2⟩
        · rw [last]
          exact ⟨goalCell, setting.goal_covers ready boundA, home⟩
      exact ⟨w, first, last, fun t le => (here t le).1, fun t le => (here t le).2,
        fun t before => (steps t before).2.2⟩
    · rintro ⟨w, first, last, cells, positions, passes⟩
      refine ⟨⟨w, first, last, fun t before => ?_⟩, last ▸ (positions _ le_rfl).2⟩
      have tail := positions t before.le
      have head := positions (t + 1) before
      exact ⟨⟨⟨cells t before.le, tail.1⟩, tail.2⟩,
        ⟨cells (t + 1) before, by exact_mod_cast head.1⟩, passes t before⟩

/-! ## The file -/

/-- The edge of a position has numbered both of its nodes. -/
theorem id?_position (ready : e.Ready hi) (kind : e.config.variableKind = .pass)
    (boundA : a < e.agents) {v : ℕ} {t : ℤ} (boundV : v < e.vertices)
    (covers : (e.atEntry a v).Covers t) (duplicate : Bool) :
    (e.passNumbering a).id? ((e.atEntry a v).var t, duplicate) =
      some (e.positionNode a v t duplicate) := by
  obtain ⟨-, -, ends, -⟩ := mapState_numberLink Numbering.Proper.empty (e.passLinks a)
  obtain ⟨i, j, tail, head⟩ := ends _
    ((mem_passLinks_iff ready kind boundA).mpr (.inl ⟨v, boundV, t, covers, rfl⟩))
  obtain ⟨i, found⟩ : ∃ i, (e.passNumbering a).id? ((e.atEntry a v).var t, duplicate) = some i := by
    cases duplicate
    · exact ⟨i, tail⟩
    · exact ⟨j, head⟩
  rw [positionNode, varToID_of_known found, found]

/-- All nodes of positions have different numbers. -/
theorem positionNode_inj (prepared : e.Prepared L hi) (kind : e.config.variableKind = .pass)
    (boundA : a < e.agents) {v v' : ℕ} {t t' : ℤ} {duplicate duplicate' : Bool}
    (boundV : v < e.vertices) (boundV' : v' < e.vertices) (covers : (e.atEntry a v).Covers t)
    (covers' : (e.atEntry a v').Covers t')
    (same : e.positionNode a v t duplicate = e.positionNode a v' t' duplicate') :
    v = v' ∧ t = t' ∧ duplicate = duplicate' := by
  obtain ⟨proper, -⟩ := mapState_numberLink Numbering.Proper.empty (e.passLinks a)
  have keys := Numbering.Proper.inj proper
    (id?_position prepared.ready kind boundA boundV covers duplicate)
    (same ▸ id?_position prepared.ready kind boundA boundV' covers' duplicate')
  have posV := (prepared.atReady.isVar a boundA v boundV t covers).1
  have posV' := (prepared.atReady.isVar a boundA v' boundV' t' covers').1
  have vars : duplicate = duplicate' ∧ (e.atEntry a v).var t = (e.atEntry a v').var t' := by
    unfold nodeKey at keys
    cases duplicate <;> cases duplicate' <;> simp only [if_true, if_false, Bool.false_eq_true] at keys
    · exact ⟨rfl, keys⟩
    · omega
    · omega
    · exact ⟨rfl, by omega⟩
  obtain ⟨sameV, sameT⟩ := prepared.at_var_inj boundA boundV boundV' covers covers' vars.2
  exact ⟨sameV, sameT, vars.1⟩

/-- The requirement of an agent is about the first node of its start and the last of its goal. -/
theorem numberLink_passGoal (ready : e.Ready hi) (kind : e.config.variableKind = .pass)
    (boundA : a < e.agents) (lit : ℤ) : numberLink (e.passNumbering a) (e.passGoal a lit) =
      ((e.positionNode a (e.inst.startOf a) 0 false,
        e.positionNode a (e.inst.goalOf a) (e.goalTime a) true, lit), e.passNumbering a) := by
  have windows := ready.windows
  have source := id?_position ready kind boundA (windows.startCell a boundA)
    (windows.start_covers ready.atReady boundA) false
  have target := id?_position ready kind boundA (windows.goalCell a boundA)
    (windows.goal_covers ready.atReady boundA) true
  rw [← windows.start_var ready.atReady boundA] at source
  rw [← windows.goal_lastTimestep ready.atReady boundA] at target ⊢
  simp only [numberLink, passGoal, varToID_of_known source, varToID_of_known target]

/-- The edges of an agent's graph are its links. -/
private theorem passGraph_draws {lines : List Line}
    (drawn : ∀ m n x, Line.edge a m n x ∈ lines ↔ Line.edge a m n x ∈ e.passGraph a lit) :
    Draws lines a (e.passNumbering a) (e.passLinks a) := by
  obtain ⟨-, -, -, edges⟩ := mapState_numberLink Numbering.Proper.empty (e.passLinks a)
  intro m n x
  refine (drawn m n x).trans (Iff.trans ?_ (edges m n x))
  simp [passGraph]

/-- Whoever travels has a true variable for the start. -/
theorem at_start_of_passGraph (ready : e.Ready hi) (kind : e.config.variableKind = .pass)
    (boundA : a < e.agents) (positive : 0 < lit) {lines : List Line}
    (drawn : ∀ m n x, Line.edge a m n x ∈ lines ↔ Line.edge a m n x ∈ e.passGraph a lit)
    (holds : ∀ line ∈ e.passGraph a lit, line.Holds lines σ) : e.At σ a (e.inst.startOf a) 0 := by
  have windows := ready.windows
  have covers := windows.start_covers ready.atReady boundA
  have isStart := (ready.atReady.isVar a boundA _ (windows.startCell a boundA) 0 covers).1
  have isGoal := (ready.atReady.isVar a boundA _ (windows.goalCell a boundA) _
    (windows.goal_covers ready.atReady boundA)).1
  obtain ⟨proper, -, ends, -⟩ := mapState_numberLink Numbering.Proper.empty (e.passLinks a)
  have goal := numberLink_passGoal ready kind boundA lit
  have requires : Line.reach a (e.positionNode a (e.inst.startOf a) 0 false)
      (e.positionNode a (e.inst.goalOf a) (e.goalTime a) true) lit ∈ e.passGraph a lit := by
    unfold passNumbering at goal
    simp [passGraph, goal]
  have unit : Line.clause .unit [lit] ∈ e.passGraph a lit := by simp [passGraph]
  have chosen := (holds_unit positive).mp (holds _ unit)
  have path := (holds _ requires).mp (by rwa [litHolds_pos positive])
  rw [(passGraph_draws drawn).reflTransGen_iff proper ends
    (id?_position ready kind boundA (windows.startCell a boundA) covers false)
    (id?_position ready kind boundA (windows.goalCell a boundA)
      (windows.goal_covers ready.atReady boundA) true)] at path
  -- the only edge out of the first node is the one of the position itself
  rcases path.cases_head with same | ⟨k, ⟨link, member, source, -, true_⟩, -⟩
  · simp only [nodeKey, if_true, if_false, Bool.false_eq_true] at same
    omega
  · rcases (mem_passLinks_iff ready kind boundA).mp member with
      ⟨v, -, t, -, rfl⟩ | ⟨v, boundV, dir, u, next, t, passes, rfl⟩
    · simp only [nodeKey, if_false, Bool.false_eq_true] at source
      exact ⟨covers, source ▸ true_⟩
    · have isTail := (ready.atReady.isVar a boundA v boundV t
        (ready.pass_ends kind boundA boundV next passes).1).1
      simp only [nodeKey, if_true, if_false, Bool.false_eq_true] at source
      omega

/-- The graph of an agent connects these nodes exactly if the agent can travel. -/
theorem passGraph_reach (prepared : e.Prepared L hi) (kind : e.config.variableKind = .pass)
    (boundA : a < e.agents) {lines : List Line}
    (drawn : ∀ m n x, Line.edge a m n x ∈ lines ↔ Line.edge a m n x ∈ e.passGraph a lit) :
    Relation.ReflTransGen (LinkedIn lines a σ) (e.positionNode a (e.inst.startOf a) 0 false)
      (e.positionNode a (e.inst.goalOf a) (L a) true) ↔ ∃ w, e.Travels σ a (L a) w := by
  have setting := prepared.setting
  have ready := prepared.atReady
  obtain ⟨proper, -, ends, -⟩ := mapState_numberLink Numbering.Proper.empty (e.passLinks a)
  exact ((passGraph_draws drawn).reflTransGen_iff proper ends
    (id?_position prepared.ready kind boundA (setting.startCell a boundA)
      (setting.start_covers ready boundA) false)
    (id?_position prepared.ready kind boundA (setting.goalCell a boundA)
      (setting.goal_covers ready boundA) true)).trans (linked_passLinks_iff prepared kind boundA)

theorem reach_mem_passGraph_iff (prepared : e.Prepared L hi) (kind : e.config.variableKind = .pass)
    (boundA : a < e.agents) {g m n : ℕ} {x : ℤ} : Line.reach g m n x ∈ e.passGraph a lit ↔
      g = a ∧ m = e.positionNode a (e.inst.startOf a) 0 false ∧
        n = e.positionNode a (e.inst.goalOf a) (L a) true ∧ x = lit := by
  have goal := numberLink_passGoal prepared.ready kind boundA lit
  rw [prepared.setting.goalTime_eq boundA] at goal
  unfold passNumbering at goal
  simp [passGraph, goal]

/-- The lines of an agent require a route on true variables. -/
theorem holds_passGraph_iff (prepared : e.Prepared L hi) (kind : e.config.variableKind = .pass)
    (boundA : a < e.agents) (positive : 0 < lit) {lines : List Line}
    (drawn : ∀ m n x, Line.edge a m n x ∈ lines ↔ Line.edge a m n x ∈ e.passGraph a lit) :
    (∀ line ∈ e.passGraph a lit, line.Holds lines σ) ↔
      σ lit = true ∧ ∃ w, e.Travels σ a (L a) w := by
  have travels := passGraph_reach (σ := σ) prepared kind boundA drawn
  have requires {g m n : ℕ} {x : ℤ} : Line.reach g m n x ∈ e.passGraph a lit ↔ _ :=
    reach_mem_passGraph_iff prepared kind boundA
  constructor
  · intro holds
    have unit : Line.clause .unit [lit] ∈ e.passGraph a lit := by simp [passGraph]
    have chosen := (holds_unit positive).mp (holds _ unit)
    have reaches : litHolds σ lit = true := by rwa [litHolds_pos positive]
    exact ⟨chosen, travels.mp ((holds _ (requires.mpr ⟨rfl, rfl, rfl, rfl⟩)).mp reaches)⟩
  · rintro ⟨chosen, walk⟩ line member
    cases line with
    | digraph g => trivial
    | edge g m n x => trivial
    | reach g m n x =>
      obtain ⟨rfl, rfl, rfl, rfl⟩ := requires.mp member
      exact iff_of_true (by rwa [litHolds_pos positive]) (travels.mpr walk)
    | clause kind c =>
      obtain ⟨rfl, rfl⟩ : kind = .unit ∧ c = [lit] := by simpa [passGraph] using member
      exact (holds_unit positive).mpr chosen

end Encoder

end MAPFEncodings

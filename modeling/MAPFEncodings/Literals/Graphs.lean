import MAPFEncodings.Literals.Auxiliary
import MAPFEncodings.Monosat.Pass
import MAPFEncodings.Monosat.Shift

/-! # Which objects and nodes the lines of the graphs are about

The edges of a graph are controlled by the variables of positions and passes, or of shifts, and each
requirement by a variable of its own. They lead between the nodes which `VarToID` has numbered.
-/

namespace MAPFEncodings

open Cnf

namespace Layout

variable {l : Layout}

/-- The number of a node in a graph, if it has one. -/
def node (l : Layout) (graph : ℕ) : Node → Option ℕ
  | .entry v t => (l.encoder.passNumbering graph).id? ((l.encoder.atEntry graph v).var t, false)
  | .exit v t => (l.encoder.passNumbering graph).id? ((l.encoder.atEntry graph v).var t, true)
  | .place v t => (l.encoder.shiftNumbering l.shifts).id? (cantor v t, false)

/-- A node of the graph has a number in the file. -/
def HasNode (l : Layout) (graph : ℕ) (node : Node) (i : ℕ) : Prop :=
  l.encoder.outline.Node graph node ∧ l.node graph node = some i

/-- A line says a sentence about objects which have variables and nodes which have numbers. -/
inductive Says (l : Layout) : Sentence → Line → Prop
  | clause {s : Sentence} {c : Clause} (kind : ClauseKind) (said : l.SaysClause s c) :
    Says l s (.clause kind c)
  | digraph (graph : ℕ) : Says l (.digraph graph) (.digraph graph)
  | edge {graph m n : ℕ} {source target : Node} {x : Object} (tail : l.HasNode graph source m)
    (head : l.HasNode graph target n) (owned : l.Owned x) :
    Says l (.edge graph source target x) (.edge graph m n (l.number x))
  | reach {graph m n : ℕ} {source target : Node} {x : Object} (tail : l.HasNode graph source m)
    (head : l.HasNode graph target n) (owned : l.Owned x) :
    Says l (.reach graph source target x) (.reach graph m n (l.number x))

/-- A line is an intended one. -/
def AssertsLine (l : Layout) (g : Generator) (line : Line) : Prop :=
  ∃ s, Intends l.encoder.outline g s ∧ l.Says s line

theorem Asserts.line {g : Generator} {c : Clause} (asserts : l.Asserts g c) (kind : ClauseKind) :
    l.AssertsLine g (.clause kind c) := by
  obtain ⟨s, intends, said⟩ := asserts
  exact ⟨s, intends, .clause kind said⟩

/-- The requirements have their variables. -/
def DrawsReaches (l : Layout) : Prop := l.reaches = l.shifts + l.encoder.agents

theorem DrawsReaches.owned (draws : l.DrawsReaches) {a : ℕ} (agent : a < l.encoder.agents) :
    l.Owned (.reach a) := by
  refine ⟨rfl, ?_⟩
  rw [show l.reaches = _ from draws, number]
  omega

/-- The clause which asserts the variable of a requirement. -/
theorem DrawsReaches.said_unit (draws : l.DrawsReaches) {a : ℕ} (agent : a < l.encoder.agents) :
    l.SaysClause (.clause [.pos (.reach a)]) [l.shifts + a] :=
  .clause [.pos (.reach a)] (by simpa using draws.owned agent)

/-! ## Nodes -/

/-- Distinct nodes of a graph have distinct numbers. -/
theorem HasNode.inj (draws : l.encoder.config.variableKind = .pass → l.DrawsPositions) {graph i : ℕ}
    {node node' : Node} (has : l.HasNode graph node i) (has' : l.HasNode graph node' i) :
    node = node' := by
  obtain ⟨isNode, found⟩ := has
  obtain ⟨isNode', found'⟩ := has'
  obtain ⟨proper, -⟩ := mapState_numberLink Numbering.Proper.empty (l.encoder.passLinks graph)
  obtain ⟨_, numbers, -⟩ := Encoder.createMoveGraphMonosatShift_eq l.encoder l.shifts
  have clash : l.encoder.config.variableKind = .pass → l.encoder.config.variableKind ≠ .shift :=
    fun pass shift => by cases pass.symm.trans shift
  have positive {v : ℕ} {t : ℤ} (kind : l.encoder.config.variableKind = .pass)
      (here : l.encoder.outline.Position graph v t) : 0 < (l.encoder.atEntry graph v).var t :=
    ((draws kind).ready.isVar graph here.1 v here.2.1 t ((draws kind).covers here)).1
  have same {v v' : ℕ} {t t' : ℤ} (kind : l.encoder.config.variableKind = .pass)
      (here : l.encoder.outline.Position graph v t) (there : l.encoder.outline.Position graph v' t')
      (vars : (l.encoder.atEntry graph v).var t = (l.encoder.atEntry graph v').var t') :
      v = v' ∧ t = t' := by
    have has : l.encoder.HasAt (graph, v, t) _ := ((draws kind).owned here).1
    have has' : l.encoder.HasAt (graph, v', t') _ := ((draws kind).owned there).1
    rw [number, ← vars] at has'
    have key := (draws kind).allocates.inj has has'
    simp only [Prod.mk.injEq, true_and] at key
    exact key
  cases node with
  | entry v t =>
    have here := positive isNode.1 isNode.2
    cases node' with
    | entry v' t' =>
      obtain ⟨rfl, rfl⟩ := same isNode.1 isNode.2 isNode'.2 (proper.inj found found')
      rfl
    | exit v' t' =>
      have there := positive isNode'.1 isNode'.2
      have keys : (l.encoder.atEntry graph v).var t = -(l.encoder.atEntry graph v').var t' :=
        proper.inj found found'
      omega
    | place v' t' => exact absurd isNode'.1 (clash isNode.1)
  | exit v t =>
    have here := positive isNode.1 isNode.2
    cases node' with
    | entry v' t' =>
      have there := positive isNode'.1 isNode'.2
      have keys : -(l.encoder.atEntry graph v).var t = (l.encoder.atEntry graph v').var t' :=
        proper.inj found found'
      omega
    | exit v' t' =>
      have keys : -(l.encoder.atEntry graph v).var t = -(l.encoder.atEntry graph v').var t' :=
        proper.inj found found'
      obtain ⟨rfl, rfl⟩ := same isNode.1 isNode.2 isNode'.2 (neg_inj.mp keys)
      rfl
    | place v' t' => exact absurd isNode'.1 (clash isNode.1)
  | place v t =>
    cases node' with
    | entry v' t' => exact absurd isNode.1 (clash isNode'.1)
    | exit v' t' => exact absurd isNode.1 (clash isNode'.1)
    | place v' t' =>
      obtain ⟨rfl, rfl⟩ := cantor_inj isNode.2.2 isNode'.2.2 (numbers.proper.inj found found')
      rfl

/-! ## Pass variables -/

section

variable {hi : ℤ} (ready : l.encoder.Ready hi) (kind : l.encoder.config.variableKind = .pass)
  (draws : l.DrawsPositions) {a : ℕ} (agent : a < l.encoder.agents)
include ready kind draws agent

/-- The two nodes of a position. -/
theorem hasNode_position {v : ℕ} {t : ℤ} (here : l.encoder.outline.Position a v t) :
    l.HasNode a (.entry v t) (l.encoder.positionNode a v t false) ∧
      l.HasNode a (.exit v t) (l.encoder.positionNode a v t true) :=
  have covers := draws.covers here
  ⟨⟨⟨kind, here⟩, Encoder.id?_position ready kind agent here.2.1 covers false⟩,
    ⟨kind, here⟩, Encoder.id?_position ready kind agent here.2.1 covers true⟩

/-- An edge of an agent's graph. -/
theorem edge_of_passLinks (drawsPass : l.DrawsPasses) {m n : ℕ} {x : ℤ}
    (edge : (m, n, x) ∈ (List.mapState numberLink .empty (l.encoder.passLinks a)).1) :
    l.AssertsLine .createMoveGraphMonosatPass (.edge a m n x) := by
  obtain ⟨-, -, -, edges⟩ := mapState_numberLink Numbering.Proper.empty (l.encoder.passLinks a)
  obtain ⟨link, member, tail, head, rfl⟩ := (edges m n x).mp edge
  obtain ⟨v, vertex, t, covers, rfl⟩ | ⟨v, vertex, dir, u, next, t, covers, rfl⟩ :=
    (Encoder.mem_passLinks_iff ready kind agent).mp member
  · have here := draws.position_iff.mpr ⟨agent, vertex, covers⟩
    exact ⟨_, .passGraphPosition here, .edge ⟨⟨kind, here⟩, tail⟩ ⟨⟨kind, here⟩, head⟩
      (draws.owned here)⟩
  · have forth := drawsPass.pass_iff.mpr ⟨agent, vertex, covers⟩
    obtain ⟨leaves, vertex', arrives⟩ := ready.pass_ends kind agent vertex next covers
    have here := draws.position_iff.mpr ⟨agent, vertex, leaves⟩
    have there := draws.position_iff.mpr ⟨agent, vertex', arrives⟩
    exact ⟨_, .passGraphPass next forth, .edge ⟨⟨kind, here⟩, tail⟩ ⟨⟨kind, there⟩, head⟩
      (drawsPass.owned forth)⟩

/-- The requirement of an agent's graph. -/
theorem reach_of_passGoal (reaches : l.DrawsReaches) :
    let goal := (numberLink (l.encoder.passNumbering a) (l.encoder.passGoal a (l.shifts + a))).1
    l.AssertsLine .createMoveGraphMonosatPass (.reach a goal.1 goal.2.1 goal.2.2) := by
  have windows := ready.windows
  have start := draws.position_iff.mpr
    ⟨agent, windows.startCell a agent, windows.start_covers draws.ready agent⟩
  have goal := draws.position_iff.mpr
    ⟨agent, windows.goalCell a agent, windows.goal_covers draws.ready agent⟩
  rw [Encoder.numberLink_passGoal ready kind agent]
  exact ⟨_, .passGraphReach agent, .reach (hasNode_position ready kind draws agent start).1
    (hasNode_position ready kind draws agent goal).2 (reaches.owned agent)⟩

end

theorem createMoveGraphMonosatPass_asserts {hi : ℤ} (ready : l.encoder.Ready hi)
    (kind : l.encoder.config.variableKind = .pass) (draws : l.DrawsPositions)
    (drawsPass : l.DrawsPasses) (reaches : l.DrawsReaches) :
    ∀ line ∈ (l.encoder.createMoveGraphMonosatPass l.shifts).1,
      l.AssertsLine .createMoveGraphMonosatPass line := by
  intro line member
  rw [Encoder.createMoveGraphMonosatPass_eq] at member
  obtain ⟨a, inside, member⟩ := List.mem_flatMap.mp member
  have agent := List.mem_range.mp inside
  simp only [Encoder.passGraph, List.cons_append, List.mem_cons, List.mem_append, List.mem_map,
    List.not_mem_nil, or_false, Prod.exists] at member
  obtain rfl | ⟨m, n, x, edge, rfl⟩ | rfl | rfl := member
  · exact ⟨_, .passGraph agent, .digraph a⟩
  · exact edge_of_passLinks ready kind draws agent drawsPass edge
  · exact reach_of_passGoal ready kind draws agent reaches
  · exact ⟨_, .passGraphUnit agent, .clause .unit (reaches.said_unit agent)⟩

/-! ## Shift variables -/

theorem createMoveGraphMonosatShift_asserts (windows : l.encoder.Windows)
    (kind : l.encoder.config.variableKind = .shift) (draws : l.DrawsShifts)
    (reaches : l.DrawsReaches) (reachable : ∀ a < l.encoder.agents, 0 ≤ l.encoder.goalTime a) :
    ∀ line ∈ (l.encoder.createMoveGraphMonosatShift l.shifts).1,
      l.AssertsLine .createMoveGraphMonosatShift line := by
  intro line member
  obtain ⟨required, numbers, same⟩ :=
    Encoder.createMoveGraphMonosatShift_eq l.encoder l.shifts
  obtain ⟨-, edges⟩ := Encoder.shiftEdges_iff numbers
  rw [same, List.cons_append, List.mem_cons, List.mem_append, List.mem_map,
    Encoder.mem_required_iff numbers] at member
  obtain rfl | ⟨edge, member, rfl⟩ | ⟨a, agent, i, j, tail, head, rfl | rfl⟩ := member
  · exact ⟨_, .shiftGraph, .digraph 0⟩
  · obtain ⟨link, among, tail, head, var⟩ := (edges edge.1 edge.2.1 edge.2.2).mp member
    obtain ⟨v, vertex, dir, u, next, t, x, found, rfl⟩ :=
      (Encoder.mem_shiftLinks_iff draws.ready).mp among
    obtain ⟨forth, rfl⟩ := draws.of_found vertex found
    have nonneg := forth.2.choose_spec.2.1.1
    rw [← var]
    exact ⟨_, .shiftGraphShift next forth, .edge ⟨⟨kind, vertex, nonneg⟩, tail⟩
      ⟨⟨kind, windows.neighbor_lt vertex next, by omega⟩, head⟩ (draws.owned forth)⟩
  · exact ⟨_, .shiftGraphReach agent, .reach ⟨⟨kind, windows.startCell a agent, le_rfl⟩, tail⟩
      ⟨⟨kind, windows.goalCell a agent, reachable a agent⟩, head⟩ (reaches.owned agent)⟩
  · exact ⟨_, .shiftGraphUnit agent, .clause .unit (reaches.said_unit agent)⟩

end Layout

end MAPFEncodings

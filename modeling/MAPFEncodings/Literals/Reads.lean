import MAPFEncodings.Literals.Graphs

/-! # Which table entries the generators read

`Reads` lists where a generator reads the timesteps of an entry, in the order of the source. Most of
these places are guarded by a test of the entry's first variable, and the others lie inside the
windows. The timesteps of all other entries have no influence on what the generators write.
-/

namespace MAPFEncodings

open Cnf

/-- An entry of the tables `at` and `pass`. -/
inductive Entry where
  | position (a v : ℕ)
  | pass (a v : ℕ) (dir : Dir)
deriving DecidableEq, Repr

namespace Encoder

def entry (e : Encoder) : Entry → TEGAgent
  | .position a v => e.atEntry a v
  | .pass a v dir => e.passEntry a v dir

/-- The entry has variables, so that its timesteps have been written. -/
def Written (e : Encoder) (x : Entry) : Prop := (e.entry x).firstVariable ≠ 0

instance (e : Encoder) (x : Entry) : Decidable (e.Written x) := inferInstanceAs (Decidable (_ ≠ _))

open Entry in
/-- The generator reads `first_timestep` or `last_timestep` of the entry. -/
inductive Reads (e : Encoder) : Generator → Entry → Prop
  | goal {a : ℕ} (agent : a < e.agents) :
    Reads e .createPossitionGoal (position a (e.inst.goalOf a))
  | noneAtGoal {a a2 : ℕ} (agent : a < e.agents) (agent2 : a2 < e.agents)
    (written : e.Written (position a2 (e.inst.goalOf a))) {x : Entry}
    (read : x ∈ [position a2 (e.inst.goalOf a), position a (e.inst.goalOf a)]) :
    Reads e .createPossitionNoneAtGoal x
  | confVertex {v a1 a2 : ℕ} (vertex : v < e.vertices) (agent1 : a1 < e.agents)
    (written1 : e.Written (position a1 v)) (agent2 : a2 < e.agents)
    (written2 : e.Written (position a2 v)) {x : Entry}
    (read : x ∈ [position a1 v, position a2 v]) : Reads e .createConfVertex x
  | confSwappingAt {v u a1 a2 : ℕ} (vertex : v < e.vertices) {dir : Dir}
    (next : (dir, u) ∈ e.inst.neighbors v Dir.moves) (agent1 : a1 < e.agents)
    (written1 : e.Written (position a1 v) ∧ e.Written (position a1 u)) (agent2 : a2 < e.agents)
    (written2 : e.Written (position a2 u) ∧ e.Written (position a2 v)) {x : Entry}
    (read : x ∈ [position a1 v, position a1 u, position a2 u, position a2 v]) :
    Reads e .createConfSwappingAt x
  | confSwappingPass {v u a1 a2 : ℕ} (vertex : v < e.vertices) {dir : Dir}
    (next : (dir, u) ∈ e.inst.neighbors v Dir.moves) (agent1 : a1 < e.agents)
    (written1 : e.Written (pass a1 v dir)) (agent2 : a2 < e.agents)
    (written2 : e.Written (pass a2 u (oppositeDir dir))) {x : Entry}
    (read : x ∈ [pass a1 v dir, pass a2 u (oppositeDir dir)]) : Reads e .createConfSwappingPass x
  | confPebbleAt {v a1 a2 : ℕ} (vertex : v < e.vertices) (agent1 : a1 < e.agents)
    (written1 : e.Written (position a1 v)) (agent2 : a2 < e.agents)
    (written2 : e.Written (position a2 v)) {x : Entry}
    (read : x ∈ [position a1 v, position a2 v]) : Reads e .createConfPebbleAt x
  | confPebblePass {v u a1 a2 : ℕ} (vertex : v < e.vertices) {dir : Dir}
    (next : (dir, u) ∈ e.inst.neighbors v Dir.moves) (agent1 : a1 < e.agents)
    (written1 : e.Written (pass a1 v dir)) (agent2 : a2 < e.agents)
    (written2 : e.Written (position a2 u)) {x : Entry}
    (read : x ∈ [pass a1 v dir, position a2 u]) : Reads e .createConfPebblePass x
  | noDuplicates {a v : ℕ} (agent : a < e.agents) (vertex : v < e.vertices)
    (written : e.Written (position a v)) : Reads e .createMoveNoDuplicates (position a v)
  | nextVertexAt {a v : ℕ} (agent : a < e.agents) (vertex : v < e.vertices)
    (written : e.Written (position a v)) : Reads e .createMoveNextVertexAt (position a v)
  | nextVertexAtNeighbor {a v u : ℕ} (agent : a < e.agents) (vertex : v < e.vertices) {d : Dir}
    (next : (d, u) ∈ e.inst.neighbors v Dir.all) (written : e.Written (position a u)) :
    Reads e .createMoveNextVertexAt (position a u)
  | enterVertexPass {v u a : ℕ} (vertex : v < e.vertices) {dir : Dir}
    (next : (dir, u) ∈ e.inst.neighbors v Dir.all) (agent : a < e.agents)
    (written : e.Written (pass a v dir)) : Reads e .createMoveEnterVertexPass (pass a v dir)
  | enterVertexPassHead {v u a : ℕ} (vertex : v < e.vertices) {dir : Dir}
    (next : (dir, u) ∈ e.inst.neighbors v Dir.all) (agent : a < e.agents) {t : ℤ}
    (inside : (e.passEntry a v dir).Covers t) : Reads e .createMoveEnterVertexPass (position a u)
  | nextEdgePass {a v : ℕ} (agent : a < e.agents) (vertex : v < e.vertices)
    (written : e.Written (position a v)) : Reads e .createMoveNextEdgePass (position a v)
  | nextEdgePassEdge {a v : ℕ} {dir : Dir} (agent : a < e.agents) (vertex : v < e.vertices)
    (written : e.Written (pass a v dir)) : Reads e .createMoveNextEdgePass (pass a v dir)
  | nextVertexShift {a v : ℕ} (agent : a < e.agents) (vertex : v < e.vertices)
    (written : e.Written (position a v)) : Reads e .createMoveNextVertexShift (position a v)
  | nextVertexShiftNeighbor {a v u : ℕ} (agent : a < e.agents) (vertex : v < e.vertices) {d : Dir}
    (next : (d, u) ∈ e.inst.neighbors v Dir.all) (written : e.Written (position a u)) :
    Reads e .createMoveNextVertexShift (position a u)
  | limitSocAllAtGoal {a : ℕ} (agent : a < e.agents) :
    Reads e .createConstLimitSocAllAt (position a (e.inst.goalOf a))
  | limitSocAllAt {a v : ℕ} (agent : a < e.agents) (vertex : v < e.vertices)
    (away : v ≠ e.inst.goalOf a) (written : e.Written (position a v)) :
    Reads e .createConstLimitSocAllAt (position a v)
  | graphPosition {a v : ℕ} (agent : a < e.agents) (vertex : v < e.vertices)
    (written : e.Written (position a v)) : Reads e .createMoveGraphMonosatPass (position a v)
  | graphPass {a v u : ℕ} (agent : a < e.agents) (vertex : v < e.vertices) {dir : Dir}
    (next : (dir, u) ∈ e.inst.neighbors v Dir.all) (written : e.Written (pass a v dir)) :
    Reads e .createMoveGraphMonosatPass (pass a v dir)
  | graphHead {a v u : ℕ} (agent : a < e.agents) (vertex : v < e.vertices) {dir : Dir}
    (next : (dir, u) ∈ e.inst.neighbors v Dir.all) {t : ℤ}
    (inside : (e.passEntry a v dir).Covers t) : Reads e .createMoveGraphMonosatPass (position a u)
  | graphGoal {a : ℕ} (agent : a < e.agents) :
    Reads e .createMoveGraphMonosatPass (position a (e.inst.goalOf a))

variable {e : Encoder} {hi : ℤ}

/-- The entries which are read without a test have variables, because the windows of neighbours fit
together and those of the goals are not empty. -/
theorem Reads.written (windows : e.Windows) (ready : e.AtReady hi)
    {g : Generator} (passReady : g ∈ [Generator.createMoveEnterVertexPass,
      .createMoveGraphMonosatPass] → ∃ lo, e.PassReady lo) {x : Entry} (reads : e.Reads g x) :
    e.Written x := by
  have goal {a : ℕ} (agent : a < e.agents) : e.Written (.position a (e.inst.goalOf a)) :=
    (windows.goal_covers ready agent).1
  have head {a v u : ℕ} {dir : Dir} {t : ℤ} (passReady : ∃ lo, e.PassReady lo) (agent : a < e.agents)
      (vertex : v < e.vertices) (next : (dir, u) ∈ e.inst.neighbors v Dir.all)
      (inside : (e.passEntry a v dir).Covers t) : e.Written (.position a u) := by
    obtain ⟨lo, passReady⟩ := passReady
    obtain ⟨u', next', -, arrives⟩ :=
      (windows.pass_covers_iff ready passReady agent vertex).mp inside
    obtain rfl := Option.some.inj ((Grid.mem_neighbors_iff.mp next).2.symm.trans next')
    exact arrives.1
  cases reads with
  | goal agent => exact goal agent
  | noneAtGoal agent _ written read =>
    simp only [List.mem_cons, List.not_mem_nil, or_false] at read
    obtain rfl | rfl := read
    · exact written
    · exact goal agent
  | confVertex _ _ written1 _ written2 read =>
    simp only [List.mem_cons, List.not_mem_nil, or_false] at read
    obtain rfl | rfl := read <;> assumption
  | confSwappingAt _ _ _ written1 _ written2 read =>
    simp only [List.mem_cons, List.not_mem_nil, or_false] at read
    obtain rfl | rfl | rfl | rfl := read
    · exact written1.1
    · exact written1.2
    · exact written2.1
    · exact written2.2
  | confSwappingPass _ _ _ written1 _ written2 read =>
    simp only [List.mem_cons, List.not_mem_nil, or_false] at read
    obtain rfl | rfl := read <;> assumption
  | confPebbleAt _ _ written1 _ written2 read =>
    simp only [List.mem_cons, List.not_mem_nil, or_false] at read
    obtain rfl | rfl := read <;> assumption
  | confPebblePass _ _ _ written1 _ written2 read =>
    simp only [List.mem_cons, List.not_mem_nil, or_false] at read
    obtain rfl | rfl := read <;> assumption
  | noDuplicates _ _ written => exact written
  | nextVertexAt _ _ written => exact written
  | nextVertexAtNeighbor _ _ _ written => exact written
  | enterVertexPass _ _ _ written => exact written
  | enterVertexPassHead vertex next agent inside =>
    exact head (passReady (by simp)) agent vertex next inside
  | nextEdgePass _ _ written => exact written
  | nextEdgePassEdge _ _ written => exact written
  | nextVertexShift _ _ written => exact written
  | nextVertexShiftNeighbor _ _ _ written => exact written
  | limitSocAllAtGoal agent => exact goal agent
  | limitSocAllAt _ _ _ written => exact written
  | graphPosition _ _ written => exact written
  | graphPass _ _ _ written => exact written
  | graphHead agent vertex next inside =>
    exact head (passReady (by simp)) agent vertex next inside
  | graphGoal agent => exact goal agent

/-! ## Nothing else is read -/

/-- Solvers with the same first variables, and with the same timesteps in some entries. -/
structure SameOn (e e' : Encoder) (S : Entry → Prop) : Prop where
  outline : e'.outline = e.outline
  shiftTable : e'.shiftTable = e.shiftTable
  shiftTimesStart : e'.shiftTimesStart = e.shiftTimesStart
  shiftTimesEnd : e'.shiftTimesEnd = e.shiftTimesEnd
  first : ∀ x, (e'.entry x).firstVariable = (e.entry x).firstVariable
  entry : ∀ x, S x → e'.entry x = e.entry x

/-- A skipped iteration is skipped in both loops. -/
private theorem ite_nil_congr {α : Type*} {p : Prop} [Decidable p] {xs ys : List α}
    (same : ¬p → xs = ys) : (if p then [] else xs) = if p then [] else ys := by
  split
  · rfl
  · exact same ‹_›

/-- The test of an entry reads its timesteps only if it has variables. -/
private theorem ite_covers_congr {β : Type*} {x x' : TEGAgent} {t : ℤ} {f : TEGAgent → β} {d : β}
    (first : x'.firstVariable = x.firstVariable) (same : x.firstVariable ≠ 0 → x' = x) :
    (if x'.Covers t then f x' else d) = if x.Covers t then f x else d := by
  by_cases written : x.firstVariable = 0
  · rw [if_neg fun covers => covers.1 (first.trans written), if_neg fun covers => covers.1 written]
  · rw [same written]

private theorem mapState_congr {α β σ : Type*} {body body' : σ → α → β × σ} {xs : List α}
    (same : ∀ s, ∀ x ∈ xs, body' s x = body s x) (s : σ) :
    List.mapState body' s xs = List.mapState body s xs := by
  induction xs generalizing s with
  | nil => rfl
  | cons x xs ih =>
    have rest := ih fun t y member => same t y (List.mem_cons_of_mem _ member)
    rw [List.mapState_cons, List.mapState_cons, same s x List.mem_cons_self, rest]

namespace SameOn

variable {e' : Encoder} {S : Entry → Prop}

theorem inst (same : e.SameOn e' S) : e'.inst = e.inst := congrArg Outline.inst same.outline

theorem agents (same : e.SameOn e' S) : e'.agents = e.agents := congrArg Outline.agents same.outline

theorem vertices (same : e.SameOn e' S) : e'.vertices = e.vertices :=
  congrArg Outline.vertices same.outline

theorem delta (same : e.SameOn e' S) : e'.delta = e.delta := congrArg Outline.delta same.outline

theorem config (same : e.SameOn e' S) : e'.config = e.config := congrArg Outline.config same.outline

theorem maxTimestep (same : e.SameOn e' S) : e'.maxTimestep = e.maxTimestep :=
  congrArg Outline.steps same.outline

theorem shiftEntry (same : e.SameOn e' S) : e'.shiftEntry = e.shiftEntry := by
  funext v dir
  rw [Encoder.shiftEntry, same.shiftTable, Encoder.shiftEntry]

theorem timesStart (same : e.SameOn e' S) : e'.timesStart = e.timesStart := by
  funext v
  rw [Encoder.timesStart, same.shiftTimesStart, Encoder.timesStart]

theorem timesEnd (same : e.SameOn e' S) : e'.timesEnd = e.timesEnd := by
  funext v
  rw [Encoder.timesEnd, same.shiftTimesEnd, Encoder.timesEnd]

theorem firstAt (same : e.SameOn e' S) (a v : ℕ) :
    (e'.atEntry a v).firstVariable = (e.atEntry a v).firstVariable := same.first (.position a v)

theorem firstPass (same : e.SameOn e' S) (a v : ℕ) (dir : Dir) :
    (e'.passEntry a v dir).firstVariable = (e.passEntry a v dir).firstVariable :=
  same.first (.pass a v dir)

theorem atEntry (same : e.SameOn e' S) {a v : ℕ} (inside : S (.position a v)) :
    e'.atEntry a v = e.atEntry a v := same.entry _ inside

theorem passEntry (same : e.SameOn e' S) {a v : ℕ} {dir : Dir} (inside : S (.pass a v dir)) :
    e'.passEntry a v dir = e.passEntry a v dir := same.entry _ inside

theorem createPossitionStart (same : e.SameOn e' S) :
    e'.createPossitionStart = e.createPossitionStart := by
  simp only [Encoder.createPossitionStart, same.agents, same.inst, same.firstAt]

theorem createPossitionGoal (same : e.SameOn e' (e.Reads .createPossitionGoal)) :
    e'.createPossitionGoal = e.createPossitionGoal := by
  simp only [Encoder.createPossitionGoal, same.agents, same.inst]
  refine List.map_congr_left fun a agent => ?_
  rw [same.atEntry (.goal (List.mem_range.mp agent))]

theorem createPossitionNoneAtGoal (same : e.SameOn e' (e.Reads .createPossitionNoneAtGoal)) :
    e'.createPossitionNoneAtGoal = e.createPossitionNoneAtGoal := by
  simp only [Encoder.createPossitionNoneAtGoal, same.agents, same.inst, same.firstAt]
  refine List.flatMap_congr fun a agent => List.flatMap_congr fun a2 agent2 =>
    ite_nil_congr fun written => ?_
  rw [List.mem_range] at agent agent2
  rw [same.atEntry (.noneAtGoal agent agent2 written (by simp)),
    same.atEntry (a := a) (.noneAtGoal agent agent2 written (by simp))]

theorem createConfVertex (same : e.SameOn e' (e.Reads .createConfVertex)) :
    e'.createConfVertex = e.createConfVertex := by
  simp only [Encoder.createConfVertex, same.agents, same.vertices, same.firstAt]
  refine List.flatMap_congr fun v vertex => List.flatMap_congr fun a1 agent1 =>
    ite_nil_congr fun written1 => List.flatMap_congr fun a2 agent2 => ite_nil_congr fun written2 => ?_
  simp only [List.mem_range, List.Ico.mem] at vertex agent1 agent2
  have reads {x : Entry} (read : x ∈ [Entry.position a1 v, .position a2 v]) :
      e.Reads .createConfVertex x := .confVertex vertex agent1 written1 agent2.2 written2 read
  rw [same.atEntry (a := a1) (reads (by simp)), same.atEntry (a := a2) (reads (by simp))]

theorem createConfSwappingAt (same : e.SameOn e' (e.Reads .createConfSwappingAt)) :
    e'.createConfSwappingAt = e.createConfSwappingAt := by
  simp only [Encoder.createConfSwappingAt, same.agents, same.vertices, same.inst, same.firstAt]
  refine List.flatMap_congr fun v vertex => List.flatMap_congr fun p next =>
    List.flatMap_congr fun a1 agent1 => ite_nil_congr fun written1 =>
      List.flatMap_congr fun a2 agent2 => ite_nil_congr fun written2 => ?_
  simp only [List.mem_range, List.Ico.mem, not_or] at vertex agent1 agent2 written1 written2
  have reads {x : Entry} (read : x ∈ [Entry.position a1 v, .position a1 p.2, .position a2 p.2,
      .position a2 v]) : e.Reads .createConfSwappingAt x :=
    .confSwappingAt vertex next agent1 written1 agent2.2 written2 read
  rw [same.atEntry (a := a1) (v := v) (reads (by simp)),
    same.atEntry (a := a1) (v := p.2) (reads (by simp)),
    same.atEntry (a := a2) (v := p.2) (reads (by simp)),
    same.atEntry (a := a2) (v := v) (reads (by simp))]

theorem createConfSwappingPass (same : e.SameOn e' (e.Reads .createConfSwappingPass)) :
    e'.createConfSwappingPass = e.createConfSwappingPass := by
  simp only [Encoder.createConfSwappingPass, same.agents, same.vertices, same.inst, same.firstPass]
  refine List.flatMap_congr fun v vertex => List.flatMap_congr fun p next =>
    List.flatMap_congr fun a1 agent1 => ite_nil_congr fun written1 =>
      List.flatMap_congr fun a2 agent2 => ite_nil_congr fun written2 => ?_
  simp only [List.mem_range, List.Ico.mem] at vertex agent1 agent2
  have reads {x : Entry} (read : x ∈ [Entry.pass a1 v p.1, .pass a2 p.2 (oppositeDir p.1)]) :
      e.Reads .createConfSwappingPass x :=
    .confSwappingPass vertex next agent1 written1 agent2.2 written2 read
  rw [same.passEntry (a := a1) (reads (by simp)), same.passEntry (a := a2) (reads (by simp))]

theorem createConfPebbleAt (same : e.SameOn e' (e.Reads .createConfPebbleAt)) :
    e'.createConfPebbleAt = e.createConfPebbleAt := by
  simp only [Encoder.createConfPebbleAt, same.agents, same.vertices, same.firstAt]
  refine List.flatMap_congr fun v vertex => List.flatMap_congr fun a1 agent1 =>
    ite_nil_congr fun written1 => List.flatMap_congr fun a2 agent2 => ite_nil_congr fun written2 => ?_
  simp only [List.mem_range, not_or] at vertex agent1 agent2 written2
  have reads {x : Entry} (read : x ∈ [Entry.position a1 v, .position a2 v]) :
      e.Reads .createConfPebbleAt x := .confPebbleAt vertex agent1 written1 agent2 written2.2 read
  rw [same.atEntry (a := a1) (reads (by simp)), same.atEntry (a := a2) (reads (by simp))]

theorem createConfPebblePass (same : e.SameOn e' (e.Reads .createConfPebblePass)) :
    e'.createConfPebblePass = e.createConfPebblePass := by
  simp only [Encoder.createConfPebblePass, same.agents, same.vertices, same.inst, same.firstAt,
    same.firstPass]
  refine List.flatMap_congr fun v vertex => List.flatMap_congr fun p next =>
    List.flatMap_congr fun a1 agent1 => ite_nil_congr fun written1 =>
      List.flatMap_congr fun a2 agent2 => ite_nil_congr fun written2 => ?_
  simp only [List.mem_range, not_or] at vertex agent1 agent2 written2
  have reads {x : Entry} (read : x ∈ [Entry.pass a1 v p.1, .position a2 p.2]) :
      e.Reads .createConfPebblePass x :=
    .confPebblePass vertex next agent1 written1 agent2 written2.2 read
  rw [same.passEntry (a := a1) (reads (by simp)), same.atEntry (a := a2) (reads (by simp))]

variable (lib : Externals) (lit : ℤ)

theorem createMoveNoDuplicates (same : e.SameOn e' (e.Reads .createMoveNoDuplicates)) :
    e'.createMoveNoDuplicates lib lit = e.createMoveNoDuplicates lib lit := by
  have positions {a : ℕ} (agent : a < e.agents) (t : ℤ) : e'.positionsAt a t = e.positionsAt a t := by
    rw [positionsAt, same.vertices]
    refine List.filterMap_congr fun v vertex => ite_covers_congr (f := fun x => some (x.var t))
      (same.firstAt a v) fun written => ?_
    exact same.atEntry (.noDuplicates agent (List.mem_range.mp vertex) written)
  have rows (s : ℤ) (a : ℕ) (member : a ∈ List.range e.agents) :
      e'.duplicateRow lib s a = e.duplicateRow lib s a := by
    simp only [duplicateRow, same.maxTimestep]
    rw [mapState_congr fun r t _ => ?_]
    rw [duplicateStep, positions (List.mem_range.mp member), duplicateStep]
  rw [createMoveNoDuplicates_eq, createMoveNoDuplicates_eq, same.agents, mapState_congr rows]

theorem createMoveNextVertexAt (same : e.SameOn e' (e.Reads .createMoveNextVertexAt)) :
    e'.createMoveNextVertexAt = e.createMoveNextVertexAt := by
  simp only [Encoder.createMoveNextVertexAt, same.agents, same.vertices, same.inst, same.firstAt]
  refine List.flatMap_congr fun a agent => List.flatMap_congr fun v vertex =>
    ite_nil_congr fun written => ?_
  rw [List.mem_range] at agent vertex
  rw [same.atEntry (.nextVertexAt agent vertex written)]
  refine List.flatMap_congr fun t _ => ?_
  have neighbors : (e.inst.neighbors v Dir.all).filterMap (fun p =>
        if (e'.atEntry a p.2).Covers (t + 1) then some ((e'.atEntry a p.2).var (t + 1)) else none) =
      (e.inst.neighbors v Dir.all).filterMap (fun p =>
        if (e.atEntry a p.2).Covers (t + 1) then some ((e.atEntry a p.2).var (t + 1)) else none) :=
    List.filterMap_congr fun p next => ite_covers_congr (f := fun x => some (x.var (t + 1)))
      (same.firstAt a p.2) fun written =>
        same.atEntry (.nextVertexAtNeighbor (d := p.1) agent vertex next written)
  rw [neighbors]

theorem createMoveEnterVertexPass (same : e.SameOn e' (e.Reads .createMoveEnterVertexPass)) :
    e'.createMoveEnterVertexPass = e.createMoveEnterVertexPass := by
  simp only [Encoder.createMoveEnterVertexPass, same.agents, same.vertices, same.inst,
    same.firstPass]
  refine List.flatMap_congr fun v vertex => List.flatMap_congr fun p next =>
    List.flatMap_congr fun a agent => ite_nil_congr fun written => ?_
  rw [List.mem_range] at vertex agent
  rw [same.passEntry (.enterVertexPass vertex next agent written)]
  refine List.map_congr_left fun t inside => ?_
  rw [Int.mem_range_iff, Int.lt_add_one_iff] at inside
  rw [same.atEntry (.enterVertexPassHead vertex next agent ⟨written, inside⟩)]

theorem createMoveNextEdgePass (same : e.SameOn e' (e.Reads .createMoveNextEdgePass)) :
    e'.createMoveNextEdgePass = e.createMoveNextEdgePass := by
  simp only [Encoder.createMoveNextEdgePass, same.agents, same.vertices, same.firstAt]
  refine List.flatMap_congr fun a agent => List.flatMap_congr fun v vertex =>
    ite_nil_congr fun written => ?_
  rw [List.mem_range] at agent vertex
  rw [same.atEntry (.nextEdgePass agent vertex written)]
  refine List.flatMap_congr fun t _ => ?_
  have edges : Dir.all.filterMap (fun dir =>
        if (e'.passEntry a v dir).Covers t then some ((e'.passEntry a v dir).var t) else none) =
      Dir.all.filterMap (fun dir =>
        if (e.passEntry a v dir).Covers t then some ((e.passEntry a v dir).var t) else none) :=
    List.filterMap_congr fun dir _ => ite_covers_congr (f := fun x => some (x.var t))
      (same.firstPass a v dir) fun written =>
        same.passEntry (.nextEdgePassEdge agent vertex written)
  rw [edges]

theorem createMoveNextVertexShift (same : e.SameOn e' (e.Reads .createMoveNextVertexShift)) :
    e'.createMoveNextVertexShift = e.createMoveNextVertexShift := by
  simp only [Encoder.createMoveNextVertexShift, same.agents, same.vertices, same.inst,
    same.shiftEntry, same.firstAt]
  refine List.flatMap_congr fun a agent => List.flatMap_congr fun v vertex =>
    ite_nil_congr fun written => ?_
  rw [List.mem_range] at agent vertex
  rw [same.atEntry (.nextVertexShift agent vertex written)]
  refine List.flatMap_congr fun t _ => List.flatMap_congr fun p next => ?_
  exact ite_covers_congr (f := fun x => ((e.shiftEntry v p.1).var? t).toList.flatMap fun shiftVar =>
      [[-(e.atEntry a v).var t, -shiftVar, x.var (t + 1)],
        [-(e.atEntry a v).var t, -x.var (t + 1), shiftVar]])
    (same.firstAt a p.2) fun written =>
      same.atEntry (.nextVertexShiftNeighbor (d := p.1) agent vertex next written)

theorem createConstLimitSoc (same : e.SameOn e' S) :
    e'.createConstLimitSoc lib lit = e.createConstLimitSoc lib lit := by
  simp only [Encoder.createConstLimitSoc, limitLate, same.agents, same.delta, same.inst, same.firstAt]

theorem createConstLimitSocAllAt (same : e.SameOn e' (e.Reads .createConstLimitSocAllAt)) :
    e'.createConstLimitSocAllAt lib lit = e.createConstLimitSocAllAt lib lit := by
  have bodies {a : ℕ} (agent : a < e.agents) (d : ℕ) (late : ℤ) :
      ((List.range e.vertices).flatMap fun v => if v = e.inst.goalOf a then [] else
        if (e'.atEntry a v).Covers ((e'.atEntry a (e.inst.goalOf a)).firstTimestep + d) then
          [[-(e'.atEntry a v).var ((e'.atEntry a (e.inst.goalOf a)).firstTimestep + d), late]]
        else []) =
      ((List.range e.vertices).flatMap fun v => if v = e.inst.goalOf a then [] else
        if (e.atEntry a v).Covers ((e.atEntry a (e.inst.goalOf a)).firstTimestep + d) then
          [[-(e.atEntry a v).var ((e.atEntry a (e.inst.goalOf a)).firstTimestep + d), late]]
        else []) := by
    rw [same.atEntry (.limitSocAllAtGoal agent)]
    refine List.flatMap_congr fun v vertex => ite_nil_congr fun away => ?_
    exact ite_covers_congr (f := fun x => [[-x.var _, late]]) (same.firstAt a v) fun written =>
      same.atEntry (.limitSocAllAt agent (List.mem_range.mp vertex) away written)
  simp only [Encoder.createConstLimitSocAllAt, limitLate, same.agents, same.delta, same.inst,
    same.vertices]
  rw [mapState_congr fun s a member => ?_]
  exact mapState_congr (fun r d _ => by rw [bodies (List.mem_range.mp member)]) s

theorem createMoveGraphMonosatPass (same : e.SameOn e' (e.Reads .createMoveGraphMonosatPass)) :
    e'.createMoveGraphMonosatPass lit = e.createMoveGraphMonosatPass lit := by
  have links {a : ℕ} (agent : a < e.agents) : e'.passLinks a = e.passLinks a := by
    simp only [passLinks, same.vertices, same.inst, same.firstAt, same.firstPass]
    congr 1
    · refine List.flatMap_congr fun v vertex => ite_nil_congr fun written => ?_
      rw [same.atEntry (.graphPosition agent (List.mem_range.mp vertex) written)]
    · refine List.flatMap_congr fun v vertex => ite_nil_congr fun writtenV =>
        List.flatMap_congr fun p next => ite_nil_congr fun written => ?_
      rw [List.mem_range] at vertex
      rw [same.atEntry (.graphPosition agent vertex writtenV),
        same.passEntry (.graphPass agent vertex next written)]
      refine List.map_congr_left fun t inside => ?_
      rw [Int.mem_range_iff, Int.lt_add_one_iff] at inside
      rw [same.atEntry (.graphHead agent vertex next ⟨written, inside⟩)]
  have goals {a : ℕ} (agent : a < e.agents) (r : ℤ) : e'.passGoal a r = e.passGoal a r := by
    rw [passGoal, same.inst, same.firstAt, same.atEntry (.graphGoal agent), passGoal]
  rw [createMoveGraphMonosatPass_eq, createMoveGraphMonosatPass_eq, same.agents]
  congr 1
  refine List.flatMap_congr fun a member => ?_
  rw [passGraph, links (List.mem_range.mp member), goals (List.mem_range.mp member), passGraph]

/-! The generators which use only shifts read no timesteps of these tables. -/

theorem createPossitionNoneAtGoalShift (same : e.SameOn e' S) :
    e'.createPossitionNoneAtGoalShift = e.createPossitionNoneAtGoalShift := by
  simp only [Encoder.createPossitionNoneAtGoalShift, lastTimestep, same.agents, same.inst,
    same.maxTimestep, same.delta, same.config, same.shiftEntry, same.timesStart, same.timesEnd]

theorem createConfSwappingShift (same : e.SameOn e' S) :
    e'.createConfSwappingShift = e.createConfSwappingShift := by
  simp only [Encoder.createConfSwappingShift, same.vertices, same.inst, same.shiftEntry]

theorem createConfPebbleShift (same : e.SameOn e' S) :
    e'.createConfPebbleShift = e.createConfPebbleShift := by
  simp only [Encoder.createConfPebbleShift, same.vertices, same.inst, same.shiftEntry]

theorem createMoveExactlyOneShift (same : e.SameOn e' S) :
    e'.createMoveExactlyOneShift = e.createMoveExactlyOneShift := by
  simp only [Encoder.createMoveExactlyOneShift, same.vertices, same.inst, same.shiftEntry,
    same.timesStart, same.timesEnd]

theorem createMoveExactlyOneIncomingShift (same : e.SameOn e' S) :
    e'.createMoveExactlyOneIncomingShift = e.createMoveExactlyOneIncomingShift := by
  simp only [Encoder.createMoveExactlyOneIncomingShift, same.vertices, same.inst, same.shiftEntry,
    same.timesStart, same.timesEnd]

theorem createConstLimitSocShift (same : e.SameOn e' S) :
    e'.createConstLimitSocShift lib lit = e.createConstLimitSocShift lib lit := by
  simp only [Encoder.createConstLimitSocShift, limitLate, same.agents, same.delta, same.inst,
    same.shiftEntry]

theorem createMoveGraphMonosatShift (same : e.SameOn e' S) :
    e'.createMoveGraphMonosatShift lit = e.createMoveGraphMonosatShift lit := by
  have links : e'.shiftLinks = e.shiftLinks := by
    simp only [shiftLinks, same.vertices, same.inst, same.shiftEntry, same.timesStart, same.timesEnd]
  have goals : e'.shiftGoal = e.shiftGoal := by
    funext a r
    simp only [shiftGoal, lastTimestep, same.inst, same.maxTimestep, same.delta, same.config]
  simp only [Encoder.createMoveGraphMonosatShift, links, goals, same.agents]

end SameOn

end Encoder

end MAPFEncodings

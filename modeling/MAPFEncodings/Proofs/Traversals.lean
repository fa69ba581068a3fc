import MAPFEncodings.Model.Monosat
import MAPFEncodings.Proofs.Formula

/-! # `CreatePass` allocates exactly the traversable edges

`CreatePass` compares only the first timestep of the tail with the last one of the head. The
windows of neighbouring vertices differ by at most one at either end, also where a vertex cannot be
reached, and therefore the comparison decides whether both ends have variables. The generators
which rely on this compute no position variable outside its window.
-/

namespace MAPFEncodings

/-- An agent's position at a timestep. -/
structure Position where
  agent : ℕ
  vertex : ℕ
  time : ℤ

namespace Encoder

variable (e : Encoder)

/-- The number which a generator computes for a position, whether or not it has a variable. -/
def atVar (p : Position) : ℤ := (e.atEntry p.agent p.vertex).var p.time

/-- `CreateAt` has given a variable to the position. -/
def Allocated (p : Position) : Prop := (e.atEntry p.agent p.vertex).Covers p.time

/-! ## Computed positions -/

/-- The positions for which `CreateMove_EnterVertex_Pass` computes a variable. -/
def enterVertexPassReads : List Position :=
  (List.range e.vertices).flatMap fun v => (e.inst.neighbors v Dir.all).flatMap fun p =>
    (List.range e.agents).flatMap fun a =>
      if (e.passEntry a v p.1).firstVariable = 0 then [] else
      (Int.range (e.passEntry a v p.1).firstTimestep
        ((e.passEntry a v p.1).lastTimestep + 1)).map fun t => ⟨a, p.2, t + 1⟩

/-- The positions for which `CreateMove_NextEdge_Pass` computes a variable. -/
def nextEdgePassReads : List Position :=
  (List.range e.agents).flatMap fun a => (List.range e.vertices).flatMap fun v =>
    if (e.atEntry a v).firstVariable = 0 then [] else
    (Int.range (e.atEntry a v).firstTimestep ((e.atEntry a v).lastTimestep + 1)).flatMap fun t =>
      if (Dir.all.filterMap fun dir => if (e.passEntry a v dir).Covers t then
        some ((e.passEntry a v dir).var t) else none) = [] then [] else [⟨a, v, t⟩]

/-- The positions for which `CreateMove_Graph_MonosatPass` computes a variable, for both ends of
each edge of an agent's graph. -/
def passLinkReads (a : ℕ) : List Position :=
  ((List.range e.vertices).flatMap fun v =>
    if (e.atEntry a v).firstVariable = 0 then [] else
    (Int.range (e.atEntry a v).firstTimestep ((e.atEntry a v).lastTimestep + 1)).flatMap fun t =>
      [⟨a, v, t⟩, ⟨a, v, t⟩]) ++
  (List.range e.vertices).flatMap fun v =>
    if (e.atEntry a v).firstVariable = 0 then [] else
    (e.inst.neighbors v Dir.all).flatMap fun p =>
      if (e.passEntry a v p.1).firstVariable = 0 then [] else
      (Int.range (e.passEntry a v p.1).firstTimestep
        ((e.passEntry a v p.1).lastTimestep + 1)).flatMap fun t => [⟨a, v, t⟩, ⟨a, p.2, t + 1⟩]

/-- The second literals are the variables of the positions. -/
theorem map_createMoveEnterVertexPass :
    e.createMoveEnterVertexPass.map (·.getD 1 0) = e.enterVertexPassReads.map e.atVar := by
  simp only [createMoveEnterVertexPass, enterVertexPassReads, List.map_flatMap,
    apply_ite (List.map _), List.map_map, List.map_nil]
  rfl

/-- The last literals are the negated variables of the positions. -/
theorem map_createMoveNextEdgePass :
    e.createMoveNextEdgePass.map (·.getLastD 0) = e.nextEdgePassReads.map (-e.atVar ·) := by
  simp only [createMoveNextEdgePass, nextEdgePassReads, List.map_flatMap, apply_ite (List.map _),
    List.map_nil, List.map_cons, List.getLastD_concat]
  rfl

/-- The ends of the edges are the nodes of the positions' variables. -/
theorem flatMap_passLinks (a : ℕ) :
    ((e.passLinks a).flatMap fun link => [link.source.1, link.target.1]) =
      (e.passLinkReads a).map e.atVar := by
  have skip {α β : Type} (c : Prop) [Decidable c] (xs : List α) (f : α → List β) :
      (if c then [] else xs).flatMap f = if c then [] else xs.flatMap f := by
    split <;> rfl
  simp only [passLinks, passLinkReads, List.flatMap_append, List.map_append, List.flatMap_assoc,
    List.map_flatMap, List.flatMap_map, List.map_nil, List.map_cons, skip, apply_ite (List.map _)]
  rfl

/-! ## Windows -/

/-- The tables of positions and passes fit together: a pass has a variable exactly if both its ends
have, and no generator leaves the windows of the positions whose variables it writes. -/
structure TraversesExactly : Prop where
  pass_iff : ∀ a < e.agents, ∀ v < e.vertices, ∀ dir u, e.inst.getNeighbor v dir = some u → ∀ t,
    (e.passEntry a v dir).Covers t ↔ e.Allocated ⟨a, v, t⟩ ∧ e.Allocated ⟨a, u, t + 1⟩
  noPass : ∀ a < e.agents, ∀ v < e.vertices, ∀ dir, e.inst.getNeighbor v dir = none → ∀ t,
    ¬(e.passEntry a v dir).Covers t
  enterVertex : ∀ p ∈ e.enterVertexPassReads, e.Allocated p
  enterVertex_eq : e.createMoveEnterVertexPass.map (·.getD 1 0) = e.enterVertexPassReads.map e.atVar
  nextEdge : ∀ p ∈ e.nextEdgePassReads, e.Allocated p
  nextEdge_eq : e.createMoveNextEdgePass.map (·.getLastD 0) = e.nextEdgePassReads.map (-e.atVar ·)
  graph : ∀ a < e.agents, ∀ p ∈ e.passLinkReads a, e.Allocated p
  graph_eq : ∀ a, ((e.passLinks a).flatMap fun link => [link.source.1, link.target.1]) =
    (e.passLinkReads a).map e.atVar

variable {e}

/-- Inside the loop over an entry's timesteps its variables exist. -/
private theorem covers_of_mem {entry : TEGAgent} (present : entry.firstVariable ≠ 0) {t : ℤ}
    (member : t ∈ Int.range entry.firstTimestep (entry.lastTimestep + 1)) : entry.Covers t := by
  rw [Int.mem_range_iff] at member
  exact ⟨present, member.1, by omega⟩

/-- The windows of passes are what the generators rely on. -/
private theorem traversesExactly_of_iff
    (pass_iff : ∀ a < e.agents, ∀ v < e.vertices, ∀ dir t, (e.passEntry a v dir).Covers t ↔
      ∃ u, e.inst.getNeighbor v dir = some u ∧ e.Allocated ⟨a, v, t⟩ ∧ e.Allocated ⟨a, u, t + 1⟩) :
    e.TraversesExactly := by
  have ends {a v : ℕ} (boundA : a < e.agents) (boundV : v < e.vertices) {q : Dir × ℕ}
      (next : e.inst.getNeighbor v q.1 = some q.2) {t : ℤ} (covers : (e.passEntry a v q.1).Covers t) :
      e.Allocated ⟨a, v, t⟩ ∧ e.Allocated ⟨a, q.2, t + 1⟩ := by
    obtain ⟨u, next', both⟩ := (pass_iff a boundA v boundV q.1 t).mp covers
    obtain rfl := Option.some.inj (next.symm.trans next')
    exact both
  refine ⟨?_, ?_, ?_, e.map_createMoveEnterVertexPass, ?_, e.map_createMoveNextEdgePass, ?_,
    e.flatMap_passLinks⟩
  · intro a boundA v boundV dir u next t
    rw [pass_iff a boundA v boundV]
    simp only [next, Option.some.injEq, exists_eq_left']
  · intro a boundA v boundV dir missing t covers
    obtain ⟨u, next, -⟩ := (pass_iff a boundA v boundV dir t).mp covers
    exact absurd (missing.symm.trans next) nofun
  · intro p member
    simp only [enterVertexPassReads, List.mem_flatMap, List.mem_range] at member
    obtain ⟨v, boundV, q, next, a, boundA, member⟩ := member
    split at member
    · exact absurd member List.not_mem_nil
    · next present =>
      obtain ⟨t, inside, rfl⟩ := List.mem_map.mp member
      exact (ends boundA boundV (Grid.mem_neighbors_iff.mp next).2
        (covers_of_mem present inside)).2
  · intro p member
    simp only [nextEdgePassReads, List.mem_flatMap, List.mem_range] at member
    obtain ⟨a, -, v, -, member⟩ := member
    split at member
    · exact absurd member List.not_mem_nil
    · next present =>
      obtain ⟨t, inside, member⟩ := List.mem_flatMap.mp member
      split at member
      · exact absurd member List.not_mem_nil
      · obtain rfl := List.mem_singleton.mp member
        exact covers_of_mem present inside
  · intro a boundA p member
    rw [passLinkReads, List.mem_append] at member
    simp only [List.mem_flatMap, List.mem_range] at member
    obtain ⟨v, boundV, member⟩ | ⟨v, boundV, member⟩ := member
    · split at member
      · exact absurd member List.not_mem_nil
      · next present =>
        obtain ⟨t, inside, member⟩ := List.mem_flatMap.mp member
        obtain rfl : p = ⟨a, v, t⟩ := by simpa using member
        exact covers_of_mem present inside
    · split at member
      · exact absurd member List.not_mem_nil
      · obtain ⟨q, next, member⟩ := List.mem_flatMap.mp member
        split at member
        · exact absurd member List.not_mem_nil
        · next present =>
          obtain ⟨t, inside, member⟩ := List.mem_flatMap.mp member
          have both := ends boundA boundV (Grid.mem_neighbors_iff.mp next).2
            (covers_of_mem present inside)
          rcases List.mem_cons.mp member with rfl | member
          · exact both.1
          · obtain rfl := List.mem_singleton.mp member
            exact both.2

variable (e) in
/-- The tables after `CreateAt` and `CreatePass`, for the number of timesteps of `CreateFormula`. -/
def createAtPass (lib : Externals) (lit : ℤ) : Encoder :=
  ((e.createAt lib lit e.timesteps).1.createPass lib (e.createAt lib lit e.timesteps).2
    e.timesteps).1

theorem createAtPass_ready (e : Encoder) (lib : Externals) {lit : ℤ} (pos : 1 ≤ lit) :
    (e.createAtPass lib lit).AtReady (e.createAt lib lit e.timesteps).2 ∧
      ∃ hi, (e.createAtPass lib lit).PassReady hi := by
  have readyAt := createAt_ready e lib lit e.timesteps pos
  have posAt : 1 ≤ (e.createAt lib lit e.timesteps).2 :=
    pos.trans (allocates_createAt e lib lit e.timesteps).le
  exact ⟨⟨readyAt.entry, readyAt.covers, readyAt.isVar⟩, _,
    createPass_ready (e.createAt lib lit e.timesteps).1 lib _ e.timesteps posAt rfl⟩

/-- For every instance, with reachable goals or not, every delta and both cost functions,
`CreatePass` allocates exactly the traversable edges. -/
theorem createPass_traversesExactly (req : Request) (e : Encoder) (poses : req.Poses e)
    (lib : Externals) (lit : ℤ) (pos : 1 ≤ lit) : (e.createAtPass lib lit).TraversesExactly := by
  obtain ⟨readyAt, hi, ready⟩ := createAtPass_ready e lib pos
  have windows : (e.createAtPass lib lit).Windows :=
    @Request.Poses.windows req _ ⟨poses.inst, poses.agents, poses.vertices⟩ rfl
  refine traversesExactly_of_iff fun a boundA v boundV dir t => ?_
  exact windows.pass_covers_iff readyAt ready boundA boundV

/-- Also for an agent which cannot reach its goal. -/
theorem createPass_traversesExactly_severed :
    ((Request.severed.encoder ⟨.pass, .soc, .parallel, .eager, .allow⟩ 1).createAtPass .binomial
      1).TraversesExactly :=
  createPass_traversesExactly .severed _ (Request.encoder_poses ..) .binomial 1 le_rfl

end Encoder

end MAPFEncodings

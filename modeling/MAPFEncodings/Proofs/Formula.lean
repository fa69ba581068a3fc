import MAPFEncodings.Proofs.ConflictClauses
import MAPFEncodings.Proofs.Sections
import MAPFEncodings.Proofs.Tasks

/-! # The meaning of the formula

`Routes` is what the position, movement and cost clauses say about a valuation of the tables'
variables, and `Apart` is what the eager conflict clauses say. The formula of an eager encoding is
satisfiable over fresh auxiliary variables exactly by the valuations with both properties.
-/

namespace MAPFEncodings

open Cnf PathFinding

namespace Encoder

variable (e : Encoder)

/-! ## Conditions -/

/-- What the eager conflict clauses besides the vertex clauses say about positions, passes and
shifts. -/
def KeepsApart (at_ : ℕ → ℕ → ℤ → Prop) (pass : ℕ → ℕ → Dir → ℤ → Prop) (shifts : ℕ → Dir → ℤ → Prop) :
    Prop :=
  match e.config.movement, e.config.variableKind with
  | .parallel, .at_ => ∀ a < e.agents, ∀ b < e.agents, a ≠ b → ∀ v < e.vertices, ∀ dir u,
      dir ≠ .wait → e.inst.getNeighbor v dir = some u → ∀ t,
        ¬((at_ a v t ∧ at_ a u (t + 1)) ∧ at_ b u t ∧ at_ b v (t + 1))
  | .parallel, .pass => ∀ a < e.agents, ∀ b < e.agents, a ≠ b → ∀ v < e.vertices, ∀ dir u,
      dir ≠ .wait → e.inst.getNeighbor v dir = some u →
        ∀ t, ¬(pass a v dir t ∧ pass b u (oppositeDir dir) t)
  | .parallel, .shift => ∀ v < e.vertices, ∀ dir u, dir ≠ .wait →
      e.inst.getNeighbor v dir = some u → ∀ t, ¬(shifts v dir t ∧ shifts u (oppositeDir dir) t)
  | .pebble, .at_ => ∀ a < e.agents, ∀ b < e.agents, a ≠ b →
      ∀ v < e.vertices, ∀ t, ¬(at_ a v t ∧ at_ b v (t - 1))
  | .pebble, .pass => ∀ a < e.agents, ∀ b < e.agents, a ≠ b → ∀ v < e.vertices, ∀ dir u,
      dir ≠ .wait → e.inst.getNeighbor v dir = some u → ∀ t, ¬(pass a v dir t ∧ at_ b u t)
  | .pebble, .shift => ∀ v < e.vertices, ∀ dir u, e.inst.getNeighbor v dir = some u →
      ∀ uDir, uDir ≠ .wait → ∀ t, ¬(shifts v dir t ∧ shifts u uDir t)

/-- The eager conflict clauses besides the vertex clauses. -/
def MovingApart (σ : Valuation) : Prop := e.KeepsApart (e.At σ) (e.Pass σ) (e.Shifts σ)

/-- The eager conflict clauses. -/
structure Apart (σ : Valuation) : Prop where
  vertex : ∀ a < e.agents, ∀ b < e.agents, a ≠ b →
    ∀ v < e.vertices, ∀ t, ¬(e.At σ a v t ∧ e.At σ b v t)
  moving : e.MovingApart σ

/-- From every position the agent goes on to a neighbouring one. -/
def NextVertex (σ : Valuation) : Prop := ∀ a < e.agents, ∀ v < e.vertices, ∀ t,
  e.At σ a v t → (∃ dir u, e.inst.getNeighbor v dir = some u ∧ (e.atEntry a u).Covers (t + 1)) →
    ∃ dir u, e.inst.getNeighbor v dir = some u ∧ e.At σ a u (t + 1)

/-- The movement clauses. -/
def Moves (σ : Valuation) : Prop :=
  match e.config.variableKind with
  | .at_ => e.NextVertex σ
  | .pass =>
    (∀ a < e.agents, ∀ v < e.vertices, ∀ dir u, e.inst.getNeighbor v dir = some u →
      ∀ t, e.Pass σ a v dir t → e.At σ a u (t + 1)) ∧
    ∀ a < e.agents, ∀ v < e.vertices, ∀ t, e.At σ a v t →
      (∃ dir, (e.passEntry a v dir).Covers t) → ∃ dir, e.Pass σ a v dir t
  | .shift => (e.NextVertex σ ∧
      ∀ v < e.vertices, ∀ dir dir', dir ≠ dir' → ∀ t, ¬(e.Shifts σ v dir t ∧ e.Shifts σ v dir' t)) ∧
    ∀ a < e.agents, ∀ v < e.vertices, ∀ dir u, e.inst.getNeighbor v dir = some u → ∀ t,
      e.At σ a v t → (e.atEntry a u).Covers (t + 1) → ((e.shiftEntry v dir).var? t).isSome →
        (e.Shifts σ v dir t ↔ e.At σ a u (t + 1))

/-- The clauses against duplicates. -/
def Single (σ : Valuation) : Prop := ∀ a < e.agents, ∀ t, 0 ≤ t → t < e.maxTimestep →
  ∀ v < e.vertices, ∀ u < e.vertices, v ≠ u → ¬(e.At σ a v t ∧ e.At σ a u t)

/-- Which positions make an agent late. -/
def LateBy (at_ : ℕ → ℕ → ℤ → Prop) (a d : ℕ) : Prop :=
  match e.config.duplicates with
  | .forbid => ¬at_ a (e.inst.goalOf a) (e.afterShortest a d)
  | .allow => ∃ v < e.vertices, v ≠ e.inst.goalOf a ∧ at_ a v (e.afterShortest a d)

/-- What makes an agent late. -/
def LateAt (σ : Valuation) : ℕ → ℕ → Prop := e.LateBy (e.At σ)

/-- All clauses besides the conflict clauses. -/
structure Routes (L : ℕ → ℕ) (σ : Valuation) : Prop where
  starts : ∀ a < e.agents, e.At σ a (e.inst.startOf a) 0
  goals : ∀ a < e.agents, e.At σ a (e.inst.goalOf a) (L a)
  guarded : e.config.costFunction = .soc → ∀ a < e.agents, ∀ b < e.agents,
    ∀ t, (L a : ℤ) < t → ¬e.At σ b (e.inst.goalOf a) t
  moves : e.Moves σ
  single : e.config.duplicates = .forbid → e.Single σ
  bounded : e.config.costFunction = .soc → 0 < e.delta →
    ∑ a ∈ Finset.range e.agents, delay (e.LateAt σ a) e.delta ≤ e.delta

/-- All clauses besides the conflict clauses, whether or not the goals can be reached. -/
structure Obeys (σ : Valuation) : Prop where
  starts : ∀ a < e.agents, e.At σ a (e.inst.startOf a) 0
  goals : ∀ a < e.agents, e.At σ a (e.inst.goalOf a) (e.goalTime a)
  guarded : e.config.costFunction = .soc → ∀ a < e.agents, ∀ b < e.agents,
    ∀ t, e.goalTime a < t → ¬e.At σ b (e.inst.goalOf a) t
  moves : e.Moves σ
  single : e.config.duplicates = .forbid → e.Single σ
  bounded : e.config.costFunction = .soc → 0 < e.delta →
    ∑ a ∈ Finset.range e.agents, delay (e.LateAt σ a) e.delta ≤ e.delta

/-! ## Tables -/

theorem AtReady.mono {e : Encoder} {lo hi : ℤ} (ready : e.AtReady lo) (le : lo ≤ hi) :
    e.AtReady hi :=
  ⟨ready.entry, ready.covers, fun a boundA v boundV t covers =>
    (ready.isVar a boundA v boundV t covers).mono le⟩

/-- The tables of an encoding, whose variables lie below `hi`. -/
structure Ready (hi : ℤ) : Prop where
  pos : 1 ≤ hi
  windows : e.Windows
  atReady : e.AtReady hi
  passReady : e.config.variableKind = .pass → e.PassReady hi
  shiftReady : e.config.variableKind = .shift → e.ShiftReady hi
  slack : e.config.costFunction = .soc → e.Slack

/-- The variables of the tables can be chosen freely. -/
def Free : Prop := ∀ (atHolds : ℕ → ℕ → ℤ → Prop) (passHolds : ℕ → ℕ → Dir → ℤ → Prop)
    (shiftHolds : ℕ → Dir → ℤ → Prop), ∃ σ,
  (∀ a < e.agents, ∀ v < e.vertices, ∀ t,
    e.At σ a v t ↔ (e.atEntry a v).Covers t ∧ atHolds a v t) ∧
  (e.config.variableKind = .pass → ∀ a < e.agents, ∀ v < e.vertices, ∀ dir t,
    e.Pass σ a v dir t ↔ (e.passEntry a v dir).Covers t ∧ passHolds a v dir t) ∧
  (e.config.variableKind = .shift → ∀ v < e.vertices, ∀ dir t,
    e.Shifts σ v dir t ↔ ((e.shiftEntry v dir).var? t).isSome ∧ shiftHolds v dir t)

/-- The tables of an encoding, whose variables lie below `hi` and can be chosen freely. -/
structure Prepared (L : ℕ → ℕ) (hi : ℤ) : Prop where
  pos : 1 ≤ hi
  setting : e.Setting L
  atReady : e.AtReady hi
  passReady : e.config.variableKind = .pass → e.PassReady hi
  shiftReady : e.config.variableKind = .shift → e.ShiftReady hi
  budget : e.config.costFunction = .soc → e.Budget L
  together : e.config.costFunction = .mks → ∀ a < e.agents, (L a : ℤ) + 1 = e.maxTimestep
  free : e.Free

variable {e} in
theorem Prepared.ready {L : ℕ → ℕ} {hi : ℤ} (prepared : e.Prepared L hi) : e.Ready hi :=
  ⟨prepared.pos, prepared.setting.windows, prepared.atReady, prepared.passReady,
    prepared.shiftReady, fun soc => (prepared.budget soc).slack prepared.setting⟩

variable {e} in
/-- Goals which can be reached are met at the deadlines. -/
theorem Setting.routes_iff {L : ℕ → ℕ} (setting : e.Setting L) {σ : Valuation} :
    e.Routes L σ ↔ e.Obeys σ := by
  constructor
  · rintro ⟨starts, goals, guarded, moves, single, bounded⟩
    refine ⟨starts, fun a bound => ?_, fun soc a boundA => ?_, moves, single, bounded⟩
    · rw [setting.goalTime_eq bound]
      exact goals a bound
    · rw [setting.goalTime_eq boundA]
      exact guarded soc a boundA
  · rintro ⟨starts, goals, guarded, moves, single, bounded⟩
    refine ⟨starts, fun a bound => ?_, fun soc a boundA => ?_, moves, single, bounded⟩
    · rw [← setting.goalTime_eq bound]
      exact goals a bound
    · rw [← setting.goalTime_eq boundA]
      exact guarded soc a boundA

/-- The valuation of a joint allocation reads as any choice for both tables. -/
private theorem exists_reading {κ ι : Type*} {Has : κ → ℤ → Prop} {Has' : ι → ℤ → Prop}
    {lo hi : ℤ} (alloc : Allocates (Sum.elim Has Has') lo hi) (holds : κ → Prop)
    (holds' : ι → Prop) : ∃ σ : Valuation, (∀ k x, Has k x → (σ x = true ↔ holds k)) ∧
      ∀ k x, Has' k x → (σ x = true ↔ holds' k) := by
  obtain ⟨σ, reads⟩ := alloc.exists_valuation (Sum.elim holds holds')
  exact ⟨σ, fun k x has => reads (.inl k) x has, fun k x has => reads (.inr k) x has⟩

variable {e} {lib : Externals} {task : Task} {lit : ℤ}

/-- The members which a request and its delta fix. -/
structure Alike (e e' : Encoder) : Prop where
  inst : e.inst = e'.inst
  config : e.config = e'.config
  agents : e.agents = e'.agents
  vertices : e.vertices = e'.vertices
  delta : e.delta = e'.delta

/-- Creating variables writes the tables and nothing else. -/
theorem createVariables_members (e : Encoder) (lib : Externals) (lit : ℤ) :
    (e.createVariables lib lit).1.inst = e.inst ∧ (e.createVariables lib lit).1.config = e.config ∧
      (e.createVariables lib lit).1.agents = e.agents ∧
      (e.createVariables lib lit).1.vertices = e.vertices ∧
      (e.createVariables lib lit).1.delta = e.delta := by
  unfold createVariables
  dsimp only
  split <;> exact ⟨rfl, rfl, rfl, rfl, rfl⟩

theorem createVariables_poses (poses : task.Poses e) :
    task.Poses (e.createVariables lib lit).1 := by
  obtain ⟨inst, -, agents, vertices, -⟩ := createVariables_members e lib lit
  exact ⟨inst.trans poses.inst, agents.trans poses.agents, vertices.trans poses.vertices⟩

theorem deadline_createVariables (e : Encoder) (lib : Externals) (lit : ℤ) :
    (e.createVariables lib lit).1.deadline = e.deadline := by
  obtain ⟨inst, config, agents, -, delta⟩ := createVariables_members e lib lit
  unfold deadline timesteps
  rw [inst, config, agents, delta]

variable (lib lit) in
/-- `CreateAt` and its companions make the tables of a request. -/
theorem createVariables_ready {req : Request} (poses : req.Poses e) (pos : 1 ≤ lit) :
    (e.createVariables lib lit).1.Ready (e.createVariables lib lit).2 ∧
      lit ≤ (e.createVariables lib lit).2 := by
  have atAlloc := allocates_createAt e lib lit e.timesteps
  have atReady := createAt_ready e lib lit e.timesteps pos
  have posAt : 1 ≤ (e.createAt lib lit e.timesteps).2 := pos.trans atAlloc.le
  have atPoses : req.Poses (e.createAt lib lit e.timesteps).1 :=
    ⟨poses.inst, poses.agents, poses.vertices⟩
  unfold createVariables
  dsimp only
  split
  · next kind =>
    refine ⟨⟨posAt, atPoses.windows rfl, atReady, fun pass => ?_, fun shift => ?_,
      atPoses.slack⟩, atAlloc.le⟩
    · exact absurd (kind.symm.trans pass) (by decide)
    · exact absurd (kind.symm.trans shift) (by decide)
  · next kind =>
    let e' := (e.createAt lib lit e.timesteps).1
    let lit' := (e.createAt lib lit e.timesteps).2
    have alloc := allocates_createPass e' lib lit' e.timesteps
    have passPoses : req.Poses (e'.createPass lib lit' e.timesteps).1 :=
      ⟨poses.inst, poses.agents, poses.vertices⟩
    refine ⟨⟨posAt.trans alloc.le, passPoses.windows rfl,
      @AtReady.mono _ lit' _ ⟨atReady.entry, atReady.covers, atReady.isVar⟩ alloc.le,
      fun _ => createPass_ready e' lib lit' e.timesteps posAt rfl, fun shift => ?_,
      passPoses.slack⟩, atAlloc.le.trans alloc.le⟩
    exact absurd (kind.symm.trans shift) (by decide)
  · next kind =>
    let e' := (e.createAt lib lit e.timesteps).1
    let lit' := (e.createAt lib lit e.timesteps).2
    have alloc := allocates_createShift e' lit' e.timesteps
    have shiftPoses : req.Poses (e'.createShift lit' e.timesteps).1 :=
      ⟨poses.inst, poses.agents, poses.vertices⟩
    refine ⟨⟨posAt.trans alloc.le, shiftPoses.windows rfl,
      @AtReady.mono _ lit' _ ⟨atReady.entry, atReady.covers, atReady.isVar⟩ alloc.le,
      fun pass => ?_, fun _ => createShift_ready e' lit' e.timesteps posAt,
      shiftPoses.slack⟩, atAlloc.le.trans alloc.le⟩
    exact absurd (kind.symm.trans pass) (by decide)

variable (lib lit) in
theorem createVariables_free (e : Encoder) : (e.createVariables lib lit).1.Free := by
  intro atHolds passHolds shiftHolds
  have atAlloc := allocates_createAt e lib lit e.timesteps
  unfold createVariables
  dsimp only
  split
  · next kind =>
    obtain ⟨σ, reads⟩ := atAlloc.exists_valuation fun key => atHolds key.1 key.2.1 key.2.2
    refine ⟨σ, fun a boundA v boundV t => and_congr_right fun covers => ?_,
      fun pass => absurd (kind.symm.trans pass) (by decide),
      fun shift => absurd (kind.symm.trans shift) (by decide)⟩
    exact reads (a, v, t) _ ⟨boundA, boundV, covers, rfl⟩
  · next kind =>
    let e' := (e.createAt lib lit e.timesteps).1
    let lit' := (e.createAt lib lit e.timesteps).2
    obtain ⟨σ, reads, reads'⟩ := exists_reading
      (atAlloc.sum (allocates_createPass e' lib lit' e.timesteps))
      (fun key => atHolds key.1 key.2.1 key.2.2)
      (fun key => passHolds key.1 key.2.1 key.2.2.1 key.2.2.2)
    refine ⟨σ, fun a boundA v boundV t => and_congr_right fun covers => ?_,
      fun _ a boundA v boundV dir t => and_congr_right fun covers => ?_,
      fun shift => absurd (kind.symm.trans shift) (by decide)⟩
    · exact reads (a, v, t) _ ⟨boundA, boundV, covers, rfl⟩
    · exact reads' (a, v, dir, t) _ ⟨boundA, boundV, covers, rfl⟩
  · next kind =>
    let e' := (e.createAt lib lit e.timesteps).1
    let lit' := (e.createAt lib lit e.timesteps).2
    obtain ⟨σ, reads, reads'⟩ := exists_reading
      (atAlloc.sum (allocates_createShift e' lit' e.timesteps))
      (fun key => atHolds key.1 key.2.1 key.2.2) (fun key => shiftHolds key.1 key.2.1 key.2.2)
    refine ⟨σ, fun a boundA v boundV t => and_congr_right fun covers => ?_,
      fun pass => absurd (kind.symm.trans pass) (by decide), fun _ v boundV dir t => ?_⟩
    · exact reads (a, v, t) _ ⟨boundA, boundV, covers, rfl⟩
    · rw [Option.isSome_iff_exists, ← exists_and_right]
      exact exists_congr fun x => and_congr_right fun found =>
        reads' (v, dir, t) x ⟨boundV, found⟩

/-- A position is looked up only where its agent has a window. -/
theorem le_of_present_createVariables {a v : ℕ} (boundA : a < e.agents) (boundV : v < e.vertices)
    (present : ((e.createVariables lib lit).1.atEntry a v).firstVariable ≠ 0) :
    e.inst.firstTimestep a v ≤ e.lastTimestep a v e.timesteps := by
  apply le_of_present e lib lit e.timesteps boundA boundV
  unfold createVariables at present
  dsimp only at present
  revert present
  split <;> exact id

/-- Creating variables fixes the number of timesteps. -/
theorem maxTimestep_createVariables (e : Encoder) (lib : Externals) (lit : ℤ) :
    (e.createVariables lib lit).1.maxTimestep = e.timesteps := by
  unfold createVariables
  dsimp only
  split <;> rfl

variable (lib lit) in
/-- `CreateAt` and its companions prepare the encoder of a task. -/
theorem createVariables_prepared (poses : task.Poses e) (pos : 1 ≤ lit) :
    (e.createVariables lib lit).1.Prepared e.deadline (e.createVariables lib lit).2 ∧
      lit ≤ (e.createVariables lib lit).2 := by
  obtain ⟨ready, le⟩ := createVariables_ready lib lit poses.request pos
  obtain ⟨inst, config, agents, vertices, delta⟩ := createVariables_members e lib lit
  have steps := maxTimestep_createVariables e lib lit
  have same := deadline_createVariables e lib lit
  have poses' : task.Poses (e.createVariables lib lit).1 := createVariables_poses poses
  refine ⟨⟨ready.pos, ?_, ready.atReady, ready.passReady, ready.shiftReady, ?_, ?_, ?_⟩, le⟩
  · rw [← same]
    exact poses'.setting (steps.trans (by rw [timesteps, timesteps, inst, agents, delta]))
  · rw [← same]
    exact poses'.budget
  · rw [config, agents, steps]
    intro mks a bound
    rw [poses.deadline_mks mks bound, sub_add_cancel]
  · exact createVariables_free lib lit e

/-! ## Clauses -/

variable {L : ℕ → ℕ} {hi : ℤ}

theorem conflictClausesEager_expresses (ready : e.Ready hi) :
    Expresses hi e.conflictClausesEager e.Apart := by
  have vertex := createConfVertex_expresses ready.atReady
  have moving : Expresses hi e.createConfMoving e.MovingApart := by
    unfold createConfMoving MovingApart KeepsApart
    cases movement : e.config.movement <;> cases kind : e.config.variableKind
    · exact createConfSwappingAt_expresses ready.windows ready.atReady
    · exact createConfSwappingPass_expresses ready.windows (ready.passReady kind)
    · exact createConfSwappingShift_expresses ready.windows (ready.shiftReady kind)
    · exact createConfPebbleAt_expresses ready.atReady
    · exact createConfPebblePass_expresses ready.windows ready.atReady
        (ready.passReady kind) le_rfl
    · exact createConfPebbleShift_expresses ready.windows (ready.shiftReady kind)
  exact (vertex.append moving).congr fun σ =>
    ⟨fun both => ⟨both.1, both.2⟩, fun apart => ⟨apart.vertex, apart.moving⟩⟩

theorem positionClauses_expresses (ready : e.Ready hi) :
    Expresses hi e.positionClauses fun σ =>
      ((∀ a < e.agents, e.At σ a (e.inst.startOf a) 0) ∧
        ∀ a < e.agents, e.At σ a (e.inst.goalOf a) (e.goalTime a)) ∧
      (e.config.costFunction = .soc → ∀ a < e.agents, ∀ b < e.agents,
        ∀ t, e.goalTime a < t → ¬e.At σ b (e.inst.goalOf a) t) := by
  have starts := createPossitionStart_expresses ready.windows ready.atReady
  have goals := createPossitionGoal_expresses ready.windows ready.atReady
  unfold positionClauses
  apply (starts.append goals).append
  cases kind : e.config.costFunction with
  | mks => exact Expresses.nil.congr fun σ => by simp
  | soc =>
    exact (createPossitionNoneAtGoal_expresses ready.windows ready.atReady).congr
      fun σ => by simp

theorem movementClauses_expresses (ready : e.Ready hi) :
    Expresses hi e.movementClauses e.Moves := by
  unfold movementClauses Moves
  cases kind : e.config.variableKind with
  | at_ => exact createMoveNextVertexAt_expresses ready.windows ready.atReady
  | pass =>
    exact (createMoveEnterVertexPass_expresses ready.windows ready.atReady
      (ready.passReady kind) le_rfl).append
      (createMoveNextEdgePass_expresses ready.atReady (ready.passReady kind) le_rfl)
  | shift =>
    exact ((createMoveNextVertexAt_expresses ready.windows ready.atReady).append
      (createMoveExactlyOneShift_expresses (ready.shiftReady kind))).append
      (createMoveNextVertexShift_expresses ready.windows ready.atReady
        (ready.shiftReady kind) le_rfl)

theorem duplicateClauses_block (contract : AtMostContract lib.encodeAtMostK) (pos : 1 ≤ hi)
    (ready : e.AtReady hi) (le : hi ≤ lit) :
    Block lit (e.duplicateClauses lib lit).2 (e.duplicateClauses lib lit).1 fun σ =>
      e.config.duplicates = .forbid → e.Single σ := by
  unfold duplicateClauses
  cases kind : e.config.duplicates with
  | forbid =>
    exact (createMoveNoDuplicates_block contract ready pos le).congr fun σ => by simp [Single]
  | allow => exact Expresses.nil.block.congr fun σ => by simp

theorem costClauses_block (contract : AtMostContract lib.encodeAtMostK) (pos : 1 ≤ hi)
    (windows : e.Windows) (ready : e.AtReady hi) (slack : e.config.costFunction = .soc → e.Slack)
    (le : hi ≤ lit) :
    Block lit (e.costClauses lib lit).2 (e.costClauses lib lit).1 fun σ =>
      e.config.costFunction = .soc → 0 < e.delta →
        ∑ a ∈ Finset.range e.agents, delay (e.LateAt σ a) e.delta ≤ e.delta := by
  unfold costClauses
  by_cases bounded : e.config.costFunction = .soc ∧ 0 < e.delta
  · rw [if_pos bounded]
    cases kind : e.config.duplicates with
    | forbid =>
      refine (createConstLimitSoc_block contract windows (slack bounded.1) ready pos le).congr
        fun σ => ?_
      have late (a : ℕ) : e.LateAt σ a =
          fun d => ¬e.At σ a (e.inst.goalOf a) (e.afterShortest a d) := by
        funext d
        simp only [LateAt, LateBy, kind]
      simp only [bounded, late, forall_const]
    | allow =>
      refine (createConstLimitSocAllAt_block contract windows ready pos le).congr fun σ => ?_
      have late (a : ℕ) : e.LateAt σ a =
          fun d => ∃ v < e.vertices, v ≠ e.inst.goalOf a ∧ e.At σ a v (e.afterShortest a d) := by
        funext d
        simp only [LateAt, LateBy, kind]
      simp only [bounded, late, forall_const]
  · rw [if_neg bounded]
    exact Expresses.nil.block.congr fun σ => by simpa using fun soc pos => absurd ⟨soc, pos⟩ bounded

theorem lateAt_congr (windows : e.Windows) (ready : e.AtReady hi) {σ τ : Valuation}
    (agree : Agree hi σ τ) {a : ℕ} (boundA : a < e.agents) (d : ℕ) :
    e.LateAt σ a d ↔ e.LateAt τ a d := by
  unfold LateAt LateBy
  split
  · exact not_congr (At.congr ready agree boundA (windows.goalCell a boundA))
  · exact exists_congr fun v => and_congr_right fun boundV => and_congr_right fun _ =>
      At.congr ready agree boundA boundV

/-- The clauses besides the conflict clauses, in the order of the source. -/
def routeClauses (e : Encoder) (lib : Externals) (lit : ℤ) : List Clause × ℤ :=
  let duplicates := e.duplicateClauses lib lit
  let cost := e.costClauses lib duplicates.2
  (e.positionClauses ++ duplicates.1 ++ e.movementClauses ++ cost.1, cost.2)

theorem routeClauses_obeys (contract : AtMostContract lib.encodeAtMostK) (ready : e.Ready hi) :
    Block hi (e.routeClauses lib hi).2 (e.routeClauses lib hi).1 e.Obeys := by
  have duplicates := duplicateClauses_block contract ready.pos ready.atReady le_rfl
  have cost := costClauses_block contract ready.pos ready.windows ready.atReady
    ready.slack duplicates.le
  have auxiliary := duplicates.append cost fun σ τ agree bounded soc pos => by
    rw [← Finset.sum_congr rfl fun a memA => delay_congr fun d _ =>
      lateAt_congr ready.windows ready.atReady agree (Finset.mem_range.mp memA) d]
    exact bounded soc pos
  have all := (auxiliary.withBase (positionClauses_expresses ready)).withBase
    (movementClauses_expresses ready)
  refine (all.of_mem_iff fun c => ?_).congr fun σ => ?_
  · simp only [routeClauses, List.mem_append]
    tauto
  · constructor
    · rintro ⟨⟨⟨single, bounded⟩, ⟨starts, goals⟩, guarded⟩, moves⟩
      exact ⟨starts, goals, guarded, moves, single, bounded⟩
    · rintro ⟨starts, goals, guarded, moves, single, bounded⟩
      exact ⟨⟨⟨single, bounded⟩, ⟨starts, goals⟩, guarded⟩, moves⟩

theorem routeClauses_block (contract : AtMostContract lib.encodeAtMostK)
    (prepared : e.Prepared L hi) :
    Block hi (e.routeClauses lib hi).2 (e.routeClauses lib hi).1 (e.Routes L) :=
  (routeClauses_obeys contract prepared.ready).congr fun _ => prepared.setting.routes_iff.symm

/-! ## `CreateFormula` -/

variable (e lib lit) in
/-- The first call for a delta. -/
theorem createFormula_opening (useAvoid : Bool) (conflicts : Conflicts) :
    let e' := (e.createVariables lib lit).1
    let lit' := (e.createVariables lib lit).2
    (e.createFormula lib true useAvoid lit conflicts).encoder = e' ∧
      (e.createFormula lib true useAvoid lit conflicts).clauses =
        e'.conflictClauses conflicts ++ (e'.routeClauses lib lit').1 ++
          (if useAvoid then e'.createConstAvoid else []) ∧
      (e.createFormula lib true useAvoid lit conflicts).lit = (e'.routeClauses lib lit').2 := by
  obtain ⟨encoder, lines, last⟩ := e.createFormula_lines lib conflicts lit useAvoid
  refine ⟨encoder, ?_, last⟩
  rw [Formula.clauses_eq, lines]
  simp only [List.filterMap_append, filterMap_clause_emitLines, routeClauses, List.append_assoc]

variable (lib lit) in
/-- The first call for a delta without locations to be avoided. -/
theorem createFormula_first (empty : e.inst.avoidLocations = []) (useAvoid : Bool)
    (conflicts : Conflicts) :
    let e' := (e.createVariables lib lit).1
    let lit' := (e.createVariables lib lit).2
    (e.createFormula lib true useAvoid lit conflicts).encoder = e' ∧
      (e.createFormula lib true useAvoid lit conflicts).clauses =
        e'.conflictClauses conflicts ++ (e'.routeClauses lib lit').1 ∧
      (e.createFormula lib true useAvoid lit conflicts).lit = (e'.routeClauses lib lit').2 := by
  have noAvoid : (e.createVariables lib lit).1.createConstAvoid = [] := by
    rw [createConstAvoid, (createVariables_members e lib lit).1, empty]
    rfl
  obtain ⟨encoder, clauses, last⟩ := e.createFormula_opening lib lit useAvoid conflicts
  rw [noAvoid, ite_self, List.append_nil] at clauses
  exact ⟨encoder, clauses, last⟩

variable (e lib lit) in
/-- A call after a conflict. -/
theorem createFormula_again (useAvoid : Bool) (conflicts : Conflicts) :
    (e.createFormula lib false useAvoid lit conflicts).encoder = e ∧
      (e.createFormula lib false useAvoid lit conflicts).clauses = e.conflictClauses conflicts ∧
      (e.createFormula lib false useAvoid lit conflicts).lit = lit := by
  obtain ⟨encoder, lines, last⟩ := e.createFormula_lines_again lib conflicts lit useAvoid
  refine ⟨encoder, ?_, last⟩
  rw [Formula.clauses_eq, lines, filterMap_clause_emitLines]

/-- The formula of an eager encoding means that the agents' routes are apart. -/
theorem createFormula_eager (contract : AtMostContract lib.encodeAtMostK) (poses : task.Poses e)
    (eager : e.config.lazyConst = .eager) (pos : 1 ≤ lit) (useAvoid : Bool) (conflicts : Conflicts) :
    let f := e.createFormula lib true useAvoid lit conflicts
    let hi := (e.createVariables lib lit).2
    f.encoder.Prepared f.encoder.deadline hi ∧
      Block hi f.lit f.clauses fun σ => f.encoder.Routes f.encoder.deadline σ ∧ f.encoder.Apart σ := by
  have prepared := (createVariables_prepared lib lit poses pos).1
  have none : e.inst.avoidLocations = [] := by
    rw [poses.inst]
    exact task.avoidLocations_inst
  obtain ⟨encoder, clauses, last⟩ := createFormula_first lib lit none useAvoid
    conflicts
  have conflictPart : (e.createVariables lib lit).1.conflictClauses conflicts =
      (e.createVariables lib lit).1.conflictClausesEager := by
    rw [conflictClauses, (createVariables_members e lib lit).2.1, eager]
  dsimp only
  rw [clauses, last, encoder, conflictPart, deadline_createVariables]
  refine ⟨prepared, ((routeClauses_block contract prepared).withBase
    (conflictClausesEager_expresses prepared.ready)).of_mem_iff fun c => ?_⟩
  simp only [List.mem_append]
  tauto

end Encoder

end MAPFEncodings

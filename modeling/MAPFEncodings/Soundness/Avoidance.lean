import MAPFEncodings.Completeness.Plans
import MAPFEncodings.Monosat.PassExtraction
import MAPFEncodings.Refinement.OnDemand

/-! # Locations to be avoided

`LoadAgentsData` reads a cell as row and column, and so do the callers of `LoadAvoidData`, but
`CreateConst_Avoid` looks the stored cells up with the two exchanged. It also tests only that an
agent has some variable at the vertex, not that the timestep is in its window, and an empty list
leaves the list of the call before in place. The clauses are the intended ones exactly if these
differences cancel out.
-/

namespace MAPFEncodings

open Cnf PathFinding

/-- Nobody is at a listed cell at its time. -/
def Task.Respects (task : Task) (avoid : List Avoid) (pos : ℕ → ℕ → ℕ) : Prop :=
  ∀ a < task.ags, ∀ s ∈ avoid, ∀ t : ℕ, s.t = t → task.inst.mapAt s.v ≠ some (pos a t)

namespace Encoder

variable {e : Encoder} {σ : Valuation} {avoid : List Avoid} {req : Request} {hi : ℤ}

/-- The same call without locations to be avoided. -/
def unrestricted (e : Encoder) : Encoder := { e with inst := { e.inst with avoidLocations := [] } }

/-- After a call of `LoadAvoidData`. -/
def avoiding (e : Encoder) (avoid : List Avoid) : Encoder :=
  { e with inst := e.inst.loadAvoidData avoid }

/-- A list asks an agent, which has a variable for it, to be away from a vertex. -/
def Listed (e : Encoder) (avoid : List Avoid) (a v : ℕ) (t : ℤ) : Prop :=
  (a < e.agents ∧ (e.atEntry a v).Covers t) ∧ t < e.maxTimestep ∧
    ∃ s ∈ avoid, s.t = t ∧ e.inst.mapAt s.v = some v

/-- `CreateConst_Avoid` computes a literal for an agent, a vertex and a timestep. -/
def Addressed (e : Encoder) (a v : ℕ) (t : ℤ) : Prop :=
  (a < e.agents ∧ (e.atEntry a v).firstVariable ≠ 0) ∧ t < e.maxTimestep ∧
    ∃ s ∈ e.inst.avoidLocations, s.t = t ∧ e.inst.mapAt ⟨s.v.y, s.v.x⟩ = some v

/-- The stored cells, read with their coordinates exchanged, agree with a list. A literal which is
computed outside of a window does no harm if it happens to be the one of a listed variable. -/
structure Matches (e : Encoder) (avoid : List Avoid) : Prop where
  reads : ∀ s ∈ e.inst.avoidLocations, s.t < e.maxTimestep → (e.inst.mapAt ⟨s.v.y, s.v.x⟩).isSome
  addressed : ∀ a v t, e.Addressed a v t → e.Listed avoid a v t ∨
    (¬(e.atEntry a v).Covers t ∧ ∃ a' v' t', e.Listed avoid a' v' t' ∧
      (e.atEntry a v).var t = (e.atEntry a' v').var t')
  listed : ∀ a v t, e.Listed avoid a v t → e.Addressed a v t ∨
    ∃ a' v' t', (e.Addressed a' v' t' ∧ ¬(e.atEntry a' v').Covers t') ∧
      (e.atEntry a' v').var t' = (e.atEntry a v).var t

/-- A list is enforced exactly by a formula with given models, from which plans are read. -/
structure EnforcesExactly (e : Encoder) (avoid : List Avoid) (model : Valuation → Prop)
    (plan : Valuation → Plan) : Prop where
  /-- Every stored cell which is looked up is free. -/
  reads : ∀ s ∈ e.inst.avoidLocations, s.t < e.maxTimestep → (e.inst.mapAt ⟨s.v.y, s.v.x⟩).isSome
  /-- The clauses are the unit clauses for the list, and no others. -/
  units : ∀ c, c ∈ e.createConstAvoid ↔
    ∃ a v t, e.Listed avoid a v t ∧ c = [-(e.atEntry a v).var t]
  /-- No plan shows an agent at a listed cell at its time. -/
  keeps : ∀ σ, model σ → ∀ a v, ∀ t : ℕ, e.Listed avoid a v t → (plan σ).entry a t ≠ some v
  /-- Every plan which respects the list is represented by a model. -/
  remains : ∀ (task : Task) (pos : ℕ → ℕ → ℕ), task.Poses e.unrestricted →
    task.Valid e.config.movement pos → (task.cost pos e.config.costFunction : ℤ) ≤
      task.lowerBound e.config.costFunction + e.delta → task.Respects avoid pos →
        ∃ σ, model σ ∧ e.Represents σ e.deadline pos

/-! ## The clauses -/

theorem mem_createConstAvoid_iff {c : Clause} : c ∈ e.createConstAvoid ↔
    ∃ a v t, e.Addressed a v t ∧ c = [-(e.atEntry a v).var t] := by
  unfold createConstAvoid
  rw [List.mem_flatMap]
  constructor
  · rintro ⟨s, stored, inside⟩
    split at inside
    · next early =>
      split at inside
      · cases inside
      · next v cell =>
        obtain ⟨a, boundA, emitted⟩ := List.mem_flatMap.mp inside
        split at emitted
        · cases emitted
        · next present =>
          exact ⟨a, v, s.t, ⟨⟨List.mem_range.mp boundA, present⟩, early, s, stored, rfl, cell⟩,
            List.mem_singleton.mp emitted⟩
    · cases inside
  · rintro ⟨a, v, t, ⟨⟨boundA, present⟩, early, s, stored, rfl, cell⟩, rfl⟩
    refine ⟨s, stored, ?_⟩
    rw [if_pos early]
    simp only [cell]
    refine List.mem_flatMap.mpr ⟨a, List.mem_range.mpr boundA, ?_⟩
    rw [if_neg present]
    exact List.mem_singleton_self _

/-- A listed vertex is one of the map. -/
theorem Listed.cell (windows : e.Windows) {a v : ℕ} {t : ℤ} (listed : e.Listed avoid a v t) :
    v < e.vertices := by
  obtain ⟨-, -, s, -, -, cell⟩ := listed
  exact (windows.numbered.lt_of_mapAt cell).trans_eq windows.vertices.symm

theorem Addressed.cell (windows : e.Windows) {a v : ℕ} {t : ℤ} (addressed : e.Addressed a v t) :
    v < e.vertices := by
  obtain ⟨-, -, s, -, -, cell⟩ := addressed
  exact (windows.numbered.lt_of_mapAt cell).trans_eq windows.vertices.symm

/-- The unit clauses are the ones for a list exactly if the list matches the stored cells. -/
theorem units_iff {lo last : ℤ} (windows : e.Windows) (numbers : Allocates e.HasAt lo last) :
    e.Matches avoid ↔
      (∀ s ∈ e.inst.avoidLocations, s.t < e.maxTimestep →
        (e.inst.mapAt ⟨s.v.y, s.v.x⟩).isSome) ∧
      ∀ c, c ∈ e.createConstAvoid ↔
        ∃ a v t, e.Listed avoid a v t ∧ c = [-(e.atEntry a v).var t] := by
  have number {a v a' v' : ℕ} {t t' : ℤ}
      (same : [-(e.atEntry a v).var t] = [-(e.atEntry a' v').var t']) :
      (e.atEntry a v).var t = (e.atEntry a' v').var t' :=
    neg_inj.mp (List.singleton_inj.mp same)
  -- two positions which both have variables are told apart by their numbers
  have apart {a v a' v' : ℕ} {t t' : ℤ} (boundA : a < e.agents) (boundV : v < e.vertices)
      (covers : (e.atEntry a v).Covers t) (boundA' : a' < e.agents) (boundV' : v' < e.vertices)
      (covers' : (e.atEntry a' v').Covers t')
      (same : (e.atEntry a v).var t = (e.atEntry a' v').var t') : a = a' ∧ v = v' ∧ t = t' := by
    have keys := @numbers.inj (a, v, t) (a', v', t') _ ⟨boundA, boundV, covers, same⟩
      ⟨boundA', boundV', covers', rfl⟩
    simpa using keys
  constructor
  · intro agree
    refine ⟨agree.reads, fun c => mem_createConstAvoid_iff.trans ⟨?_, ?_⟩⟩
    · rintro ⟨a, v, t, addressed, rfl⟩
      rcases agree.addressed a v t addressed with listed | ⟨-, a', v', t', listed, same⟩
      · exact ⟨a, v, t, listed, rfl⟩
      · exact ⟨a', v', t', listed, by rw [same]⟩
    · rintro ⟨a, v, t, listed, rfl⟩
      rcases agree.listed a v t listed with addressed | ⟨a', v', t', ⟨addressed, -⟩, same⟩
      · exact ⟨a, v, t, addressed, rfl⟩
      · exact ⟨a', v', t', addressed, by rw [same]⟩
  · rintro ⟨reads, units⟩
    refine ⟨reads, fun a v t addressed => ?_, fun a v t listed => ?_⟩
    · obtain ⟨a', v', t', listed, same⟩ :=
        (units _).mp (mem_createConstAvoid_iff.mpr ⟨a, v, t, addressed, rfl⟩)
      by_cases covers : (e.atEntry a v).Covers t
      · obtain ⟨rfl, rfl, rfl⟩ := apart addressed.1.1 (addressed.cell windows) covers listed.1.1
          (listed.cell windows) listed.1.2 (number same)
        exact .inl listed
      · exact .inr ⟨covers, a', v', t', listed, number same⟩
    · obtain ⟨a', v', t', addressed, same⟩ :=
        mem_createConstAvoid_iff.mp ((units _).mpr ⟨a, v, t, listed, rfl⟩)
      by_cases covers : (e.atEntry a' v').Covers t'
      · obtain ⟨rfl, rfl, rfl⟩ := apart listed.1.1 (listed.cell windows) listed.1.2 addressed.1.1
          (addressed.cell windows) covers (number same)
        exact .inl addressed
      · exact .inr ⟨a', v', t', ⟨addressed, covers⟩, (number same).symm⟩

/-- A model of the unit clauses keeps the agents off the listed positions. -/
theorem not_at_of_units (ready : e.Ready hi)
    (units : ∀ c, c ∈ e.createConstAvoid ↔
      ∃ a v t, e.Listed avoid a v t ∧ c = [-(e.atEntry a v).var t])
    (models : Models σ e.createConstAvoid) {a v : ℕ} {t : ℤ} (listed : e.Listed avoid a v t) :
    ¬e.At σ a v t := by
  have isVar := ready.atReady.isVar a listed.1.1 v (listed.cell ready.windows) t listed.1.2
  have holds := models _ ((units _).mpr ⟨a, v, t, listed, rfl⟩)
  exact fun here => (holds_unit_neg isVar.1).mp holds here.2

/-- The unit clauses hold for a plan which respects the list. -/
theorem Represents.units_hold {task : Task} {L : ℕ → ℕ} {pos : ℕ → ℕ → ℕ}
    (represents : e.Represents σ L pos) (ready : e.Ready hi) (poses : task.Poses e.unrestricted)
    (units : ∀ c, c ∈ e.createConstAvoid ↔
      ∃ a v t, e.Listed avoid a v t ∧ c = [-(e.atEntry a v).var t])
    (respects : task.Respects avoid pos) : Models σ e.createConstAvoid := by
  intro c member
  obtain ⟨a, v, t, listed, rfl⟩ := (units c).mp member
  have cell := listed.cell ready.windows
  have isVar := ready.atReady.isVar a listed.1.1 v cell t listed.1.2
  refine (holds_unit_neg isVar.1).mpr fun true_ => ?_
  obtain ⟨n, rfl, -, here⟩ :=
    (represents.positions a listed.1.1 v cell t).mp ⟨listed.1.2, true_⟩
  obtain ⟨⟨boundA, -⟩, -, s, member, time, at_⟩ := listed
  have same : task.inst.mapAt s.v = some v := by
    rw [← poses.inst]
    exact at_
  exact respects a (poses.lt_ags boundA) s member n time (by rw [same, here])

/-- A list which is stored, stays the same if the coordinates are exchanged, and has its times in
all the windows of its cells matches. -/
theorem Matches.of_symmetric (stored : e.inst.avoidLocations = avoid)
    (free : ∀ s ∈ avoid, (e.inst.mapAt ⟨s.v.y, s.v.x⟩).isSome)
    (symmetric : ∀ s ∈ avoid, ⟨⟨s.v.y, s.v.x⟩, s.t⟩ ∈ avoid)
    (inside : ∀ s ∈ avoid, ∀ a < e.agents, ∀ v, e.inst.mapAt s.v = some v →
      (e.atEntry a v).firstVariable ≠ 0 → (e.atEntry a v).Covers s.t) : e.Matches avoid where
  reads s member _ := free s (stored ▸ member)
  addressed a v t addressed := by
    obtain ⟨⟨boundA, present⟩, early, s, member, rfl, cell⟩ := addressed
    have mirrored := symmetric s (stored ▸ member)
    exact .inl ⟨⟨boundA, inside _ mirrored a boundA v cell present⟩, early, _, mirrored, rfl, cell⟩
  listed a v t listed := by
    obtain ⟨⟨boundA, covers⟩, early, s, member, rfl, cell⟩ := listed
    exact .inl ⟨⟨boundA, covers.1⟩, early, ⟨⟨s.v.y, s.v.x⟩, s.t⟩, stored ▸ symmetric s member, rfl,
      cell⟩

/-! ## Extraction -/

/-- Before the goal time an agent can move on to a vertex where it has a variable, whether or not
its goal can be reached. -/
theorem exists_covered (poses : req.Poses e) (ready : e.Ready hi) {a v : ℕ} {t : ℤ}
    (boundA : a < e.agents) (boundV : v < e.vertices) (covers : (e.atEntry a v).Covers t)
    (before : t < e.goalTime a) :
    ∃ dir u, e.inst.getNeighbor v dir = some u ∧ (e.atEntry a u).Covers (t + 1) := by
  have windows := ready.windows
  have symm : ∀ v u, e.inst.Adj v u → e.inst.Adj u v := fun _ _ edge => edge.symm
  have bounds := (ready.atReady.covers a boundA v boundV t).mp covers
  have last (u : ℕ) := poses.lastTimestep_eq boundA u
  rw [last] at bounds
  by_cases away : 0 < e.inst.toGoal a v
  · obtain ⟨u, edge, closer⟩ := (poses.toGoal boundA).descend symm away
    obtain ⟨dir, next⟩ := (windows.step_iff boundV).mp (.inr edge)
    have near := (windows.near a boundA v u (.inr edge)).1
    refine ⟨dir, u, next, (ready.atReady.covers a boundA u (windows.neighbor_lt boundV next) _).mpr ?_⟩
    rw [last]
    omega
  · refine ⟨.wait, v, rfl, (ready.atReady.covers a boundA v boundV _).mpr ?_⟩
    rw [last]
    omega

/-- `GetNextVertex` only leads to true positions, and to one for every timestep until the goal
time. -/
theorem follow_getNextVertex (poses : req.Poses e) (ready : e.Ready hi)
    (early : ∀ a < e.agents, e.goalTime a < e.maxTimestep)
    (starts : ∀ a < e.agents, e.At σ a (e.inst.startOf a) 0) (moves : e.Moves σ) {a : ℕ}
    (boundA : a < e.agents) (t : ℕ) :
    (∀ v, follow (fun v t => e.getNextVertex σ a v t) (e.inst.startOf a) t = some v →
      v < e.vertices ∧ e.At σ a v t) ∧
    ((t : ℤ) ≤ e.goalTime a →
      ∃ v, follow (fun v t => e.getNextVertex σ a v t) (e.inst.startOf a) t = some v) := by
  have windows := ready.windows
  induction t with
  | zero =>
    refine ⟨fun v same => ?_, fun _ => ⟨_, rfl⟩⟩
    obtain rfl := Option.some.inj same
    exact ⟨windows.startCell a boundA, starts a boundA⟩
  | succ t ih =>
    obtain ⟨sound, complete⟩ := ih
    constructor
    · intro u reached
      obtain ⟨v, here, chosen⟩ := Option.bind_eq_some_iff.mp reached
      obtain ⟨boundV, atV⟩ := sound v here
      obtain ⟨dir, next, test⟩ := getNextVertex_sound chosen
      refine ⟨windows.neighbor_lt boundV next, ?_⟩
      push_cast at test ⊢
      exact moves.at_of_candidate boundA boundV atV next test
    · intro before
      obtain ⟨v, here⟩ := complete (by push_cast at before; omega)
      obtain ⟨boundV, atV⟩ := sound v here
      obtain ⟨dir, u, next, covers⟩ :=
        exists_covered poses ready boundA boundV atV.1 (by push_cast at before; omega)
      obtain ⟨dir', u', next', test⟩ := moves.exists_candidate ready boundA boundV atV next covers
        (Int.natCast_nonneg t) (by have := early a boundA; push_cast at before; omega)
      obtain ⟨w, chosen⟩ := getNextVertex_complete next' test
      refine ⟨w, ?_⟩
      rw [follow, here]
      exact_mod_cast chosen

/-- A plan read from a model of the unit clauses shows nobody at a listed position. -/
theorem readPlan_keeps (poses : req.Poses e) (ready : e.Ready hi)
    (early : ∀ a < e.agents, e.goalTime a < e.maxTimestep)
    (units : ∀ c, c ∈ e.createConstAvoid ↔
      ∃ a v t, e.Listed avoid a v t ∧ c = [-(e.atEntry a v).var t])
    (starts : ∀ a < e.agents, e.At σ a (e.inst.startOf a) 0) (moves : e.Moves σ)
    (models : Models σ e.createConstAvoid) {a v t : ℕ} (listed : e.Listed avoid a v t) :
    (e.readPlan σ).entry a t ≠ some v := by
  intro shown
  have boundA := listed.1.1
  have inside := listed.2.1
  obtain ⟨sound, complete⟩ := follow_getNextVertex poses ready early starts moves boundA t
  rcases entry_extractPlan boundA (by omega) shown with found | ⟨lost, rfl⟩
  · exact not_at_of_units ready units models listed (sound v found).2
  · -- the goal has variables until the goal time only, and until then no agent gets lost
    have covers := (ready.atReady.covers a boundA _ (ready.windows.goalCell a boundA) t).mp
      listed.1.2
    obtain ⟨v, found⟩ := complete covers.2
    exact absurd (lost.symm.trans found) (by simp)

/-! ## `CreateFormula` -/

section Formula

variable {lib : Externals} {lit : ℤ}

theorem createVariables_unrestricted (e : Encoder) (lib : Externals) (lit : ℤ) :
    e.unrestricted.createVariables lib lit =
      ((e.createVariables lib lit).1.unrestricted, (e.createVariables lib lit).2) := by
  have kind : e.unrestricted.config.variableKind = e.config.variableKind := rfl
  unfold createVariables
  dsimp only
  rw [kind]
  split <;> rfl

theorem allocates_createVariables (e : Encoder) (lib : Externals) (lit : ℤ) :
    ∃ last, Allocates (e.createVariables lib lit).1.HasAt lit last := by
  refine ⟨(e.createAt lib lit e.timesteps).2, ?_⟩
  have positions := allocates_createAt e lib lit e.timesteps
  unfold createVariables
  dsimp only
  split <;> exact positions

theorem unrestricted_poses {task : Task}
    (poses : task.Poses (e.createVariables lib lit).1.unrestricted) : task.Poses e.unrestricted := by
  obtain ⟨inst, -, agents, vertices, -⟩ := createVariables_members e lib lit
  refine ⟨?_, agents.symm.trans poses.agents, vertices.symm.trans poses.vertices⟩
  rw [← poses.inst, unrestricted, unrestricted, inst]

/-- The tables for a task, without the locations to be avoided. -/
theorem createVariables_unrestricted_prepared {task : Task} (pos : 1 ≤ lit)
    (poses : task.Poses (e.createVariables lib lit).1.unrestricted) :
    let e' := (e.createVariables lib lit).1.unrestricted
    e'.Prepared e'.deadline (e.createVariables lib lit).2 := by
  have prepared := (createVariables_prepared lib lit (unrestricted_poses poses) pos).1
  rw [← deadline_createVariables e.unrestricted lib lit, createVariables_unrestricted] at prepared
  exact prepared

/-- The plain formula enforces a list exactly if the list matches the stored cells. -/
theorem createFormula_enforces_iff (contract : AtMostContract lib.encodeAtMostK)
    (poses : req.Poses e) (pos : 1 ≤ lit) {conflicts : Conflicts}
    (recorded : e.config.lazyConst = .lazy → ∀ task : Task, task.Poses e.unrestricted →
      task.Recorded e.deadline conflicts) :
    let f := e.createFormula lib true true lit conflicts
    f.encoder.EnforcesExactly avoid (fun σ => Models σ f.clauses) f.encoder.readPlan ↔
      f.encoder.Matches avoid := by
  intro f
  obtain ⟨encoder, clauses, -⟩ := e.createFormula_opening lib lit true conflicts
  obtain ⟨last, numbers⟩ := allocates_createVariables e lib lit
  have ready := (createVariables_ready lib lit poses pos).1
  obtain ⟨inst, config, agents, vertices, delta⟩ := createVariables_members e lib lit
  have steps := maxTimestep_createVariables e lib lit
  simp only [f, encoder]
  generalize same : (e.createVariables lib lit).1 = e' at *
  constructor
  · exact fun enforces => (units_iff ready.windows numbers).mpr ⟨enforces.reads, enforces.units⟩
  · intro agree
    obtain ⟨reads, units⟩ := (units_iff ready.windows numbers).mp agree
    refine ⟨reads, units, fun σ models a v t listed => ?_,
      fun task plan posesT valid cheap respects => ?_⟩
    · rw [clauses, models_append, models_append] at models
      have obeys := (routeClauses_obeys contract ready).sound models.1.2
      have poses' : req.Poses e' :=
        ⟨by rw [inst, poses.inst], agents.trans poses.agents, vertices.trans poses.vertices⟩
      refine readPlan_keeps poses' ready (fun a boundA => ?_) units obeys.starts obeys.moves models.2
        listed
      exact (poses'.goalTime_bounds (steps.trans (by rw [timesteps, timesteps, inst, agents, delta]))
        boundA).2
    · have prepared := @createVariables_unrestricted_prepared e lib lit task pos (by rwa [same])
      rw [same] at prepared
      have block := (routeClauses_block contract prepared).withBase
        (conflictClausesEager_expresses prepared.ready)
      obtain ⟨σ, models, represents, -⟩ := prepared.exists_model posesT block valid cheap
      rw [models_append] at models
      have shows_ : e'.Represents σ e'.deadline plan :=
        ⟨represents.positions, represents.passes, represents.shifts⟩
      refine ⟨σ, ?_, shows_⟩
      rw [clauses, models_append, models_append]
      refine ⟨⟨fun c member => ?_, models.1⟩, shows_.units_hold ready posesT units respects⟩
      have atDeadline : e'.unrestricted.deadline = e.deadline := by
        rw [← deadline_createVariables e lib lit, same]
        rfl
      refine (conflictClauses_occurs posesT prepared (fun lazily => ?_) member).holds models.2
      rw [atDeadline]
      exact recorded (config ▸ lazily) task (unrestricted_poses (same ▸ posesT))

/-! ## `CreateFormula` for the other solver -/

/-- What `GetNextVertex` finds in a model of the file are true positions. -/
theorem at_of_follow_monosat (ready : e.Ready hi) (kind : e.config.variableKind = .pass) {a : ℕ}
    (boundA : a < e.agents) (start : e.At σ a (e.inst.startOf a) 0) {t v : ℕ}
    (found : follow (fun v t => e.getNextVertexMonosat σ a v t) (e.inst.startOf a) t = some v) :
    v < e.vertices ∧ e.At σ a v t := by
  induction t generalizing v with
  | zero =>
    obtain rfl := Option.some.inj found
    exact ⟨ready.windows.startCell a boundA, start⟩
  | succ t ih =>
    obtain ⟨u, here, chosen⟩ := Option.bind_eq_some_iff.mp found
    obtain ⟨boundU, -⟩ := ih here
    push_cast at chosen ⊢
    obtain ⟨dir, leads, -⟩ :=
      (getNextVertexMonosat_eq_some_iff ready kind boundA boundU).mp chosen
    exact ⟨ready.windows.neighbor_lt boundU leads.1, leads.2.2⟩

/-- The file enforces a list exactly if the list matches the stored cells. The positions which
`NormalizePlan` fills in after a dead end are not read from the model. -/
theorem createFormulaMonosatPass_enforces_iff (contract : AtMostContract lib.encodeAtMostK)
    (poses : req.Poses e) (kind : e.config.variableKind = .pass)
    (parallel : e.config.movement = .parallel) :
    let f := e.createFormulaMonosatPass lib true
    f.encoder.EnforcesExactly avoid (fun σ => SatisfiesLines σ f.lines)
        (fun σ => f.encoder.extractRows fun a v t => f.encoder.getNextVertexMonosat σ a v t) ↔
      f.encoder.Matches avoid := by
  intro f
  obtain ⟨encoder, -, edges, -, holds⟩ :=
    @createFormulaMonosatPass_file e lib kind true
  obtain ⟨last, numbers⟩ := allocates_createVariables e lib 1
  have ready := (createVariables_ready lib 1 poses le_rfl).1
  obtain ⟨inst, config, agents, vertices, delta⟩ := createVariables_members e lib 1
  simp only [f, encoder]
  generalize same : (e.createVariables lib 1).1 = e' at *
  generalize tables : (e.createVariables lib 1).2 = hi at *
  have kind' : e'.config.variableKind = .pass := config ▸ kind
  constructor
  · exact fun enforces => (units_iff ready.windows numbers).mpr ⟨enforces.reads, enforces.units⟩
  · intro agree
    obtain ⟨reads, units⟩ := (units_iff ready.windows numbers).mp agree
    refine ⟨reads, units, fun σ satisfies a v t listed shown => ?_,
      fun task plan posesT valid cheap respects => ?_⟩
    · obtain ⟨⟨graphs, -⟩, models⟩ := (holds σ _).mp satisfies
      have boundA := listed.1.1
      have inside := listed.2.1
      have start : e'.At σ a (e'.inst.startOf a) 0 := by
        refine at_start_of_passGraph ready kind' boundA (by have := ready.pos; omega)
          (fun m n x => (edges a m n x).trans ⟨?_, fun member => ⟨a, boundA, member⟩⟩)
          (graphs a boundA)
        rintro ⟨b, -, member⟩
        obtain rfl := graph_of_mem_passGraph member
        exact member
      rw [entry_extractRows boundA (by omega)] at shown
      exact not_at_of_units ready units models listed
        (at_of_follow_monosat ready kind' boundA start shown).2
    · have before := unrestricted_poses (same ▸ posesT)
      have valid' : task.Valid .parallel plan := by rwa [config, parallel] at valid
      obtain ⟨σ, satisfies, represents⟩ := monosatPass_represents contract before kind parallel true
        valid' (by rwa [config, delta] at cheap)
      obtain ⟨-, -, edges', -, holds'⟩ :=
        @createFormulaMonosatPass_file e.unrestricted lib kind true
      rw [createVariables_unrestricted, same, tables] at represents edges' holds'
      have shows_ : e'.Represents σ e'.deadline plan :=
        ⟨represents.positions, represents.passes, represents.shifts⟩
      obtain ⟨⟨graphs, models⟩, -⟩ := (holds' σ _).mp satisfies
      have drawn (g m n : ℕ) (x : ℤ) :
          Line.edge g m n x ∈ (e.unrestricted.createFormulaMonosatPass lib true).lines ↔
            Line.edge g m n x ∈ (e.createFormulaMonosatPass lib true).lines :=
        (edges' g m n x).trans (edges g m n x).symm
      exact ⟨σ, (holds σ _).mpr ⟨⟨fun a boundA line member =>
        (line.holds_congr drawn).mp (graphs a boundA line member), models⟩,
          shows_.units_hold ready posesT units respects⟩, shows_⟩

end Formula

end Encoder

section

variable {lib : Externals} {e : Encoder} {req : Request} {lit : ℤ} {conflicts : Conflicts}

/-- The encodings with variables for positions enforce the list passed to the last call of
`LoadAvoidData` exactly if it matches the stored cells, whatever was loaded before. -/
theorem avoid_exact_iff (contract : AtMostContract lib.encodeAtMostK) (poses : req.Poses e)
    (avoid : List Avoid) (pos : 1 ≤ lit) (recorded : e.config.lazyConst = .lazy →
      ∀ task : Task, task.Poses e.unrestricted → task.Recorded e.deadline conflicts) :
    let f := (e.avoiding avoid).createFormula lib true true lit conflicts
    let o := (e.avoiding avoid).createFormulaMonosatPass lib true
    (f.encoder.EnforcesExactly avoid (fun σ => Models σ f.clauses) f.encoder.readPlan ↔
      f.encoder.Matches avoid) ∧
    (e.config.variableKind = .pass → e.config.movement = .parallel →
      (o.encoder.EnforcesExactly avoid (fun σ => SatisfiesLines σ o.lines)
          (fun σ => o.encoder.extractRows fun a v t => o.encoder.getNextVertexMonosat σ a v t) ↔
        o.encoder.Matches avoid)) := by
  have same : (e.avoiding avoid).unrestricted = e.unrestricted := by
    unfold Encoder.unrestricted Encoder.avoiding Instance.loadAvoidData
    split <;> rfl
  have poses' : req.Poses (e.avoiding avoid) :=
    ⟨(congrArg Encoder.inst same).trans poses.inst, poses.agents, poses.vertices⟩
  have deadline : (e.avoiding avoid).deadline = e.deadline := by
    change (e.avoiding avoid).unrestricted.deadline = e.unrestricted.deadline
    rw [same]
  refine ⟨Encoder.createFormula_enforces_iff contract poses' pos fun lazily task posesT => ?_,
    fun kind parallel => Encoder.createFormulaMonosatPass_enforces_iff contract poses' kind parallel⟩
  rw [deadline]
  exact recorded lazily task (same ▸ posesT)

/-- Agent 0 is to be away from its goal at time 1, but agent 1 is forced away from its start. -/
theorem avoid_not_exact_rows :
    let avoid : List Avoid := [⟨⟨0, 1⟩, 1⟩]
    let f := ((Encoder.rows ⟨.at_, .mks, .parallel, .eager, .allow⟩ 1).avoiding avoid).createFormula
      .binomial true true 1 ⟨[], [], []⟩
    ¬f.encoder.EnforcesExactly avoid (fun σ => Models σ f.clauses) f.encoder.readPlan := by
  intro avoid f enforces
  obtain ⟨a, v, t, listed, same⟩ := (enforces.units [-6]).mp (by decide)
  obtain ⟨⟨boundA, covers⟩, -, s, member, rfl, cell⟩ := listed
  obtain rfl := List.mem_singleton.mp member
  obtain rfl : v = 1 := Option.some.inj (cell.symm.trans (by decide))
  have number : ∀ a < 2, (f.encoder.atEntry a 1).Covers 1 → (f.encoder.atEntry a 1).var 1 ≠ 6 := by
    decide
  exact number a boundA covers (neg_inj.mp (List.singleton_inj.mp same)).symm

theorem avoid_exact_iff_rows :
    let avoid : List Avoid := [⟨⟨0, 0⟩, 1⟩]
    let e := (Encoder.rows ⟨.pass, .soc, .parallel, .eager, .allow⟩ 1).avoiding avoid
    let f := e.createFormula .binomial true true 1 ⟨[], [], []⟩
    let o := e.createFormulaMonosatPass .binomial true
    f.encoder.EnforcesExactly avoid (fun σ => Models σ f.clauses) f.encoder.readPlan ∧
      o.encoder.EnforcesExactly avoid (fun σ => SatisfiesLines σ o.lines)
        (fun σ => o.encoder.extractRows fun a v t => o.encoder.getNextVertexMonosat σ a v t) := by
  intro avoid e f o
  obtain ⟨plain, monosat⟩ := @avoid_exact_iff .binomial
    (Encoder.rows ⟨.pass, .soc, .parallel, .eager, .allow⟩ 1) Task.rows.request 1 ⟨[], [], []⟩
    binomialAtMost_contract (Task.rows_poses _ 1).request avoid le_rfl (fun lazily => by cases lazily)
  have inside : ∀ a < 2, (f.encoder.atEntry a 0).firstVariable ≠ 0 →
      (f.encoder.atEntry a 0).Covers 1 := by decide
  have inside' : ∀ a < 2, (o.encoder.atEntry a 0).firstVariable ≠ 0 →
      (o.encoder.atEntry a 0).Covers 1 := by decide
  have first : ∀ v, e.inst.mapAt ⟨0, 0⟩ = some v → v = 0 := fun v cell =>
    Option.some.inj (cell.symm.trans (by decide))
  constructor
  · refine plain.mpr (.of_symmetric rfl (by decide) (by decide) fun s member a boundA v cell => ?_)
    obtain rfl := List.mem_singleton.mp member
    obtain rfl := first v cell
    exact inside a boundA
  · refine (monosat rfl rfl).mpr (.of_symmetric rfl (by decide) (by decide)
      fun s member a boundA v cell => ?_)
    obtain rfl := List.mem_singleton.mp member
    obtain rfl := first v cell
    exact inside' a boundA

end

end MAPFEncodings

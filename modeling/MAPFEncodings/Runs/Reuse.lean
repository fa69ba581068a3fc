import MAPFEncodings.Refinement.Roaming
import MAPFEncodings.Runs.Independence
import MAPFEncodings.Runs.Unreachable

/-! # What a used object holds

For every request, with or without locations to avoid, and whether or not the goals can be reached,
the solver holds the formula which a new object builds for the delta, up to an offset. There are two
exceptions. `CreateConst_Avoid` computes a number without looking at the window of the agent, and
before the window it may compute one that is no variable. And `NormalizePlan` may lengthen rows, so
that the clauses on demand are about entries which nobody has extracted.
-/

namespace MAPFEncodings

open Cnf PathFinding

namespace Encoder

variable {req : Request} {e e' : Encoder} {lib lib' : Externals} {off lit : ℤ}

/-! ## Formulas with locations to avoid -/

/-- `CreateConst_Avoid` finds a vertex for every location which it looks up, and the time of the
location is not before the windows of the agents there. -/
def FindsAvoided (e : Encoder) : Prop := ∀ s ∈ e.inst.avoidLocations, s.t < e.timesteps →
  ∃ v, e.inst.mapAt ⟨s.v.y, s.v.x⟩ = some v ∧ ∀ a < e.agents,
    e.inst.firstTimestep a v ≤ e.lastTimestep a v e.timesteps → e.inst.firstTimestep a v ≤ s.t

/-- A number which is computed for an entry, from its first timestep on. -/
theorem var_eq_add (x : TEGAgent) (s t : ℤ) : x.var t = x.var s + (t - s) := by
  unfold TEGAgent.var
  ring

/-- Where `CreateConst_Avoid` computes a number, the window has begun. -/
theorem FindsAvoided.begun (finds : e.FindsAvoided) (poses : req.Poses e) (pos : 1 ≤ lit) {a v : ℕ}
    {t : ℤ} (addressed : (e.createVariables lib lit).1.Addressed a v t) :
    (a < e.agents ∧ v < e.vertices) ∧
      ((e.createVariables lib lit).1.atEntry a v).Covers (e.inst.firstTimestep a v) ∧
        e.inst.firstTimestep a v ≤ t := by
  have ready := (createVariables_ready lib lit poses pos).1
  obtain ⟨inst, config, agents, vertices, delta⟩ := createVariables_members e lib lit
  have steps := maxTimestep_createVariables e lib lit
  have cell := addressed.cell ready.windows
  obtain ⟨⟨bound, present⟩, early, s, stored, rfl, looked⟩ := addressed
  have covers := ready.atReady.covers a bound v cell (e.inst.firstTimestep a v)
  rw [steps, lastTimestep, inst, config, delta] at covers
  rw [inst] at stored looked
  rw [steps] at early
  rw [agents] at bound
  rw [vertices] at cell
  have begins := le_of_present_createVariables bound cell present
  obtain ⟨v', same, inTime⟩ := finds s stored early
  obtain rfl := Option.some.inj (looked.symm.trans same)
  exact ⟨⟨bound, cell⟩, covers.mpr ⟨le_rfl, begins⟩, inTime a bound begins⟩

theorem FindsAvoided.congr (finds : e'.FindsAvoided) (alike : e.Alike e') : e.FindsAvoided := by
  cases e
  cases e'
  obtain ⟨rfl, rfl, rfl, rfl, rfl⟩ := alike
  exact finds

/-- The numbers which `CreateConst_Avoid` computes are at least the first free one. -/
theorem FindsAvoided.le_var (finds : e.FindsAvoided) (poses : req.Poses e) (pos : 1 ≤ lit)
    {a v : ℕ} {t : ℤ} (addressed : (e.createVariables lib lit).1.Addressed a v t) :
    lit ≤ ((e.createVariables lib lit).1.atEntry a v).var t := by
  obtain ⟨-, -, -, vertices, -⟩ := createVariables_members e lib lit
  obtain ⟨⟨-, cell⟩, covers, begun⟩ := finds.begun poses pos addressed
  have first : lit ≤ ((e.createVariables lib lit).1.atEntry a v).var (e.inst.firstTimestep a v) :=
    ((layout_draws e lib pos).1.allocates.bounds (k := (a, v, e.inst.firstTimestep a v))
      ⟨addressed.1.1, cell.trans_eq vertices.symm, covers, rfl⟩).1
  rw [var_eq_add _ (e.inst.firstTimestep a v)]
  omega

/-- The numbers which `CreateConst_Avoid` computes differ by the offset. -/
theorem FindsAvoided.moved (finds : e.FindsAvoided) (finds' : e'.FindsAvoided)
    (poses : req.Poses e) (poses' : req.Poses e') (alike : e.Alike e') (nonneg : 0 ≤ off)
    (pos : 1 ≤ lit) {a v : ℕ} {t : ℤ} :
    ((e.createVariables lib (lit + off)).1.Addressed a v t ↔
      (e'.createVariables lib' lit).1.Addressed a v t) ∧
    ((e'.createVariables lib' lit).1.Addressed a v t →
      ((e.createVariables lib (lit + off)).1.atEntry a v).var t =
        ((e'.createVariables lib' lit).1.atEntry a v).var t + off) := by
  obtain ⟨entries, -⟩ := @createVariables_moved e e' lib lib' off lit alike nonneg pos
  have made := @Alike.made e e' lib lib' alike (lit + off) lit
  have steps : (e.createVariables lib (lit + off)).1.maxTimestep =
      (e'.createVariables lib' lit).1.maxTimestep := by
    rw [maxTimestep_createVariables, maxTimestep_createVariables, timesteps, timesteps, alike.inst,
      alike.agents, alike.delta]
  refine ⟨⟨fun addressed => ?_, fun addressed => ?_⟩, fun addressed => ?_⟩
  · obtain ⟨-, covers, -⟩ := finds.begun poses (by omega) addressed
    obtain ⟨⟨bound, -⟩, early, stored⟩ := addressed
    have present := ((entries a v _).1.mp covers).1
    exact ⟨⟨made.agents ▸ bound, present⟩, steps ▸ early, made.inst ▸ stored⟩
  · obtain ⟨-, covers, -⟩ := finds'.begun poses' pos addressed
    obtain ⟨⟨bound, -⟩, early, stored⟩ := addressed
    have present := ((entries a v _).1.mpr covers).1
    exact ⟨⟨made.agents ▸ bound, present⟩, steps ▸ early, made.inst ▸ stored⟩
  · obtain ⟨-, covers, -⟩ := finds'.begun poses' pos addressed
    have first := (entries a v _).2 covers
    rw [var_eq_add _ (e'.inst.firstTimestep a v), first,
      var_eq_add ((e'.createVariables lib' lit).1.atEntry a v) (e'.inst.firstTimestep a v) t]
    ring

/-- The clauses of `CreateConst_Avoid` are the same up to the offset. -/
theorem createConstAvoid_moved (poses : req.Poses e) (poses' : req.Poses e') (alike : e.Alike e')
    (nonneg : 0 ≤ off) (pos : 1 ≤ lit) (finds : e'.FindsAvoided) (c : Clause) :
    c ∈ (e.createVariables lib (lit + off)).1.createConstAvoid.map (shiftClause off) ↔
      c ∈ (e'.createVariables lib' lit).1.createConstAvoid := by
  have moved {a v : ℕ} {t : ℤ} := @FindsAvoided.moved req e e' lib lib' off lit
    (finds.congr alike) finds poses poses' alike nonneg pos a v t
  have shifted {a v : ℕ} {t : ℤ}
      (addressed : (e'.createVariables lib' lit).1.Addressed a v t) :
      shiftClause off [-((e.createVariables lib (lit + off)).1.atEntry a v).var t] =
        [-((e'.createVariables lib' lit).1.atEntry a v).var t] := by
    have positive := finds.le_var poses' pos addressed
    rw [moved.2 addressed, shiftClause, List.map_singleton, shiftLit, if_neg (by omega)]
    congr 1
    ring
  rw [List.mem_map, mem_createConstAvoid_iff]
  constructor
  · rintro ⟨d, member, rfl⟩
    obtain ⟨a, v, t, addressed, rfl⟩ := mem_createConstAvoid_iff.mp member
    exact ⟨a, v, t, moved.1.mp addressed, shifted (moved.1.mp addressed)⟩
  · rintro ⟨a, v, t, addressed, rfl⟩
    exact ⟨_, mem_createConstAvoid_iff.mpr ⟨a, v, t, moved.1.mpr addressed, rfl⟩, shifted addressed⟩

/-! ## The other sections -/

/-- The conflict clauses are one section of the eager formula without locations to avoid. -/
theorem mem_conflictClausesEager_iff (conflicts : Conflicts) {c : Clause} :
    c ∈ (e.createVariables lib lit).1.conflictClausesEager ↔
      (ClauseKind.conflict, c) ∈ (e.eager.createFormula lib true false lit conflicts).emitted := by
  obtain ⟨-, lines, -⟩ := e.eager.createFormula_lines lib conflicts lit false
  rw [Formula.mem_emitted_iff, lines, createVariables_eager]
  simp only [List.mem_append, mem_emitLines_iff, reduceCtorEq, false_and, or_false, true_and,
    Bool.false_eq_true, if_false, List.not_mem_nil]
  rfl

/-- The clauses besides the conflict clauses are the sections of other kinds. -/
theorem mem_routeClauses_iff (useAvoid : Bool) (conflicts : Conflicts) {c : Clause} :
    c ∈ ((e.createVariables lib lit).1.routeClauses lib (e.createVariables lib lit).2).1 ↔
      ∃ kind, kind ≠ ClauseKind.conflict ∧
        (kind, c) ∈ (e.createFormula lib true useAvoid lit conflicts).emitted := by
  obtain ⟨-, lines, -⟩ := e.createFormula_lines lib conflicts lit useAvoid
  simp only [Formula.mem_emitted_iff, lines, routeClauses, List.mem_append, mem_emitLines_iff]
  constructor
  · rintro (((unit | dupli) | move) | soc)
    · exact ⟨.unit, by decide, by simp [unit]⟩
    · exact ⟨.dupli, by decide, by simp [dupli]⟩
    · exact ⟨.move, by decide, by simp [move]⟩
    · exact ⟨.soc, by decide, by simp [soc]⟩
  · rintro ⟨kind, other, emitted⟩
    tauto

theorem mem_routeClauses_eager_iff (useAvoid : Bool) (conflicts : Conflicts) {c : Clause} :
    c ∈ ((e.createVariables lib lit).1.routeClauses lib (e.createVariables lib lit).2).1 ↔
      ∃ kind, kind ≠ ClauseKind.conflict ∧
        (kind, c) ∈ (e.eager.createFormula lib true useAvoid lit conflicts).emitted := by
  rw [← mem_routeClauses_iff, createVariables_eager]
  rfl

/-- Conflict clauses and the other clauses are the same up to the offset. -/
theorem sections_moved (poses : req.Poses e) (poses' : req.Poses e') (alike : e.Alike e')
    (consecutive : Consecutive lib.encodeAtMostK) (commutes : Commutes lib.encodeAtMostK)
    (encode : lib'.encodeAtMostK = lib.encodeAtMostK) (nonneg : 0 ≤ off) (pos : 1 ≤ lit)
    (c : Clause) :
    (c ∈ (e.createVariables lib (lit + off)).1.conflictClausesEager.map (shiftClause off) ↔
      c ∈ (e'.createVariables lib' lit).1.conflictClausesEager) ∧
    (c ∈ ((e.createVariables lib (lit + off)).1.routeClauses lib
        (e.createVariables lib (lit + off)).2).1.map (shiftClause off) ↔
      c ∈ ((e'.createVariables lib' lit).1.routeClauses lib' (e'.createVariables lib' lit).2).1) := by
  have eagerAlike : e.eager.Alike e'.eager := ⟨alike.inst,
    congrArg (fun c : Config => { c with lazyConst := .eager }) alike.config, alike.agents,
    alike.vertices, alike.delta⟩
  have moved (kind : ClauseKind) := @createFormula_moved req e.eager e'.eager lib lib' off lit
    ⟨poses.inst, poses.agents, poses.vertices⟩ ⟨poses'.inst, poses'.agents, poses'.vertices⟩
    eagerAlike consecutive commutes encode rfl false nofun nonneg pos ⟨[], [], []⟩ ⟨[], [], []⟩ kind c
  simp only [List.mem_map, mem_conflictClausesEager_iff ⟨[], [], []⟩,
    mem_routeClauses_eager_iff false ⟨[], [], []⟩, ← moved, true_and]
  constructor
  · rintro ⟨d, ⟨kind, other, emitted⟩, shifted⟩
    exact ⟨kind, other, d, emitted, shifted⟩
  · rintro ⟨kind, other, d, emitted, shifted⟩
    exact ⟨d, ⟨kind, other, emitted⟩, shifted⟩

end Encoder

namespace Settings

/-- Different agents have different goals. -/
def DistinctGoals (set : Settings) : Prop :=
  ∀ a < set.ags, ∀ b < set.ags, a ≠ b → set.inst.goalOf a ≠ set.inst.goalOf b

/-- Where the sum of costs is limited for several agents, some of which cannot reach their goals, the
lower bound of the makespan is at least two. -/
def RowsSuffice (set : Settings) : Prop := set.config.costFunction = .soc → 2 ≤ set.ags →
  (∃ a < set.ags, set.inst.CutOff a) → 2 ≤ set.inst.getMksLB set.ags

end Settings

namespace ISolver

variable {req : Request} {lib lib' : Externals} {set : Settings} {old b b' s : ISolver}
  {conflicts : Conflicts}

/-! ## Conflicts -/

namespace Opens

variable (opens : Opens set b) (sets : req.Sets set)
include opens sets

/-- Recorded conflicts name existing variables, also those of agents which cannot reach their
goals. -/
theorem names_of_found (contract : AtMostContract lib.encodeAtMostK) (goals : set.DistinctGoals)
    (suffice : set.RowsSuffice) (found : Found lib set b conflicts) :
    (b.formula lib set).encoder.Names conflicts := by
  obtain ⟨σ, models, rfl⟩ := found
  have poses := opens.formula_poses sets lib
  have ready := opens.ready sets lib
  have steps := opens.steps lib
  obtain ⟨inst, config, agents, -, -⟩ := opens.members lib
  rw [(opens.formula_eq lib).2.1, models_append, models_append] at models
  have obeys := (Encoder.routeClauses_obeys contract ready).sound models.1.2
  refine obeys.names poses ready steps ?_ ?_ _
  · unfold Encoder.DistinctGoals
    rw [inst, agents]
    exact goals
  · rw [agents]
    rintro many soc ⟨a, bound, unreached⟩
    have long := suffice (config ▸ soc) many ⟨a, agents ▸ bound, fun path => ?_⟩
    · rw [steps, Encoder.timesteps, inst, agents]
      omega
    · rw [← inst] at path
      exact not_le.mpr unreached ((poses.fromStart bound).nonneg_iff.mpr path)

omit sets in
/-- The tables of a larger delta. -/
theorem widens (opens' : Opens set b') (le : b.encoder.delta ≤ b'.encoder.delta) :
    (b.formula lib set).encoder.Widens (b'.formula lib set).encoder := by
  obtain ⟨inst, config, agents, vertices, delta⟩ := opens.members lib
  obtain ⟨inst', config', agents', vertices', delta'⟩ := opens'.members lib
  refine ⟨inst'.trans inst.symm, config'.trans config.symm, agents'.trans agents.symm,
    vertices'.trans vertices.symm, by rwa [delta, delta'], ?_⟩
  rw [opens.steps lib, opens'.steps lib, Encoder.timesteps, Encoder.timesteps, inst, inst', agents,
    agents', delta, delta']
  omega

/-- So do the conflicts which are present when a delta is opened. -/
theorem names_of_inherits (contract : AtMostContract lib.encodeAtMostK) (goals : set.DistinctGoals)
    (suffice : set.RowsSuffice) (inherits : Inherits lib set b) :
    (b.formula lib set).encoder.Names b.conflicts := by
  rcases inherits with empty | ⟨b', opens', smaller, found⟩
  · rw [empty]
    exact ⟨by simp, by simp, by simp⟩
  · exact (opens'.widens opens smaller.le).names (opens'.ready sets lib) (opens.ready sets lib)
      (opens'.names_of_found sets contract goals suffice found)

end Opens

/-! ## Clauses -/

/-- The clauses of an encoder besides the conflict clauses between agents. -/
def otherClauses (lib : Externals) (set : Settings) (made : Encoder × ℤ) : List Clause :=
  (made.1.routeClauses lib made.2).1 ++ if set.useAvoid then made.1.createConstAvoid else []

/-- The clauses of the delta which `b` opens, with all conflict clauses. -/
def sections (lib : Externals) (set : Settings) (b : ISolver) : List Clause :=
  (b.encoder.createVariables lib b.nrVars).1.conflictClausesEager ++
    otherClauses lib set (b.encoder.createVariables lib b.nrVars)

/-- What a new object builds. -/
theorem anew_clauses (lib : Externals) (set : Settings) (delta : ℕ) :
    (anew lib set delta).clauses =
      ((set.encoderAt delta).createVariables lib 1).1.conflictClauses ⟨[], [], []⟩ ++
        otherClauses lib set ((set.encoderAt delta).createVariables lib 1) :=
  ((set.encoderAt delta).createFormula_opening lib 1 set.useAvoid ⟨[], [], []⟩).2.1.trans
    (List.append_assoc _ _ _)

theorem anew_eager_clauses (lib : Externals) (set : Settings) (delta : ℕ) :
    (anew lib set.eager delta).clauses =
      ((set.encoderAt delta).createVariables lib 1).1.conflictClausesEager ++
        otherClauses lib set ((set.encoderAt delta).createVariables lib 1) := by
  have clauses := anew_clauses lib set.eager delta
  rw [show set.eager.encoderAt delta = (set.encoderAt delta).eager from rfl,
    Encoder.createVariables_eager] at clauses
  exact clauses

namespace Opens

variable (opens : Opens set b)
include opens

theorem loaded_open : b.loaded lib set =
    (b.encoder.createVariables lib b.nrVars).1.conflictClauses b.conflicts ++
      otherClauses lib set (b.encoder.createVariables lib b.nrVars) := by
  obtain ⟨made, clauses, -⟩ := opens.formula_eq lib
  rw [clauses, made, List.append_assoc]
  rfl

theorem alike_encoderAt : b.encoder.Alike (set.encoderAt b.encoder.delta) :=
  ⟨opens.inst, opens.config, opens.agents, opens.vertices, rfl⟩

section Moved

variable (sets : req.Sets set) (consecutive : Consecutive lib.encodeAtMostK)
  (commutes : Commutes lib.encodeAtMostK) (encode : lib'.encodeAtMostK = lib.encodeAtMostK)
  (finds : set.useAvoid = true → (set.encoderAt b.encoder.delta).FindsAvoided)
include sets consecutive commutes encode finds

/-- The clauses of a delta are the ones of a new object, up to the offset. -/
theorem sections_moved (c : Clause) :
    (c ∈ (b.encoder.createVariables lib b.nrVars).1.conflictClausesEager.map
        (shiftClause (b.nrVars - 1)) ↔
      c ∈ ((set.encoderAt b.encoder.delta).createVariables lib' 1).1.conflictClausesEager) ∧
    (c ∈ (otherClauses lib set (b.encoder.createVariables lib b.nrVars)).map
        (shiftClause (b.nrVars - 1)) ↔
      c ∈ otherClauses lib' set ((set.encoderAt b.encoder.delta).createVariables lib' 1)) := by
  have poses := opens.poses sets
  have poses' := encoderAt_poses sets b.encoder.delta
  have nonneg : 0 ≤ b.nrVars - 1 := sub_nonneg.mpr opens.pos
  have moved := @Encoder.sections_moved req _ _ lib lib' (b.nrVars - 1) 1 poses poses'
    opens.alike_encoderAt consecutive commutes encode nonneg le_rfl c
  have avoid (used : set.useAvoid = true) := @Encoder.createConstAvoid_moved req _ _ lib lib'
    (b.nrVars - 1) 1 poses poses' opens.alike_encoderAt nonneg le_rfl (finds used) c
  rw [add_sub_cancel] at moved avoid
  refine ⟨moved.1, ?_⟩
  rw [otherClauses, otherClauses, List.map_append, List.mem_append, List.mem_append, moved.2]
  apply or_congr_right
  split
  · next used => exact avoid used
  · rfl

theorem sections_anew (c : Clause) : c ∈ (sections lib set b).map (shiftClause (b.nrVars - 1)) ↔
    c ∈ (anew lib' set.eager b.encoder.delta).clauses := by
  have moved := opens.sections_moved sets consecutive commutes encode finds c
  rw [anew_eager_clauses, sections, List.map_append, List.mem_append, List.mem_append, moved.1,
    moved.2]

end Moved

variable (stage : s = b ∨ Resumes lib set b s)
include stage

theorem delta_eq : b.encoder.delta = s.encoder.delta := by
  obtain ⟨-, -, -, encoder, -⟩ := loaded_eq opens stage
  rw [← formula_delta lib set s, encoder, formula_delta]

theorem lit_eq : (s.formula lib set).lit = (b.formula lib set).lit := by
  obtain ⟨-, -, -, -, last⟩ := loaded_eq opens stage
  exact last

/-- With all conflict clauses at once the solver holds these clauses. -/
theorem loaded_of_eager (eager : set.config.lazyConst = .eager) :
    s.loaded lib set = sections lib set b := by
  obtain rfl : s = b := by
    rcases stage with same | resumes
    · exact same
    · exact absurd (eager.symm.trans resumes.lazy) (by decide)
  rw [opens.loaded_open, Encoder.conflictClauses, (Encoder.createVariables_members ..).2.1,
    opens.config, eager]
  rfl

theorem mem_loaded {d : Clause}
    (member : d ∈ otherClauses lib set (b.encoder.createVariables lib b.nrVars)) :
    d ∈ s.loaded lib set := by
  obtain ⟨extra, loaded, -⟩ := loaded_eq opens stage
  rw [loaded, opens.loaded_open]
  exact List.mem_append_left _ (List.mem_append_right _ member)

/-- In any case the solver holds no others. -/
theorem loaded_occurs (sets : req.Sets set) (contract : AtMostContract lib.encodeAtMostK)
    (goals : set.config.lazyConst = .lazy → set.DistinctGoals)
    (suffice : set.config.lazyConst = .lazy → set.RowsSuffice) (inherits : Inherits lib set b)
    {d : Clause} (member : d ∈ s.loaded lib set) : Occurs d (sections lib set b) := by
  cases kind : set.config.lazyConst with
  | eager =>
    rw [opens.loaded_of_eager stage kind] at member
    exact .of_mem member
  | lazy =>
    have made := (opens.formula_eq lib).1
    obtain ⟨extra, loaded, origin, -⟩ := loaded_eq opens stage
    have demanded {conflicts : Conflicts} (names : (b.formula lib set).encoder.Names conflicts)
        (inside : d ∈ (b.formula lib set).encoder.conflictClausesLazy conflicts) :
        Occurs d (sections lib set b) := by
      have occurs := names.occurs (opens.ready sets lib) inside
      rw [made] at occurs
      exact occurs.append_right _
    rw [loaded, List.mem_append, opens.loaded_open, List.mem_append, Encoder.conflictClauses,
      ← made, (opens.members lib).2.1, kind] at member
    obtain (conflict | other) | further := member
    · exact demanded (opens.names_of_inherits sets contract (goals kind) (suffice kind) inherits)
        conflict
    · exact (Occurs.of_mem other).append_left _
    · obtain ⟨conflicts, found, inside⟩ := origin d further
      exact demanded (opens.names_of_found sets contract (goals kind) (suffice kind) found) inside

end Opens

/-! ## Runs -/

end ISolver

/-- The goal of the second agent is to be avoided at the time of its shortest path. -/
def Settings.walled : Settings :=
  { Request.walled.settings ⟨.at_, .soc, .parallel, .lazy, .allow⟩ 0 with
    useAvoid := true
    inst := Request.walled.inst.loadAvoidData [⟨⟨0, 0⟩, 1⟩] }

namespace ISolver

end ISolver

/-- The goal of the agent is to be avoided at time zero, when the agent cannot be there. -/
def Settings.westward : Settings :=
  { Request.westward.settings ⟨.at_, .mks, .parallel, .eager, .allow⟩ 0 with
    useAvoid := true
    inst := Request.westward.inst.loadAvoidData [⟨⟨0, 0⟩, 0⟩] }

def Settings.resting : Settings :=
  Request.resting.settings ⟨.at_, .soc, .parallel, .lazy, .allow⟩ 1

namespace ISolver

variable {task : Task} {lib lib' : Externals} {set : Settings} {old s : ISolver}

/-- In a task every iteration with clauses on demand holds the clauses of that formula besides the
conflict clauses, and otherwise only clauses of it. What is subtracted is the number of variables
which have been used before the delta was opened. -/
theorem loaded_within_anew (sets : task.Sets set) (contract : AtMostContract lib.encodeAtMostK)
    (consecutive : Consecutive lib.encodeAtMostK) (commutes : Commutes lib.encodeAtMostK)
    (encode : lib'.encodeAtMostK = lib.encodeAtMostK) (goals : task.DistinctGoals)
    (reachable : Reachable lib set Truthful (reenter set old) s) :
    ∃ b, Reachable lib set Truthful (reenter set old) b ∧ 1 ≤ b.nrVars ∧
      b.encoder.delta = s.encoder.delta ∧
      (∀ d ∈ s.loaded lib set, Occurs (shiftClause (b.nrVars - 1) d)
        (anew lib' set.eager s.encoder.delta).clauses) ∧
      ∀ kind c, (kind, c) ∈ (anew lib' set.eager s.encoder.delta).emitted → kind ≠ .conflict →
        ∃ d ∈ s.loaded lib set, shiftClause (b.nrVars - 1) d = c := by
  obtain ⟨b, opened, opens, inherits, stage⟩ := reachable.stage sets.request contract
  have finds : set.useAvoid = true → (set.encoderAt b.encoder.delta).FindsAvoided := by
    intro _ s stored
    have none : (set.encoderAt b.encoder.delta).inst.avoidLocations = [] :=
      (congrArg Instance.avoidLocations sets.inst).trans task.avoidLocations_inst
    rw [none] at stored
    cases stored
  have distinct : set.DistinctGoals := by
    unfold Settings.DistinctGoals
    rw [sets.ags, sets.inst]
    exact goals
  have suffice : set.RowsSuffice := by
    rintro - - ⟨a, bound, cutOff⟩
    rw [sets.ags] at bound
    rw [sets.inst] at cutOff
    exact absurd (task.reachable a bound) cutOff
  refine ⟨b, opened, opens.pos, opens.delta_eq stage, ?_, ?_⟩ <;> rw [← opens.delta_eq stage]
  · intro d member
    obtain ⟨d', shifted, same⟩ := (opens.loaded_occurs stage sets.request contract
      (fun _ => distinct) (fun _ => suffice) inherits member).shiftClause (b.nrVars - 1)
    exact ⟨d', (opens.sections_anew sets.request consecutive commutes encode finds d').mp shifted,
      same⟩
  · intro kind c emitted other
    have route : c ∈ otherClauses lib' set
        ((set.encoderAt b.encoder.delta).createVariables lib' 1) := List.mem_append_left _
      ((Encoder.mem_routeClauses_eager_iff set.useAvoid ⟨[], [], []⟩).mpr ⟨kind, other, emitted⟩)
    rw [← (opens.sections_moved sets.request consecutive commutes encode finds c).2] at route
    obtain ⟨d, inside, shifted⟩ := List.mem_map.mp route
    exact ⟨d, opens.mem_loaded stage inside, shifted⟩

/-- The agents swap in the first delta of a second call, and again in the second one. -/
theorem loaded_within_anew_swapping :
    let set := Settings.swapping ⟨.at_, .mks, .parallel, .lazy, .allow⟩
    let s := (reenter set (timedOut set)).after .binomial set
      [⟨0, 0, 10, fun _ => true, false⟩, ⟨0, 0, 20, fun _ => true, false⟩,
        ⟨0, 0, 10, fun x => x ≠ 7 ∧ x ≠ 9, false⟩]
    (s.encoder.delta = 1 ∧ s.firstTry = false ∧ s.conflicts.swap = [⟨0, 1, some 0, some 1, 1⟩]) ∧
    ∃ b, Reachable .binomial set Truthful (reenter set (timedOut set)) b ∧ 1 ≤ b.nrVars ∧
      b.encoder.delta = s.encoder.delta ∧
      (∀ d ∈ s.loaded .binomial set, Occurs (shiftClause (b.nrVars - 1) d)
        (anew .binomial set.eager s.encoder.delta).clauses) ∧
      ∀ kind c, (kind, c) ∈ (anew .binomial set.eager s.encoder.delta).emitted →
        kind ≠ .conflict → ∃ d ∈ s.loaded .binomial set, shiftClause (b.nrVars - 1) d = c := by
  refine ⟨by decide +kernel, loaded_within_anew (Task.swapping_sets _) binomialAtMost_contract
    binomialAtMost_consecutive binomialAtMost_commutes rfl Task.swapping_distinctGoals
    (Reachable.start.after ?_)⟩
  decide +kernel

end ISolver

end MAPFEncodings

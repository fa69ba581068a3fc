import MAPFEncodings.Proofs.Formula
import MAPFEncodings.Runs.Iteration

/-! # The deltas of a run

Every state at the head of the loop of `Solve` belongs to a delta, which some state has opened. Its
solver holds the clauses of that first call, and what it has got besides are the clauses for
conflicts of plans which were read from models of them. This holds for every request, whether or
not the goals can be reached, and for every solver which has been used before.
-/

namespace MAPFEncodings

open Cnf

/-- The settings of a call of `Solve` for a request. -/
structure Request.Sets (req : Request) (set : Settings) : Prop where
  inst : { set.inst with avoidLocations := [] } = req.inst
  ags : set.ags = req.ags
  backend : set.backend = .sat

namespace ISolver

variable {req : Request} {lib : Externals} {set : Settings} {b s s' : ISolver} {answer : Answer}

/-- Before the first call for a delta. -/
structure Opens (set : Settings) (s : ISolver) : Prop where
  inst : s.encoder.inst = set.inst
  config : s.encoder.config = set.config
  agents : s.encoder.agents = set.ags
  vertices : s.encoder.vertices = set.inst.numberOfVertices
  delta : set.inputDelta ≤ s.encoder.delta
  pos : 1 ≤ s.nrVars
  satSolver : s.satSolver = none
  firstTry : s.firstTry = true

/-- The conflicts of a plan which was read from a model of the clauses of a first call. -/
def Found (lib : Externals) (set : Settings) (b : ISolver) (conflicts : Conflicts) : Prop :=
  ∃ σ, Models σ (b.loaded lib set) ∧ conflicts = generateConflicts set.config.movement
    ((b.formula lib set).encoder.readPlan σ)

/-- The conflicts which are present when a delta is opened stem from smaller ones. -/
def Inherits (lib : Externals) (set : Settings) (s : ISolver) : Prop :=
  s.conflicts = ⟨[], [], []⟩ ∨
    ∃ b, Opens set b ∧ b.encoder.delta < s.encoder.delta ∧ Found lib set b s.conflicts

/-- Before a further call for a delta, which `b` has opened. -/
structure Resumes (lib : Externals) (set : Settings) (b s : ISolver) : Prop where
  encoder : s.encoder = (b.formula lib set).encoder
  nrVars : s.nrVars = (b.formula lib set).lit
  firstTry : s.firstTry = false
  lazy : set.config.lazyConst = .lazy
  found : Found lib set b s.conflicts
  satSolver : ∃ extra, s.satSolver = some (b.loaded lib set ++ extra) ∧ ∀ c ∈ extra,
    ∃ conflicts, Found lib set b conflicts ∧
      c ∈ (b.formula lib set).encoder.conflictClausesLazy conflicts

namespace Opens

variable (opens : Opens set s)
include opens

theorem poses (sets : req.Sets set) : req.Poses s.encoder where
  inst := by rw [opens.inst, sets.inst]
  agents := opens.agents.trans sets.ags
  vertices := by rw [opens.vertices, ← sets.inst]

/-- The first formula of a delta. -/
theorem formula_eq (lib : Externals) :
    (s.formula lib set).encoder = (s.encoder.createVariables lib s.nrVars).1 ∧
      s.loaded lib set = (s.formula lib set).encoder.conflictClauses s.conflicts ++
        ((s.formula lib set).encoder.routeClauses lib
          (s.encoder.createVariables lib s.nrVars).2).1 ++
        (if set.useAvoid then (s.formula lib set).encoder.createConstAvoid else []) ∧
      (s.formula lib set).lit = ((s.formula lib set).encoder.routeClauses lib
        (s.encoder.createVariables lib s.nrVars).2).2 := by
  have first : s.formula lib set =
      s.encoder.createFormula lib true set.useAvoid s.nrVars s.conflicts := by
    rw [formula, opens.firstTry]
  obtain ⟨encoder, clauses, last⟩ :=
    s.encoder.createFormula_opening lib s.nrVars set.useAvoid s.conflicts
  rw [← first] at encoder clauses last
  rw [← encoder] at clauses last
  refine ⟨encoder, ?_, last⟩
  rw [loaded, opens.satSolver, clauses]
  rfl

theorem ready (sets : req.Sets set) (lib : Externals) :
    (s.formula lib set).encoder.Ready (s.encoder.createVariables lib s.nrVars).2 := by
  rw [(opens.formula_eq lib).1]
  exact (Encoder.createVariables_ready lib s.nrVars (opens.poses sets) opens.pos).1

/-- The tables and the remaining variables keep the members of the request. -/
theorem members (lib : Externals) : (s.formula lib set).encoder.inst = set.inst ∧
    (s.formula lib set).encoder.config = set.config ∧
    (s.formula lib set).encoder.agents = set.ags ∧
    (s.formula lib set).encoder.vertices = set.inst.numberOfVertices ∧
    (s.formula lib set).encoder.delta = s.encoder.delta := by
  obtain ⟨inst, config, agents, vertices, delta⟩ :=
    s.encoder.createVariables_members lib s.nrVars
  rw [(opens.formula_eq lib).1, inst, config, agents, vertices, delta]
  exact ⟨opens.inst, opens.config, opens.agents, opens.vertices, rfl⟩

theorem formula_poses (sets : req.Sets set) (lib : Externals) :
    req.Poses (s.formula lib set).encoder := by
  obtain ⟨inst, -, agents, vertices, -⟩ := opens.members lib
  exact ⟨by rw [inst, sets.inst], agents.trans sets.ags, by rw [vertices, ← sets.inst]⟩

theorem steps (lib : Externals) :
    (s.formula lib set).encoder.maxTimestep = (s.formula lib set).encoder.timesteps := by
  obtain ⟨inst, -, agents, -, delta⟩ := s.encoder.createVariables_members lib s.nrVars
  rw [(opens.formula_eq lib).1, Encoder.maxTimestep_createVariables, Encoder.timesteps,
    Encoder.timesteps, inst, agents, delta]

theorem one_le_lit (sets : req.Sets set) (contract : AtMostContract lib.encodeAtMostK) :
    1 ≤ (s.formula lib set).lit := by
  have ready := opens.ready sets lib
  rw [(opens.formula_eq lib).2.2]
  exact ready.pos.trans (Encoder.routeClauses_obeys contract ready).le

end Opens

/-! ## Steps -/

/-- When the solver is called, for the first time or again, it holds the clauses of the first call
and clauses for conflicts. -/
theorem loaded_eq (opens : Opens set b) (stage : s = b ∨ Resumes lib set b s) : ∃ extra,
    s.loaded lib set = b.loaded lib set ++ extra ∧ (∀ c ∈ extra, ∃ conflicts,
      Found lib set b conflicts ∧ c ∈ (b.formula lib set).encoder.conflictClausesLazy conflicts) ∧
    (s.formula lib set).encoder = (b.formula lib set).encoder ∧
    (s.formula lib set).lit = (b.formula lib set).lit := by
  rcases stage with rfl | resumes
  · exact ⟨[], (List.append_nil _).symm, by simp, rfl, rfl⟩
  · obtain ⟨extra, satSolver, origin⟩ := resumes.satSolver
    have configured := (opens.members lib).2.1
    have again : s.formula lib set =
        s.encoder.createFormula lib false set.useAvoid s.nrVars s.conflicts := by
      rw [formula, resumes.firstTry]
    obtain ⟨encoder, clauses, last⟩ :=
      s.encoder.createFormula_again lib s.nrVars set.useAvoid s.conflicts
    rw [← again] at encoder clauses last
    refine ⟨extra ++ (s.formula lib set).clauses, ?_, fun c member => ?_, ?_, ?_⟩
    · rw [loaded, satSolver, Option.getD_some, List.append_assoc]
    · rcases List.mem_append.mp member with old | new
      · exact origin c old
      · rw [clauses, resumes.encoder] at new
        refine ⟨s.conflicts, resumes.found, ?_⟩
        rwa [Encoder.conflictClauses, configured, resumes.lazy] at new
    · rw [encoder, resumes.encoder]
    · rw [last, resumes.nrVars]

/-- A plan with conflicts leads to a further call for the same delta. -/
theorem Opens.resumes (opens : Opens set b) (stage : s = b ∨ Resumes lib set b s)
    (sat : set.backend = .sat) (truthful : Truthful (s.queried lib set) answer)
    (conflicted : Conflicted lib set s answer s') : Resumes lib set b s' := by
  obtain ⟨extra, loaded, origin, encoder, last⟩ := loaded_eq opens stage
  have models := truthful conflicted.ret
  rw [queried_satSolver sat, Option.getD_some, loaded, models_append] at models
  refine ⟨?_, ?_, conflicted.firstTry, conflicted.lazy, ⟨answer.model, models.1, ?_⟩, extra, ?_,
    origin⟩
  · rw [conflicted.encoder, queried_encoder sat, encoder]
  · rw [conflicted.nrVars, queried_nrVars sat, last]
  · rw [conflicted.conflicts, queried_encoder sat, encoder]
  · rw [conflicted.satSolver, queried_satSolver sat, loaded]

/-- A failed call is followed by the first call for the next delta. -/
theorem Opens.next (opens : Opens set b) (stage : s = b ∨ Resumes lib set b s)
    (sets : req.Sets set) (contract : AtMostContract lib.encodeAtMostK)
    (advanced : Advanced lib set s answer s') : Opens set s' := by
  obtain ⟨-, -, -, encoder, last⟩ := loaded_eq opens stage
  obtain ⟨inst, config, agents, vertices, delta⟩ := opens.members lib
  have next := advanced.encoder
  rw [queried_encoder sets.backend, encoder] at next
  have atLeast := opens.delta
  refine ⟨?_, ?_, ?_, ?_, ?_, ?_, advanced.satSolver, advanced.firstTry⟩
  · rw [next]
    exact inst
  · rw [next]
    exact config
  · rw [next]
    exact agents
  · rw [next]
    exact vertices
  · rw [next]
    change _ ≤ (b.formula lib set).encoder.delta + 1
    omega
  · rw [advanced.nrVars, queried_nrVars sets.backend, last]
    exact opens.one_le_lit sets contract

/-- The next delta inherits the conflicts of the last plan, if there was one. -/
theorem Inherits.next (opens : Opens set b) (inherits : Inherits lib set b)
    (stage : s = b ∨ Resumes lib set b s) (sat : set.backend = .sat)
    (advanced : Advanced lib set s answer s') : Inherits lib set s' := by
  obtain ⟨-, -, -, encoder, -⟩ := loaded_eq opens stage
  have delta : s'.encoder.delta = b.encoder.delta + 1 := by
    rw [advanced.encoder, queried_encoder sat, encoder]
    exact congrArg (· + 1) (opens.members lib).2.2.2.2
  unfold Inherits
  rw [advanced.conflicts, delta]
  rcases stage with rfl | resumes
  · rcases inherits with empty | ⟨b', opens', smaller, found⟩
    · exact .inl empty
    · exact .inr ⟨b', opens', by omega, found⟩
  · exact .inr ⟨b, opens, by omega, resumes.found⟩

/-! ## Runs -/

/-- A call of `Solve` on an object with any past opens its first delta. -/
theorem reenter_opens (set : Settings) (old : ISolver) : Opens set (reenter set old) where
  inst := rfl
  config := rfl
  agents := rfl
  vertices := rfl
  delta := le_rfl
  pos := le_rfl
  satSolver := rfl
  firstTry := rfl

/-- Every state at the head of the loop belongs to a delta, which an earlier state has opened. -/
theorem Reachable.stage (sets : req.Sets set) (contract : AtMostContract lib.encodeAtMostK)
    {old : ISolver} (reachable : Reachable lib set Truthful (reenter set old) s) :
    ∃ b, Reachable lib set Truthful (reenter set old) b ∧ Opens set b ∧ Inherits lib set b ∧
      (s = b ∨ Resumes lib set b s) := by
  induction reachable with
  | start => exact ⟨_, .start, reenter_opens set old, .inl rfl, .inl rfl⟩
  | step before allowed again ih =>
    obtain ⟨b, opened, opens, inherits, stage⟩ := ih
    rcases iteration_again sets.backend again with conflicted | advanced
    · exact ⟨b, opened, opens, inherits, .inr (opens.resumes stage sets.backend allowed conflicted)⟩
    · exact ⟨_, .step before allowed again, opens.next stage sets contract advanced,
        inherits.next opens stage sets.backend advanced, .inl rfl⟩

end ISolver

end MAPFEncodings

import MAPFEncodings.Literals.Renumbering
import MAPFEncodings.Runs.Histories

/-! # The formula of an iteration does not depend on the past

Whatever an object has been used for, and however many deltas have been given up before, the solver
holds the formula of the current delta, up to an offset of the variables. The formula is the one of
a new object which starts at this delta.
-/

namespace MAPFEncodings

open Cnf

/-- A call of `Solve` which starts at another delta. -/
def Settings.from_ (set : Settings) (delta : ℕ) : Settings := { set with inputDelta := delta }

/-- A call of `Solve` with all conflict clauses at once. -/
def Settings.eager (set : Settings) : Settings :=
  { set with config := { set.config with lazyConst := .eager } }

theorem Settings.eager_eq (set : Settings) (eager : set.config.lazyConst = .eager) :
    set.eager = set := by
  obtain ⟨backend, config, inst, timeout, useAvoid, printPlan, cnfFile, ags, inputDelta, oneshot,
    keepPlan⟩ := set
  obtain ⟨variableKind, costFunction, movement, lazyConst, duplicates⟩ := config
  subst eager
  rfl

theorem Request.Sets.eager {req : Request} {set : Settings} (sets : req.Sets set) :
    req.Sets set.eager :=
  ⟨sets.inst, sets.ags, sets.backend⟩

namespace Encoder

variable {e : Encoder} {lib : Externals} {lit : ℤ}

theorem eager_eq (e : Encoder) (eager : e.config.lazyConst = .eager) : e.eager = e := by
  obtain ⟨inst, config⟩ := e
  obtain ⟨variableKind, costFunction, movement, lazyConst, duplicates⟩ := config
  subst eager
  rfl

/-- The tables do not depend on the time at which conflict clauses are added. -/
theorem createVariables_eager : e.eager.createVariables lib lit =
    ((e.createVariables lib lit).1.eager, (e.createVariables lib lit).2) := by
  unfold createVariables
  rw [show e.eager.config.variableKind = e.config.variableKind from rfl]
  cases e.config.variableKind <;> rfl

end Encoder

namespace ISolver

variable {req : Request} {task : Task} {lib lib' : Externals} {set : Settings} {old b s : ISolver}

/-- The formula which a new object builds for `Solve(ags, delta)`. -/
def anew (lib : Externals) (set : Settings) (delta : ℕ) : Formula :=
  (init (set.from_ delta) []).formula lib (set.from_ delta)

theorem init_poses {set : Settings} (sets : req.Sets set) (delta : ℕ) :
    req.Poses (init (set.from_ delta) []).encoder :=
  ⟨sets.inst, sets.ags, by rw [← sets.inst]; rfl⟩

/-- With all conflict clauses at once, the first formula of a delta is the one of a new object. -/
theorem Opens.moved_anew (opens : Opens set b) (sets : req.Sets set)
    (consecutive : Consecutive lib.encodeAtMostK) (commutes : Commutes lib.encodeAtMostK)
    (encode : lib'.encodeAtMostK = lib.encodeAtMostK)
    (empty : set.useAvoid = true → set.inst.avoidLocations = []) (kind : ClauseKind) (c : Clause) :
    (∃ d, (kind, d) ∈ (b.encoder.eager.createFormula lib true set.useAvoid b.nrVars
        b.conflicts).emitted ∧ shiftClause (b.nrVars - 1) d = c) ↔
      (kind, c) ∈ (anew lib' set.eager b.encoder.delta).emitted := by
  obtain ⟨inst, agents, vertices⟩ := opens.poses sets
  have poses : req.Poses b.encoder.eager := ⟨inst, agents, vertices⟩
  have alike : b.encoder.eager.Alike (init (set.eager.from_ b.encoder.delta) []).encoder :=
    ⟨opens.inst, congrArg (fun c : Config => { c with lazyConst := .eager }) opens.config,
      opens.agents, opens.vertices, rfl⟩
  have unavoided : set.useAvoid = true → b.encoder.eager.inst.avoidLocations = [] := by
    rw [show b.encoder.eager.inst = set.inst from opens.inst]
    exact empty
  have moved := @Encoder.createFormula_moved req _ _ lib lib' (b.nrVars - 1) 1 poses
    (init_poses sets.eager _) alike consecutive commutes encode rfl set.useAvoid unavoided
    (sub_nonneg.mpr opens.pos) le_rfl b.conflicts ⟨[], [], []⟩ kind c
  rwa [add_sub_cancel] at moved

/-- Every iteration with all conflict clauses at once builds the formula of a new object, after
subtracting the number of variables which have been used before. The solver holds nothing else. -/
theorem formula_anew (sets : req.Sets set) (contract : AtMostContract lib.encodeAtMostK)
    (consecutive : Consecutive lib.encodeAtMostK) (commutes : Commutes lib.encodeAtMostK)
    (encode : lib'.encodeAtMostK = lib.encodeAtMostK) (eager : set.config.lazyConst = .eager)
    (empty : set.useAvoid = true → set.inst.avoidLocations = [])
    (reachable : Reachable lib set Truthful (reenter set old) s) :
    (s.queried lib set).satSolver = some (s.formula lib set).clauses ∧ 1 ≤ s.nrVars ∧
      ∀ kind c, (∃ d, (kind, d) ∈ (s.formula lib set).emitted ∧
        shiftClause (s.nrVars - 1) d = c) ↔ (kind, c) ∈ (anew lib' set s.encoder.delta).emitted := by
  obtain ⟨b, -, opens, -, stage⟩ := reachable.stage sets contract
  obtain rfl : s = b := by
    rcases stage with same | resumes
    · exact same
    · exact absurd (eager.symm.trans resumes.lazy) (by decide)
  refine ⟨?_, opens.pos, fun kind c => ?_⟩
  · rw [queried_satSolver sets.backend, loaded, opens.satSolver]
    rfl
  · have moved := opens.moved_anew sets consecutive commutes encode empty kind c
    rw [set.eager_eq eager, s.encoder.eager_eq (by rw [opens.config, eager])] at moved
    rw [formula, opens.firstTry]
    exact moved

/-- An object after a call which gave up its first delta and ran out of time for the second one. -/
def timedOut (set : Settings) : ISolver :=
  (((init set []).after .binomial set [⟨0, 0, 20, fun _ => true, false⟩]).iteration .binomial set
    ⟨0, 20000, 20, fun _ => true, false⟩).solver

/-- The second delta of a second call. -/
theorem formula_anew_swapping :
    let set := Settings.swapping ⟨.shift, .soc, .pebble, .eager, .forbid⟩
    let s := (reenter set (timedOut set)).after .binomial set [⟨0, 0, 20, fun _ => true, false⟩]
    (s.encoder.delta = 1 ∧ 1 < s.nrVars) ∧
    (s.queried .binomial set).satSolver = some (s.formula .binomial set).clauses ∧ 1 ≤ s.nrVars ∧
      ∀ kind c, (∃ d, (kind, d) ∈ (s.formula .binomial set).emitted ∧
        shiftClause (s.nrVars - 1) d = c) ↔
          (kind, c) ∈ (anew .binomial set s.encoder.delta).emitted := by
  refine ⟨by decide +kernel, formula_anew (Task.swapping_sets _).request binomialAtMost_contract
    binomialAtMost_consecutive binomialAtMost_commutes rfl rfl (fun _ => rfl)
    (Reachable.start.after ?_)⟩
  decide +kernel

end ISolver

end MAPFEncodings

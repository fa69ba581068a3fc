import MAPFEncodings.Model.Solver

/-! # One iteration of `Solve`

What an iteration of the loop does to the members which later iterations read. With CaDiCaL there
are three ways on: a plan with conflicts leads to another call for the same delta, an unsatisfiable
formula leads to the next delta, and a plan without conflicts ends the loop.
-/

namespace MAPFEncodings

open Cnf

namespace ISolver

variable {lib : Externals} {set : Settings} {s s' : ISolver} {answer : Answer}

/-- The formula which an iteration builds. -/
def formula (lib : Externals) (set : Settings) (s : ISolver) : Formula :=
  s.encoder.createFormula lib s.firstTry set.useAvoid s.nrVars s.conflicts

/-- The clauses in the solver when it is called. -/
def loaded (lib : Externals) (set : Settings) (s : ISolver) : List Clause :=
  s.satSolver.getD [] ++ (s.formula lib set).clauses

variable (lib set s) in
/-- The statements before `CreateFormula` do not change what it reads. -/
theorem created_prepared :
    ({ s with conflictsPresent := false }.createSolver set).created lib set = s.created lib set := by
  unfold createSolver created
  cases set.backend <;> rfl

variable (lib set s) in
/-- The members which building a formula leaves as they were. -/
theorem queried_kept : (s.queried lib set).timeLeft = s.timeLeft ∧
    (s.queried lib set).conflicts = s.conflicts ∧ (s.queried lib set).conflictsPresent = false := by
  unfold queried build createSolver
  cases set.backend <;> exact ⟨rfl, rfl, rfl⟩

section

variable (sat : set.backend = .sat)
include sat

theorem created_sat : s.created lib set = s.formula lib set := by
  rw [created, sat]
  rfl

theorem queried_encoder : (s.queried lib set).encoder = (s.formula lib set).encoder := by
  rw [← created_sat sat, ← created_prepared]
  rfl

theorem queried_nrVars : (s.queried lib set).nrVars = (s.formula lib set).lit := by
  rw [← created_sat sat, ← created_prepared]
  rfl

theorem queried_satSolver : (s.queried lib set).satSolver = some (s.loaded lib set) := by
  rw [loaded, ← created_sat sat, ← created_prepared]
  unfold queried build execute createSolver
  rw [sat]
  rfl

end

/-- The next iteration works on the same delta, with the conflicts of the current plan. -/
structure Conflicted (lib : Externals) (set : Settings) (s : ISolver) (answer : Answer)
    (s' : ISolver) : Prop where
  ret : answer.ret = 10
  lazy : set.config.lazyConst = .lazy
  present : (generateConflicts set.config.movement
    ((s.queried lib set).encoder.readPlan answer.model)).present = true
  encoder : s'.encoder = (s.queried lib set).encoder
  nrVars : s'.nrVars = (s.queried lib set).nrVars
  conflicts : s'.conflicts = generateConflicts set.config.movement
    ((s.queried lib set).encoder.readPlan answer.model)
  firstTry : s'.firstTry = false
  satSolver : s'.satSolver = (s.queried lib set).satSolver

/-- The next iteration works on the next delta. -/
structure Advanced (lib : Externals) (set : Settings) (s : ISolver) (answer : Answer)
    (s' : ISolver) : Prop where
  ret : answer.ret ≠ 10
  encoder : s'.encoder = { (s.queried lib set).encoder.cleanUp with
    delta := (s.queried lib set).encoder.delta + 1 }
  nrVars : s'.nrVars = (s.queried lib set).nrVars
  conflicts : s'.conflicts = s.conflicts
  firstTry : s'.firstTry = true
  satSolver : s'.satSolver = none

/-- The loop ends with a plan. -/
structure Finished (lib : Externals) (set : Settings) (s : ISolver) (answer : Answer)
    (final : ISolver) : Prop where
  ret : answer.ret = 10
  quiet : set.config.lazyConst = .lazy → (generateConflicts set.config.movement
    ((s.queried lib set).encoder.readPlan answer.model)).present = false
  plan : wantsPlan set = true → final.plan = (s.queried lib set).encoder.readPlan answer.model
  log : ∃ log, final.log = some log ∧
    log.solutionMks = (s.queried lib set).encoder.timesteps ∧
    log.solutionSoc = match (s.queried lib set).encoder.config.costFunction with
      | .mks => 0
      | .soc => (s.queried lib set).encoder.inst.getSocLB (s.queried lib set).encoder.agents +
        (s.queried lib set).encoder.delta

/-! ## The three ways on -/

/-- What a call of CaDiCaL returns and leaves behind. -/
private structure Invoked (set : Settings) (q : ISolver) (answer : Answer) (r : ISolver) (res : ℤ) :
    Prop where
  res : res = if answer.ret = 10 then 0 else 1
  encoder : r.encoder = if wantsPlan set then q.encoder else q.encoder.cleanUp
  nrVars : r.nrVars = q.nrVars
  satSolver : r.satSolver = q.satSolver
  present : r.conflictsPresent = (decide (answer.ret = 10) && (set.config.lazyConst == .lazy) &&
    (generateConflicts set.config.movement (q.encoder.readPlan answer.model)).present)
  made : r.conflictsPresent = true →
    r.conflicts = generateConflicts set.config.movement (q.encoder.readPlan answer.model)
  kept : answer.ret ≠ 10 → r.conflicts = q.conflicts
  plan : wantsPlan set = true → answer.ret = 10 → r.plan = q.encoder.readPlan answer.model

private theorem present_nil (movement : Movement) : (generateConflicts movement []).present = false :=
  rfl

variable (answer) in
private theorem invoke_spec (sat : set.backend = .sat) (q : ISolver)
    (clean : q.conflictsPresent = false) :
    Invoked set q answer (q.invoke set answer).1 (q.invoke set answer).2 := by
  unfold invoke invokeImplementation
  simp only [sat]
  by_cases found : answer.ret = 10
  · simp only [found, if_true]
    by_cases wants : wantsPlan set = true
    · by_cases lazily : set.config.lazyConst = .lazy
      · rcases empty : q.encoder.readPlan answer.model with - | ⟨row, rows⟩
        · constructor <;> simp [found, wants, lazily, empty, clean, present_nil]
        · constructor <;> simp [found, wants, lazily, empty, clean]
      · have eager : (set.config.lazyConst == .lazy) = false := beq_eq_false_iff_ne.mpr lazily
        constructor <;> simp [found, wants, eager, clean]
    · have eager : (set.config.lazyConst == .lazy) = false := by
        rw [beq_eq_false_iff_ne]
        rintro lazily
        exact wants (by simp [wantsPlan, lazily])
      constructor <;> simp [found, wants, eager, clean]
  · constructor <;> simp [found, clean]

/-- The time of an answer fits into the limit. -/
def InTime (s : ISolver) (answer : Answer) : Prop :=
  answer.buildTime ≤ s.timeLeft ∧ answer.solveTime ≤ s.timeLeft - answer.buildTime

/-- An iteration runs out of time or decides about the solver's result. -/
private theorem iteration_cases (sat : set.backend = .sat) (lib : Externals) (s : ISolver)
    (answer : Answer) :
    (¬s.InTime answer ∧ ∃ t, s.iteration lib set answer = .done t 1) ∨ ∃ r res,
      Invoked set (s.queried lib set) answer r res ∧
        s.iteration lib set answer = (r.logStatistics res).decide_ set res := by
  obtain ⟨time, -, clean⟩ := s.queried_kept lib set
  unfold iteration
  dsimp only
  split
  · next late =>
    change answer.buildTime > (s.queried lib set).timeLeft at late
    exact .inl ⟨fun inTime => absurd inTime.1 (by omega), _, rfl⟩
  · split
    · next late =>
      change answer.solveTime > (s.queried lib set).timeLeft - answer.buildTime at late
      exact .inl ⟨fun inTime => absurd inTime.2 (by omega), _, rfl⟩
    · refine .inr ⟨_, _, ?_, rfl⟩
      have spec := invoke_spec answer sat { s.queried lib set with
        buildingTime := (s.queried lib set).buildingTime + answer.buildTime
        timeLeft := (s.queried lib set).timeLeft - answer.buildTime } clean
      exact ⟨spec.res, spec.encoder, spec.nrVars, spec.satSolver, spec.present, spec.made, spec.kept,
        spec.plan⟩

/-- An iteration which continues has found a plan with conflicts or nothing. -/
theorem iteration_again (sat : set.backend = .sat) (again : s.iteration lib set answer = .again s') :
    Conflicted lib set s answer s' ∨ Advanced lib set s answer s' := by
  rcases iteration_cases sat lib s answer with ⟨-, t, late⟩ | ⟨r, res, spec, eq⟩
  · rw [late] at again
    cases again
  · rw [eq] at again
    unfold decide_ at again
    split at again
    · next conflicted =>
      obtain ⟨zero, lazily, present⟩ := conflicted
      change r.conflictsPresent = true at present
      have ret : answer.ret = 10 := by
        by_contra other
        rw [spec.res, if_neg other] at zero
        exact one_ne_zero zero
      have wants : wantsPlan set = true := by simp [wantsPlan, lazily]
      have made := spec.present
      simp only [present, ret, lazily, decide_true, Bool.true_and, beq_self_eq_true] at made
      injection again with same
      subst same
      exact .inl ⟨ret, lazily, made.symm, by simp [logStatistics, spec.encoder, wants], spec.nrVars,
        spec.made present, rfl, spec.satSolver⟩
    · split at again
      · cases again
      · split at again
        · cases again
        · split at again
          · cases again
          · next nonzero _ _ =>
            have ret : answer.ret ≠ 10 := fun ten => nonzero (by rw [spec.res, if_pos ten])
            injection again with same
            subst same
            refine .inr ⟨ret, ?_, spec.nrVars, (spec.kept ret).trans (s.queried_kept lib set).2.1,
              rfl, rfl⟩
            simp only [nextDelta, releaseSolver, logStatistics, spec.encoder]
            split <;> rfl

/-- A single call which fails has found nothing. -/
theorem iteration_failed (sat : set.backend = .sat) {final : ISolver}
    (done : s.iteration lib set answer = .done final (-1)) : answer.ret ≠ 10 := by
  rcases iteration_cases sat lib s answer with ⟨-, t, late⟩ | ⟨r, res, spec, eq⟩
  · rw [late] at done
    injection done with _ impossible
    exact absurd impossible (by decide)
  · rw [eq] at done
    intro ten
    obtain rfl : res = 0 := by rw [spec.res, if_pos ten]
    unfold decide_ at done
    split at done
    · cases done
    · rw [if_pos rfl] at done
      injection done with _ impossible
      exact absurd impossible (by decide)

variable (lib s answer) in
/-- An eager iteration which finds a model in time ends the loop. -/
theorem exists_done_of_found (sat : set.backend = .sat) (eager : set.config.lazyConst = .eager)
    (ret : answer.ret = 10) (inTime : s.InTime answer) :
    ∃ final, s.iteration lib set answer = .done final 0 := by
  rcases iteration_cases sat lib s answer with ⟨late, -⟩ | ⟨r, res, spec, eq⟩
  · exact absurd inTime late
  · obtain rfl : res = 0 := by rw [spec.res, if_pos ret]
    rw [eq]
    unfold decide_
    rw [if_neg fun found => absurd (eager.symm.trans found.2.1) (by decide), if_pos rfl]
    exact ⟨_, rfl⟩

/-- An iteration which ends the loop with success has found a plan without recorded conflicts. -/
theorem iteration_done (sat : set.backend = .sat) {final : ISolver}
    (done : s.iteration lib set answer = .done final 0) : Finished lib set s answer final := by
  rcases iteration_cases sat lib s answer with ⟨-, t, late⟩ | ⟨r, res, spec, eq⟩
  · rw [late] at done
    injection done with _ impossible
    exact absurd impossible one_ne_zero
  · rw [eq] at done
    unfold decide_ at done
    split at done
    · cases done
    · next quiet =>
      split at done
      · next zero =>
        have ret : answer.ret = 10 := by
          by_contra other
          rw [spec.res, if_neg other] at zero
          exact one_ne_zero zero
        injection done with same
        subst same
        refine ⟨ret, fun lazily => ?_, fun wants => spec.plan wants ret, _, rfl, ?_, ?_⟩
        · have present := spec.present
          simp only [ret, lazily, decide_true, Bool.true_and, beq_self_eq_true] at present
          rw [← present, ← Bool.not_eq_true]
          exact fun found => quiet ⟨zero, lazily, found⟩
        · simp only [Encoder.timesteps, spec.encoder]
          split <;> rfl
        · simp only [spec.encoder]
          cases wantsPlan set <;> rfl
      · split at done
        · injection done with _ impossible
          exact absurd impossible one_ne_zero
        · split at done
          · injection done with _ impossible
            exact absurd impossible (by decide)
          · cases done

/-! ## Given answers -/

/-- The state which an iteration leaves behind. -/
def Outcome.solver : Outcome → ISolver
  | .again s => s
  | .done s _ => s

/-- The loop goes on. -/
def Outcome.Again : Outcome → Prop
  | .again _ => True
  | .done _ _ => False

instance : (outcome : Outcome) → Decidable outcome.Again
  | .again _ => .isTrue trivial
  | .done _ _ => .isFalse id

theorem Outcome.Again.eq {outcome : Outcome} (again : outcome.Again) :
    outcome = .again outcome.solver := by
  cases outcome with
  | again s => rfl
  | done s ret => exact again.elim

instance : Decidable (Truthful s answer) := inferInstanceAs (Decidable (_ → _))

variable (lib set)

/-- The state after iterations with the given answers. -/
def after : ISolver → List Answer → ISolver
  | s, [] => s
  | s, answer :: answers => after (s.iteration lib set answer).solver answers

variable (oracle : Oracle)

/-- The answers are allowed, and the loop goes on after each of them. -/
def Answered : ISolver → List Answer → Prop
  | _, [] => True
  | s, answer :: answers => oracle (s.queried lib set) answer ∧
      (s.iteration lib set answer).Again ∧ Answered (s.iteration lib set answer).solver answers

instance Answered.decidable : (s : ISolver) → (answers : List Answer) →
    Decidable (Answered lib set Truthful s answers)
  | _, [] => .isTrue trivial
  | s, answer :: answers =>
    have := decidable (s.iteration lib set answer).solver answers
    inferInstanceAs (Decidable (_ ∧ _ ∧ _))

variable {lib set oracle}

theorem Reachable.after {start : ISolver} {answers : List Answer}
    (reachable : Reachable lib set oracle start s) (answered : Answered lib set oracle s answers) :
    Reachable lib set oracle start (s.after lib set answers) := by
  induction answers generalizing s with
  | nil => exact reachable
  | cons answer answers ih =>
    obtain ⟨allowed, again, rest⟩ := answered
    exact ih (.step reachable allowed again.eq) rest

end ISolver

end MAPFEncodings

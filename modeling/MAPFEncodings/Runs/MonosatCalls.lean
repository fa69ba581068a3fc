import MAPFEncodings.Runs.Endings
import MAPFEncodings.Runs.PrintedFile
import MAPFEncodings.Soundness.MonosatFiles

/-! # The first call of monosat

As long as the stream holds no lines of earlier deltas, an iteration with monosat decides about its
delta, although formula and assignment pass through files.
-/

namespace MAPFEncodings

open Cnf PathFinding Text

namespace ISolver

variable {task : Task} {lib : Externals} {set : Settings} {s q r s' final : ISolver} {answer : Answer}
  {res : ℤ} {monosat : List Char → ℤ → List Char → Prop}

/-- Monosat answers to the text which is written for the call, and its assignment is read from the
text which it leaves. -/
def ThroughFiles (monosat : List Char → ℤ → List Char → Prop) : Oracle := fun q answer =>
  ∃ out, monosat q.written.text answer.ret out ∧ (answer.ret = 2560 → answer.witnessFile = true ∧
    ∃ eval, readEval q.nrVars.toNat out = some eval ∧ answer.model = evalOf eval)

/-- What a call of monosat returns and leaves behind. -/
private structure InvokedMonosat (set : Settings) (q : ISolver) (answer : Answer) (r : ISolver)
    (res : ℤ) : Prop where
  res : res = if answer.ret = 2560 then 0 else 1
  delta : r.encoder.delta = q.encoder.delta
  present : r.conflictsPresent = false
  plan : answer.ret = 2560 → wantsPlan set = true →
    r.plan = q.encoder.readPlanMonosat answer.model
  empty : answer.ret ≠ 2560 → r.plan = []

private theorem invoke_monosat (smt : set.backend = .smt) (eager : set.config.lazyConst = .eager)
    (clean : q.conflictsPresent = false) (left : answer.ret = 2560 → answer.witnessFile = true) :
    InvokedMonosat set q answer (q.invoke set answer).1 (q.invoke set answer).2 := by
  unfold invoke invokeImplementation
  simp only [smt, eager]
  by_cases found : answer.ret = 2560
  · by_cases wants : wantsPlan set = true
    · constructor <;> simp [found, wants, clean, left found, Encoder.readPlanMonosat]
    · constructor <;> simp [found, wants, clean, Encoder.cleanUp]
  · constructor <;> simp [found, clean]
    split <;> rfl

/-- An iteration within the time limit decides about the result of monosat. -/
private theorem iteration_monosat (smt : set.backend = .smt) (eager : set.config.lazyConst = .eager)
    (inTime : s.InTime answer) (left : answer.ret = 2560 → answer.witnessFile = true) :
    ∃ r res, InvokedMonosat set (s.queried lib set) answer r res ∧
      s.iteration lib set answer = (r.logStatistics res).decide_ set res := by
  obtain ⟨time, -, clean⟩ := s.queried_kept lib set
  unfold iteration
  dsimp only
  split
  · next late =>
    change answer.buildTime > (s.queried lib set).timeLeft at late
    exact absurd inTime.1 (by omega)
  · split
    · next late =>
      change answer.solveTime > (s.queried lib set).timeLeft - answer.buildTime at late
      exact absurd inTime.2 (by omega)
    · refine ⟨_, _, ?_, rfl⟩
      have spec := @invoke_monosat set { s.queried lib set with
        buildingTime := (s.queried lib set).buildingTime + answer.buildTime
        timeLeft := (s.queried lib set).timeLeft - answer.buildTime } answer smt eager clean left
      exact ⟨spec.res, spec.delta, spec.present, spec.plan, spec.empty⟩

theorem created_smt (smt : set.backend = .smt) :
    s.created lib set = s.encoder.createFormulaMonosat lib set.useAvoid := by
  rw [created, smt]

/-- The file which is written for an iteration, if the stream was empty. -/
theorem written_eq (smt : set.backend = .smt) (prints : set.cnfFile = true)
    (empty : s.cnfPrintable = []) :
    let o := s.encoder.createFormulaMonosat lib set.useAvoid
    (s.queried lib set).encoder = o.encoder ∧ (s.queried lib set).nrVars = o.lit ∧
      (s.queried lib set).written.variables_ = o.lit - 1 ∧
      (s.queried lib set).written.lines = o.lines := by
  intro o
  have made : s.created lib set = o := created_smt smt
  have lines := @queried_printed lib set s prints
  rw [empty, List.nil_append, emission, made] at lines
  rw [← created_prepared] at made
  exact ⟨congrArg Formula.encoder made, congrArg Formula.lit made,
    congrArg (Formula.lit · - 1) made, lines⟩

theorem delta_createFormulaMonosat (e : Encoder) (lib : Externals) (useAvoid : Bool) :
    (e.createFormulaMonosat lib useAvoid).encoder.delta = e.delta := by
  unfold Encoder.createFormulaMonosat
  cases e.config.variableKind with
  | at_ => rfl
  | pass => rfl
  | shift => rfl

/-- An iteration does what its delta admits. -/
structure Resolves (task : Task) (lib : Externals) (set : Settings) (s : ISolver) (answer : Answer) :
    Prop where
  found : task.Admits set.config s.encoder.delta → ∃ final,
    s.iteration lib set answer = .done final 0 ∧ (wantsPlan set = true →
      set.config.variableKind = .shift ∨ set.config.duplicates = .forbid →
      ∃ pos, final.plan.Shows task.ags task.inst.goalOf pos ∧ task.Valid set.config.movement pos ∧
        (task.cost pos set.config.costFunction : ℤ) ≤
          task.lowerBound set.config.costFunction + s.encoder.delta)
  failed : ¬task.Admits set.config s.encoder.delta → set.oneshot = true →
    ∃ final, s.iteration lib set answer = .done final (-1) ∧ final.plan = []
  advances : ¬task.Admits set.config s.encoder.delta → set.oneshot = false →
    ∃ s', s.iteration lib set answer = .again s' ∧ s'.encoder.delta = s.encoder.delta + 1

section

variable (smt : set.backend = .smt) (eager : set.config.lazyConst = .eager)
include smt eager

/-- A solution which has been read ends the loop. -/
private theorem done_of_solution (inTime : s.InTime answer) (found : answer.ret = 2560)
    (left : answer.witnessFile = true) : ∃ final, s.iteration lib set answer = .done final 0 ∧
      (wantsPlan set = true →
        final.plan = (s.queried lib set).encoder.readPlanMonosat answer.model) := by
  obtain ⟨r, res, spec, eq⟩ := @iteration_monosat lib set s answer smt eager inTime fun _ => left
  obtain rfl : res = 0 := by rw [spec.res, if_pos found]
  refine ⟨(r.logStatistics 0).nextDelta, ?_, fun wants => spec.plan found wants⟩
  rw [eq, decide_, if_neg fun conflicted => absurd conflicted.2.1 (by rw [eager]; decide), if_pos rfl]

/-- Without a solution a single call ends, and any other call goes on. -/
private theorem resolves_none (inTime : s.InTime answer) (none : answer.ret ≠ 2560) :
    (set.oneshot = true → ∃ final, s.iteration lib set answer = .done final (-1) ∧
      final.plan = []) ∧
    (set.oneshot = false → ∃ s', s.iteration lib set answer = .again s' ∧
      s'.encoder.delta = s.encoder.delta + 1) := by
  obtain ⟨r, res, spec, eq⟩ :=
    @iteration_monosat lib set s answer smt eager inTime fun found => absurd found none
  obtain rfl : res = 1 := by rw [spec.res, if_neg none]
  have delta : r.encoder.delta = s.encoder.delta := by
    rw [spec.delta, ← delta_createFormulaMonosat s.encoder lib set.useAvoid]
    have made := @created_smt lib set s smt
    rw [← created_prepared] at made
    exact congrArg (fun o : Formula => o.encoder.delta) made
  have decided : s.iteration lib set answer = if set.oneshot = true then
      .done (r.logStatistics 1).nextDelta (-1) else .again (r.logStatistics 1).nextDelta := by
    rw [eq, decide_, if_neg fun conflicted => absurd conflicted.1 one_ne_zero, if_neg one_ne_zero,
      if_neg (by decide)]
  constructor
  · intro single
    rw [if_pos single] at decided
    exact ⟨_, decided, spec.empty none⟩
  · intro optimizing
    rw [if_neg (by simp [optimizing])] at decided
    exact ⟨_, decided, congrArg (· + 1) delta⟩

end

/-- The literals of the file are those of variables which have been created. -/
theorem emission_safe (set : Settings) (consecutive : Consecutive lib.encodeAtMostK)
    (poses : task.Poses s.encoder) :
    (s.encoder.layoutMonosat lib).Safe (s.encoder.config.generators s.encoder.delta .smt)
      (s.encoder.createFormulaMonosat lib set.useAvoid).lines
      (s.encoder.createFormulaMonosat lib set.useAvoid).lit :=
  s.encoder.createFormulaMonosat_safe poses.request consecutive
    (fun _ agent => poses.inst ▸ task.goal_known (poses.agents ▸ agent))
    fun _ => poses.noAvoid

section

variable (contract : AtMostContract lib.encodeAtMostK) (consecutive : Consecutive lib.encodeAtMostK)
  (trusted : MonosatContract monosat) (smt : set.backend = .smt) (prints : set.cnfFile = true)
  (poses : task.Poses s.encoder) (empty : s.cnfPrintable = [])
include smt prints poses empty consecutive trusted

/-- The file of the call is read by monosat, and monosat's answer to it is read. -/
theorem written_decides {status : ℤ} {out : List Char}
    (answers : monosat (s.queried lib set).written.text status out) :
    let o := s.encoder.createFormulaMonosat lib set.useAvoid
    (status = 2560 ∧ ∃ eval, readEval (s.queried lib set).nrVars.toNat out = some eval ∧
      SatisfiesLines (evalOf eval) o.lines) ∨ (status = 5120 ∧ ¬o.Satisfiable) := by
  intro o
  obtain ⟨-, nrVars, variables_, lines⟩ := @written_eq lib set s smt prints empty
  have safe := emission_safe set consecutive poses
  have below : LinesBelow o.lit (s.queried lib set).written.lines := lines ▸ safe.linesBelow
  have decided := trusted.decided answers variables_ safe.one_le below
  rw [lines] at decided
  rw [nrVars]
  exact decided.imp_right fun unsat => ⟨unsat.1, fun ⟨σ, satisfies⟩ => unsat.2 σ satisfies⟩

theorem exists_throughFiles : ∃ answer, ThroughFiles monosat (s.queried lib set) answer := by
  have safe := emission_safe set consecutive poses
  obtain ⟨-, -, variables_, lines⟩ := @written_eq lib set s smt prints empty
  have below : LinesBelow ((s.queried lib set).written.variables_ + 1)
      (s.queried lib set).written.lines := by
    rw [lines, variables_, sub_add_cancel]
    exact safe.linesBelow
  obtain ⟨status, out, answers⟩ := trusted.answers _ below
  rcases written_decides consecutive trusted smt prints poses empty answers with
    ⟨found, eval, read, -⟩ | ⟨none, -⟩
  · exact ⟨⟨0, 0, status, evalOf eval, true⟩, out, answers, fun _ => ⟨rfl, eval, read, rfl⟩⟩
  · exact ⟨⟨0, 0, status, fun _ => false, true⟩, out, answers,
      fun found => absurd (found.symm.trans none) (by decide)⟩

include contract in
/-- An iteration whose stream is empty does what its delta admits. -/
theorem resolves (eager : set.config.lazyConst = .eager) (config : s.encoder.config = set.config)
    (portable : s.encoder.Portable task) (allowed : ThroughFiles monosat (s.queried lib set) answer)
    (inTime : s.InTime answer) : Resolves task lib set s answer := by
  obtain ⟨out, answers, reads⟩ := allowed
  obtain ⟨encoder, -, -, -⟩ := @written_eq lib set s smt prints empty
  have decided := written_decides consecutive trusted smt prints poses empty answers
  have satisfiable : (s.encoder.createFormulaMonosat lib set.useAvoid).Satisfiable ↔ _ :=
    portable.satisfiable_iff contract poses
  rw [← portable.parallel, config] at satisfiable
  rcases decided with ⟨found, eval, read, satisfies⟩ | ⟨none, unsat⟩
  · have admits : task.Admits set.config s.encoder.delta := satisfiable.mp ⟨_, satisfies⟩
    refine ⟨fun _ => ?_, fun none => absurd admits none, fun none => absurd admits none⟩
    obtain ⟨left, eval', read', model⟩ := reads found
    obtain ⟨final, done, plan⟩ := done_of_solution smt eager inTime found left
    refine ⟨final, done, fun wants single => ?_⟩
    obtain rfl : eval = eval' := Option.some.inj (read.symm.trans read')
    have shown := portable.exists_plan contract poses (config.symm ▸ single) satisfies
    rw [← portable.parallel, config] at shown
    rw [plan wants, encoder, model]
    exact shown
  · have notAdmits : ¬task.Admits set.config s.encoder.delta := fun admits =>
      unsat (satisfiable.mpr admits)
    have failed : answer.ret ≠ 2560 := fun found => absurd (found.symm.trans none) (by decide)
    obtain ⟨single, optimizing⟩ := @resolves_none lib set s answer smt eager inTime failed
    exact ⟨fun admits => absurd admits notAdmits, fun _ => single, fun _ => optimizing⟩

end

/-- The first call of monosat decides about the first delta, whatever the object has been used for
before, as long as the stream is empty: there is an answer to the text of the file, a solution is
read without leaving the vector, and an iteration which is answered in time does what the delta
admits. -/
theorem first_call_resolves (inst : set.inst = task.inst) (ags : set.ags = task.ags)
    (smt : set.backend = .smt) (prints : set.cnfFile = true) (eager : set.config.lazyConst = .eager)
    (contract : AtMostContract lib.encodeAtMostK) (consecutive : Consecutive lib.encodeAtMostK)
    (trusted : MonosatContract monosat) {old : ISolver}
    (portable : (reenter set old).encoder.Portable task) (empty : old.cnfPrintable = []) :
    let s := reenter set old
    (∃ answer, ThroughFiles monosat (s.queried lib set) answer) ∧
    (∀ out, monosat (s.queried lib set).written.text 2560 out →
      ∃ eval, readEval (s.queried lib set).nrVars.toNat out = some eval) ∧
    ∀ answer, ThroughFiles monosat (s.queried lib set) answer → s.InTime answer →
      Resolves task lib set s answer := by
  intro s
  have poses : task.Poses s.encoder := ⟨inst, ags, inst ▸ rfl⟩
  refine ⟨exists_throughFiles consecutive trusted smt prints poses empty, fun out answers => ?_,
    fun answer allowed inTime => ?_⟩
  · rcases written_decides consecutive trusted smt prints poses empty answers with
      ⟨-, eval, read, -⟩ | ⟨none, -⟩
    · exact ⟨eval, read⟩
    · exact absurd none (by decide)
  · exact resolves contract consecutive trusted smt prints poses empty eager rfl portable allowed
      inTime

end ISolver

/-- The small task is given to monosat. -/
def Settings.filed : Settings :=
  { Settings.rows ⟨.pass, .soc, .parallel, .eager, .forbid⟩ with backend := .smt, cnfFile := true }

namespace ISolver

theorem first_call_resolves_rows : ∃ answer,
    ThroughFiles Reading ((reenter .filed (init .filed [])).queried .binomial .filed) answer ∧
      Resolves .rows .binomial .filed (reenter .filed (init .filed [])) answer := by
  obtain ⟨⟨answer, out, answers, reads⟩, -, resolves_⟩ :=
    @first_call_resolves .rows .binomial .filed Reading rfl rfl rfl rfl rfl binomialAtMost_contract
      binomialAtMost_consecutive reading_contract (init .filed []) ⟨rfl, .inl rfl⟩ rfl
  have allowed : ThroughFiles Reading ((reenter .filed (init .filed [])).queried .binomial .filed)
      { answer with buildTime := 0, solveTime := 0 } := ⟨out, answers, reads⟩
  exact ⟨_, allowed, resolves_ _ allowed
    ⟨show (0 : ℤ) ≤ 10 * 1000 by decide, show (0 : ℤ) ≤ 10 * 1000 - 0 by decide⟩⟩

end ISolver

end MAPFEncodings

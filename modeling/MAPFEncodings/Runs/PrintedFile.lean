import MAPFEncodings.Runs.Invariant

/-! # The file which is written before each solver call

Both encodings collect their lines in the stream `cnf_printable`, which is written to a file when the
solver is called. Clearing the stream resets its error state only, so it keeps the lines of earlier
deltas and of earlier calls of `Solve` on the same object, while the counter in the header starts
again with every call. The file says what is solved only until the first tables are thrown away.
-/

namespace MAPFEncodings

open Cnf

namespace ISolver

variable {lib : Externals} {set : Settings} {oracle : Oracle} {start s s' : ISolver} {answer : Answer}

/-- The lines which the generators emit in an iteration. -/
def emission (lib : Externals) (set : Settings) (s : ISolver) : List Line := (s.created lib set).lines

/-- The states at the head of the loop, with the lines in the stream when the tables of the current
delta were created and the lines which have been emitted since. -/
inductive Printing (lib : Externals) (set : Settings) (oracle : Oracle) (start : ISolver) :
    ISolver → List Line → List Line → Prop
  | start : Printing lib set oracle start start start.cnfPrintable []
  | refined {s s' : ISolver} {answer : Answer} {stale current : List Line}
      (before : Printing lib set oracle start s stale current)
      (allowed : oracle (s.queried lib set) answer)
      (again : s.iteration lib set answer = .again s')
      (keeps : set.backend = .sat ∧ s'.firstTry = false) :
      Printing lib set oracle start s' stale (current ++ s.emission lib set)
  | advanced {s s' : ISolver} {answer : Answer} {stale current : List Line}
      (before : Printing lib set oracle start s stale current)
      (allowed : oracle (s.queried lib set) answer)
      (again : s.iteration lib set answer = .again s')
      (creates : set.backend = .smt ∨ s'.firstTry = true) :
      Printing lib set oracle start s' s'.cnfPrintable []

/-- The file has exactly the current lines, its header counts the clauses among them, and they are
what is solved. -/
structure Exports (set : Settings) (q : ISolver) (file : CnfFile) (current : List Line) : Prop where
  lines : file.lines = current
  header : file.clauses = (file.lines.filterMap Line.clause?).length
  satisfiable : (∃ σ, SatisfiesLines σ file.lines) ↔ ∃ σ, SatisfiesLines σ current
  solved : set.backend = .sat → q.satSolver = some (file.lines.filterMap Line.clause?)

/-! ## What an iteration does to the stream -/

theorem queried_printed (prints : set.cnfFile = true) :
    (s.queried lib set).cnfPrintable = s.cnfPrintable ++ s.emission lib set := by
  rw [emission, ← created_prepared]
  unfold queried build execute createSolver
  rw [if_pos prints]
  cases set.backend <;> rfl

/-- The statements of the generators which are called in an iteration. -/
def statements (lib : Externals) (set : Settings) (s : ISolver) : List Statement :=
  (s.created lib set).statements

/-- The counters when the solver is called are those at the head of the loop after the statements of
the iteration. -/
theorem queried_counters :
    (s.queried lib set).counters = (s.statements lib set).foldl Statement.exec s.counters := by
  rw [statements, ← created_prepared]
  unfold queried build execute createSolver
  cases set.backend <;> rfl

/-- The statements of an iteration print its lines and count the clauses among them. -/
theorem statements_eq : s.statements lib set = (s.emission lib set).flatMap Line.statements := by
  apply flatMap_statements_calls
  unfold created
  cases set.backend with
  | sat => exact s.encoder.createFormula_counts lib s.conflicts s.nrVars s.firstTry set.useAvoid
  | smt => exact s.encoder.createFormulaMonosat_counts lib set.useAvoid

/-- `nr_clauses` counts the clauses among the lines. -/
theorem queried_clauses : (s.queried lib set).counters.clauses =
    s.counters.clauses + ((s.emission lib set).filterMap Line.clause?).length := by
  rw [queried_counters, clauses_foldl_exec, statements_eq, filterMap_clause_statements]

theorem queried_loaded (sat : set.backend = .sat) : (s.queried lib set).satSolver =
    some (s.satSolver.getD [] ++ (s.emission lib set).filterMap Line.clause?) := by
  rw [queried_satSolver sat, loaded, emission, ← Formula.clauses_eq, created_sat sat]

theorem decide_again {res : ℤ} (again : s.decide_ set res = .again s') :
    s' = { s with firstTry := false } ∨ s' = s.nextDelta := by
  unfold decide_ at again
  split at again
  · cases again
    exact .inl rfl
  · split at again
    · cases again
    · split at again
      · cases again
      · split at again
        · cases again
        · cases again
          exact .inr rfl

theorem decide_done {res ret : ℤ} {final : ISolver} (done : s.decide_ set res = .done final ret) :
    final = s.nextDelta := by
  unfold decide_ at done
  split at done
  · cases done
  · split at done
    · cases done
      rfl
    · split at done
      · cases done
        rfl
      · split at done
        · cases done
          rfl
        · cases done

/-- Calling the solver leaves the stream, the counters and the loaded clauses alone. -/
theorem iteration_kept (lib : Externals) (set : Settings) (s : ISolver) (answer : Answer) :
    ∃ r : ISolver,
    (r.cnfPrintable = (s.queried lib set).cnfPrintable ∧ r.counters = (s.queried lib set).counters ∧
      r.satSolver = (s.queried lib set).satSolver) ∧
    (s.iteration lib set answer = .done r.timesUp 1 ∨
      ∃ res, s.iteration lib set answer = r.decide_ set res) := by
  unfold iteration
  dsimp only
  split
  · refine ⟨_, ?_, .inl rfl⟩
    exact ⟨rfl, rfl, rfl⟩
  · split
    · refine ⟨_, ?_, .inl rfl⟩
      exact ⟨rfl, rfl, rfl⟩
    · refine ⟨_, ?_, .inr ⟨_, rfl⟩⟩
      exact ⟨rfl, rfl, rfl⟩

theorem iteration_again_kept (again : s.iteration lib set answer = .again s') :
    s'.cnfPrintable = (s.queried lib set).cnfPrintable ∧
      s'.counters = (s.queried lib set).counters ∧
      s'.satSolver = if s'.firstTry then none else (s.queried lib set).satSolver := by
  obtain ⟨r, ⟨printed, counted, loaded⟩, late | ⟨res, eq⟩⟩ := iteration_kept lib set s answer
  · rw [late] at again
    cases again
  · rw [eq] at again
    rcases decide_again again with rfl | rfl
    · exact ⟨printed, counted, loaded⟩
    · exact ⟨printed, counted, rfl⟩

theorem iteration_done_printed {final : ISolver} {ret : ℤ}
    (done : s.iteration lib set answer = .done final ret) :
    final.cnfPrintable = (s.queried lib set).cnfPrintable := by
  obtain ⟨r, ⟨printed, -, -⟩, late | ⟨res, eq⟩⟩ := iteration_kept lib set s answer
  · rw [late] at done
    cases done
    exact printed
  · rw [eq] at done
    rw [decide_done done]
    exact printed

/-! ## Runs -/

/-- What the stream, the counter and the solver hold in a run. -/
private structure Printed (set : Settings) (start s : ISolver) (stale current : List Line) : Prop where
  stream : s.cnfPrintable = stale ++ current
  counted : start.cnfPrintable = [] →
    s.counters.clauses = (s.cnfPrintable.filterMap Line.clause?).length
  earlier : start.cnfPrintable <+: stale
  loaded : set.backend = .sat → s.satSolver.getD [] = current.filterMap Line.clause?

private theorem Printing.printed (prints : set.cnfFile = true) (zero : start.counters = .zero)
    (released : start.satSolver = none) {stale current : List Line}
    (printing : Printing lib set oracle start s stale current) :
    Printed set start s stale current := by
  -- both kinds of step append the emission to the stream
  have next {s s' : ISolver} {answer : Answer} {stale current : List Line}
      (before : Printed set start s stale current) (again : s.iteration lib set answer = .again s') :
      s'.cnfPrintable = stale ++ (current ++ s.emission lib set) ∧ (start.cnfPrintable = [] →
        s'.counters.clauses = (s'.cnfPrintable.filterMap Line.clause?).length) := by
    obtain ⟨printed, counted, -⟩ := iteration_again_kept again
    rw [queried_printed prints] at printed
    refine ⟨by rw [printed, before.stream, List.append_assoc], fun empty => ?_⟩
    rw [counted, queried_clauses, before.counted empty, printed,
      List.filterMap_append, List.length_append]
  induction printing with
  | start =>
    refine ⟨(List.append_nil _).symm, fun empty => ?_, List.prefix_refl _, fun _ => ?_⟩
    · rw [zero, empty]
      rfl
    · rw [released]
      rfl
  | refined _ _ again keeps ih =>
    obtain ⟨stream, counted⟩ := next ih again
    refine ⟨stream, counted, ih.earlier, fun sat => ?_⟩
    obtain ⟨-, -, loaded⟩ := iteration_again_kept again
    rw [loaded, keeps.2, queried_loaded sat, ih.loaded sat]
    exact (List.filterMap_append ..).symm
  | @advanced s s' _ _ _ _ _ again creates ih =>
    obtain ⟨stream, counted⟩ := next ih again
    refine ⟨(List.append_nil _).symm, counted, ?_, fun sat => ?_⟩
    · rw [stream]
      exact ih.earlier.trans (List.prefix_append _ _)
    · obtain ⟨-, -, loaded⟩ := iteration_again_kept again
      have first : s'.firstTry = true := creates.resolve_left fun smt => by simp [sat] at smt
      rw [loaded, first]
      rfl

/-- Whatever earlier calls have left in the object: the file which is written before a solver call
is the formula of that call if and only if the stream was empty when the tables of the delta were
created. -/
theorem invoke_exports_iff (prints : set.cnfFile = true) {old : ISolver} {stale current : List Line}
    (printing : Printing lib set oracle (reenter set old) s stale current) (answer : Answer) :
    (∃ file, ((s.queried lib set).invoke set answer).1.file = some file ∧
      Exports set (s.queried lib set) file (current ++ s.emission lib set)) ↔ stale = [] := by
  have printed := printing.printed prints rfl rfl
  have written : ((s.queried lib set).invoke set answer).1.file = some
      ⟨(s.queried lib set).nrVars - 1, (s.queried lib set).counters.clauses,
        stale ++ (current ++ s.emission lib set)⟩ := by
    rw [← List.append_assoc, ← printed.stream, ← queried_printed prints]
    simp [invoke, prints]
  constructor
  · rintro ⟨file, same, exports⟩
    obtain rfl : _ = file := Option.some.inj (written.symm.trans same)
    exact List.append_left_eq_self.mp exports.lines
  · rintro rfl
    refine ⟨_, written, rfl, ?_, Iff.rfl, fun sat => ?_⟩
    · have empty := List.prefix_nil.mp printed.earlier
      rw [queried_clauses, printed.counted empty, printed.stream]
      simp
    · rw [queried_loaded sat, printed.loaded sat]
      simp

end ISolver

/-! ## Two calls on one object -/

/-- Two agents cross a free square, and the formula is printed. -/
def Settings.printed : Settings :=
  { Settings.rows ⟨.at_, .mks, .parallel, .eager, .forbid⟩ with cnfFile := true }

namespace ISolver

/-- The first file of a second call repeats the lines of the first call. -/
theorem invoke_not_exports_rows :
    ¬∀ old s stale current, Returns .binomial .printed CaDiCaL (init .printed []) old 0 →
      Printing .binomial .printed CaDiCaL (reenter .printed old) s stale current → ∀ answer,
        ∃ file, ((s.queried .binomial .printed).invoke .printed answer).1.file = some file ∧
          Exports .printed (s.queried .binomial .printed) file
            (current ++ s.emission .binomial .printed) := by
  intro exact
  let found : Answer := ⟨0, 0, 10, fun _ => true, false⟩
  have allowed : CaDiCaL ((init .printed []).queried .binomial .printed) found := by
    refine .inl ⟨rfl, ?_⟩
    decide +kernel
  obtain ⟨old, done⟩ : ∃ old,
      (init .printed []).iteration .binomial .printed found = .done old 0 :=
    exists_done_of_found .binomial (init .printed []) found rfl rfl rfl ⟨by decide, by decide⟩
  obtain ⟨file, written, exports⟩ := exact old _ _ _ ⟨_, _, .start, allowed, done⟩ .start found
  have lines : file.lines = old.cnfPrintable ++ (reenter .printed old).emission .binomial .printed := by
    rw [← Option.some.inj written]
    exact @queried_printed .binomial .printed (reenter .printed old) rfl
  have same := lines.symm.trans exports.lines
  rw [List.nil_append, List.append_left_eq_self, iteration_done_printed done,
    @queried_printed .binomial .printed (init .printed []) rfl] at same
  exact absurd same (by decide +kernel)

theorem invoke_exports_iff_rows :
    let q := (reenter .printed (init .printed [])).queried .binomial .printed
    ∀ answer, (∃ file, (q.invoke .printed answer).1.file = some file ∧
      Exports .printed q file
        ([] ++ (reenter .printed (init .printed [])).emission .binomial .printed)) ↔
      (reenter .printed (init .printed [])).cnfPrintable = [] := by
  have printing : Printing .binomial .printed CaDiCaL (reenter .printed (init .printed [])) _ _ _ :=
    .start
  exact invoke_exports_iff rfl printing

end ISolver

end MAPFEncodings

import MAPFEncodings.Runs.PrintedFile

/-! # The clause statistics add up

The generators change the counters by hand, next to their calls of `AddClause`. Each counts every clause
of its own exactly once, so in a run `nr_clauses` is the number of calls of `AddClause` since `Solve` has
reset it, and the sum of the counters of all categories.
-/

namespace MAPFEncodings

open Cnf

namespace ISolver

variable {lib : Externals} {set : Settings} {oracle : Oracle} {start old s : ISolver}
  {performed : List Statement}

/-- The states at the head of the loop, with the statements which the generators have executed since
`Solve` began. -/
inductive Performing (lib : Externals) (set : Settings) (oracle : Oracle) (start : ISolver) :
    ISolver → List Statement → Prop
  | start : Performing lib set oracle start start []
  | step {s s' : ISolver} {answer : Answer} {performed : List Statement}
      (before : Performing lib set oracle start s performed)
      (allowed : oracle (s.queried lib set) answer)
      (again : s.iteration lib set answer = .again s') :
      Performing lib set oracle start s' (performed ++ s.statements lib set)

/-- The states of the runs are those which are reached while statements are performed. -/
theorem reachable_iff_performing :
    Reachable lib set oracle start s ↔ ∃ performed, Performing lib set oracle start s performed := by
  constructor
  · intro reachable
    induction reachable with
    | start => exact ⟨[], .start⟩
    | step _ allowed again ih =>
      obtain ⟨performed, performing⟩ := ih
      exact ⟨_, performing.step allowed again⟩
  · rintro ⟨performed, performing⟩
    induction performing with
    | start => exact .start
    | step _ allowed again ih => exact ih.step allowed again

/-- The statements of an iteration keep the balance of the counters. -/
theorem balanced_queried (balanced : s.counters.Balanced) :
    (s.queried lib set).counters.Balanced := by
  rw [queried_counters, statements_eq]
  exact balanced.foldl_exec _

/-- Nothing but the statements changes the counters once `Solve` has reset them. -/
theorem Performing.counters (performing : Performing lib set oracle (reenter set old) s performed) :
    s.counters = performed.foldl Statement.exec .zero ∧ s.counters.Balanced := by
  induction performing with
  | start => exact ⟨rfl, rfl⟩
  | step before _ again ih =>
    obtain ⟨-, counted, -⟩ := iteration_again_kept again
    refine ⟨?_, ?_⟩
    · rw [counted, queried_counters, ih.1, List.foldl_append]
    · rw [counted]
      exact balanced_queried ih.2

/-- At every solver call of every run `nr_clauses` is the number of calls of `AddClause` since `Solve`
began, and the sum of the counters of all categories. -/
theorem queried_statistics (reachable : Reachable lib set oracle (reenter set old) s) :
    (s.queried lib set).counters.Balanced ∧
      (∃ performed, Performing lib set oracle (reenter set old) s performed) ∧
      ∀ performed, Performing lib set oracle (reenter set old) s performed →
        (s.queried lib set).counters.clauses =
          ((performed ++ s.statements lib set).filterMap Statement.clause?).length := by
  obtain ⟨performed, performing⟩ := reachable_iff_performing.mp reachable
  refine ⟨balanced_queried performing.counters.2, ⟨performed, performing⟩,
    fun performed performing => ?_⟩
  rw [queried_counters, performing.counters.1, ← List.foldl_append, clauses_foldl_exec]
  exact Nat.zero_add _

/-- A refinement of the first delta, and one of the second delta, before the fourth solver call. -/
theorem queried_statistics_swapping :
    let set := Settings.swapping ⟨.at_, .mks, .parallel, .lazy, .allow⟩
    let s := (reenter set (init set [])).after .binomial set
      [⟨0, 0, 10, fun _ => true, false⟩, ⟨0, 0, 20, fun _ => true, false⟩,
        ⟨0, 0, 10, fun x => x ≠ 7 ∧ x ≠ 9, false⟩]
    (s.encoder.delta = 1 ∧ s.solverCalls = 3) ∧ (s.queried .binomial set).counters.Balanced ∧
      (∃ performed, Performing .binomial set Truthful (reenter set (init set [])) s performed) ∧
      ∀ performed, Performing .binomial set Truthful (reenter set (init set [])) s performed →
        (s.queried .binomial set).counters.clauses =
          ((performed ++ s.statements .binomial set).filterMap Statement.clause?).length := by
  refine ⟨by decide +kernel, queried_statistics (Reachable.start.after ?_)⟩
  decide +kernel

end ISolver

end MAPFEncodings

import MAPFEncodings.Runs.Invariant

/-! # The refinement loop

A lazy call of `Solve` solves the formula of a delta again and again, each time with the clauses
for the conflicts of the last plan. Every model falsifies one of the clauses which follow it, so no
two models agree on the variables of the tables. The loop therefore ends, with the answer of the
eager encoding.
-/

namespace MAPFEncodings

open Cnf PathFinding

/-- The same encoder with all conflict clauses at once. -/
def Encoder.eager (e : Encoder) : Encoder := { e with config := { e.config with lazyConst := .eager } }

namespace ISolver

variable {task : Task} {lib : Externals} {set : Settings} {s s' s'' : ISolver} {hi : ℤ}
  {answers : List Answer} {answer : Answer}

/-- In every reachable state the generators on demand read existing entries at timesteps which these
cover, and what they emit belongs to the eager encoding of the current delta. -/
theorem readsExisting_of_reachable (sets : task.Sets set)
    (contract : AtMostContract lib.encodeAtMostK) (goals : task.DistinctGoals)
    {cnfPrintable : List Line} (reachable : Reachable lib set Truthful (init set cnfPrintable) s) :
    let e := (s.queried lib set).encoder
    e.ReadsExisting s.conflicts ∧
      ∀ c ∈ e.conflictClausesLazy s.conflicts, Occurs c e.conflictClausesEager := by
  obtain ⟨hi, called⟩ := reachable.called sets contract
  rw [queried_encoder sets.backend]
  exact ⟨Encoder.readsExisting called.poses called.prepared (called.recorded goals), fun c member =>
    Encoder.conflictClausesLazy_occurs called.poses called.prepared (called.recorded goals) member⟩

/-- Two agents swap, this is forbidden, and the next delta starts with the swap of the one before. -/
theorem readsExisting_of_reachable_swapping :
    let set := Settings.swapping ⟨.at_, .mks, .parallel, .lazy, .allow⟩
    let s := (init set []).after .binomial set
      [⟨0, 0, 10, fun _ => true, false⟩, ⟨0, 0, 20, fun _ => true, false⟩]
    let e := (s.queried .binomial set).encoder
    s.encoder.delta = 1 ∧ s.conflicts.swap = [⟨0, 1, some 0, some 1, 0⟩] ∧
      e.conflictClausesLazy s.conflicts = [[-5, -7, -9, -11]] ∧ e.ReadsExisting s.conflicts ∧
      ∀ c ∈ e.conflictClausesLazy s.conflicts, Occurs c e.conflictClausesEager := by
  refine ⟨by decide +kernel, by decide +kernel, by decide +kernel,
    readsExisting_of_reachable (Task.swapping_sets _) binomialAtMost_contract
      Task.swapping_distinctGoals (Reachable.start.after ?_)⟩
  decide +kernel

/-! ## Refinements -/

/-- Iterations on one delta, with the answers which had conflicts. -/
inductive Refinement (lib : Externals) (set : Settings) (oracle : Oracle) (start : ISolver) :
    List Answer → ISolver → Prop
  | start : Refinement lib set oracle start [] start
  | step {answers : List Answer} {s s' : ISolver} {answer : Answer}
      (before : Refinement lib set oracle start answers s)
      (allowed : oracle (s.queried lib set) answer)
      (again : s.iteration lib set answer = .again s') (same : s'.firstTry = false) :
      Refinement lib set oracle start (answers ++ [answer]) s'

/-- An iteration which stays on its delta has found conflicts. -/
theorem conflicted_of_again (sat : set.backend = .sat)
    (again : s.iteration lib set answer = .again s') (same : s'.firstTry = false) :
    Conflicted lib set s answer s' := by
  rcases iteration_again sat again with conflicted | advanced
  · exact conflicted
  · rw [advanced.firstTry] at same
    cases same

/-- Outcomes after which the delta has no plan. -/
def Outcome.Failed : Outcome → Prop
  | .again s => s.firstTry = true
  | .done _ ret => ret = -1

theorem not_found_of_failed (sat : set.backend = .sat)
    (failed : (s.iteration lib set answer).Failed) : answer.ret ≠ 10 := by
  cases outcome : s.iteration lib set answer with
  | again s' =>
    rw [outcome] at failed
    rcases iteration_again sat outcome with conflicted | advanced
    · exact absurd (conflicted.firstTry.symm.trans failed) (by decide)
    · exact advanced.ret
  | done final ret =>
    rw [outcome] at failed
    obtain rfl : ret = -1 := failed
    exact iteration_failed sat outcome

/-- A refinement adds clauses one of which the last model falsifies. -/
theorem Called.exists_falsified (called : Called task lib set hi s) (sat : set.backend = .sat)
    (contract : AtMostContract lib.encodeAtMostK) (goals : task.DistinctGoals)
    (truthful : Truthful (s.queried lib set) answer)
    (conflicted : Conflicted lib set s answer s') :
    ∃ c ∈ (s'.formula lib set).clauses, ¬Clause.holds answer.model c = true := by
  have models := truthful conflicted.ret
  rw [queried_satSolver sat, Option.getD_some] at models
  obtain ⟨pos, follows, len, -, shown, -⟩ := called.exists_follows contract models
  have present := conflicted.present
  have conflicts := conflicted.conflicts
  rw [queried_encoder sat, shown, ← called.config] at present conflicts
  obtain ⟨c, member, fails⟩ := follows.exists_falsified called.poses called.prepared
    (called.routes contract models) goals present
  refine ⟨c, ?_, fails⟩
  have encoder : s'.encoder = (s.formula lib set).encoder :=
    conflicted.encoder.trans (queried_encoder sat)
  rw [formula, conflicted.firstTry, (Encoder.createFormula_again _ _ _ _ _).2.1,
    Encoder.conflictClauses, encoder, called.config, conflicted.lazy, conflicts]
  exact member

/-- Clauses on demand hold for every valid plan. -/
theorem Called.conflictClauses_hold (called : Called task lib set hi s) (goals : task.DistinctGoals)
    {pos : ℕ → ℕ → ℕ} (valid : task.Valid set.config.movement pos) {σ : Valuation}
    (represents : (s.formula lib set).encoder.Represents σ (s.formula lib set).encoder.deadline pos)
    {c : Clause} (member : c ∈ (s.formula lib set).encoder.conflictClausesLazy s.conflicts) :
    Clause.holds σ c = true := by
  rw [← called.config] at valid
  have apart := represents.apart called.prepared.setting called.poses valid
  have holds := ((Encoder.conflictClausesEager_expresses called.prepared.ready).models_iff σ).mpr apart
  exact (Encoder.conflictClausesLazy_occurs called.poses called.prepared (called.recorded goals)
    member).holds holds

/-- The clauses of a further call are over the variables of the tables. -/
theorem Resumed.below (resumed : Resumed task lib set hi s) (goals : task.DistinctGoals) {c : Clause}
    (member : c ∈ (s.formula lib set).clauses) : Below hi [c] := by
  rw [formula, resumed.firstTry, (Encoder.createFormula_again _ _ _ _ _).2.1, Encoder.conflictClauses,
    resumed.config, resumed.lazy] at member
  obtain ⟨d, memberD, same⟩ := Encoder.conflictClausesLazy_occurs resumed.poses resumed.prepared
    (resumed.recorded goals) member
  have eager := (Encoder.conflictClausesEager_expresses resumed.prepared.ready).below d memberD
  rw [below_cons]
  exact ⟨fun l inside => eager l ((same l).mp inside), below_nil hi⟩

/-- What is known during the refinements of one delta, whose tables have the variables below
`hi`. -/
structure Refined (task : Task) (lib : Externals) (set : Settings) (hi : ℤ) (delta : ℕ)
    (answers : List Answer) (s : ISolver) : Prop where
  called : Called task lib set hi s
  delta : (s.formula lib set).encoder.delta = delta
  falsified : ∀ answer ∈ answers, ∃ c ∈ s.loaded lib set,
    Below hi [c] ∧ ¬Clause.holds answer.model c = true
  differ : answers.Pairwise fun answer answer' => ¬Agree hi answer.model answer'.model

theorem Refined.step {delta : ℕ} (refined : Refined task lib set hi delta answers s)
    (sat : set.backend = .sat) (contract : AtMostContract lib.encodeAtMostK)
    (goals : task.DistinctGoals) (truthful : Truthful (s.queried lib set) answer)
    (conflicted : Conflicted lib set s answer s') :
    Refined task lib set hi delta (answers ++ [answer]) s' := by
  have resumed := refined.called.resumed sat contract truthful conflicted
  have models := truthful conflicted.ret
  rw [queried_satSolver sat, Option.getD_some] at models
  have solver : s'.loaded lib set = s.loaded lib set ++ (s'.formula lib set).clauses := by
    rw [loaded, conflicted.satSolver, queried_satSolver sat, Option.getD_some]
  refine ⟨resumed.called, ?_, fun a member => ?_, ?_⟩
  · rw [formula, conflicted.firstTry, (Encoder.createFormula_again _ _ _ _ _).1, conflicted.encoder,
      queried_encoder sat]
    exact refined.delta
  · rw [solver]
    rcases List.mem_append.mp member with earlier | last
    · obtain ⟨c, inside, below, fails⟩ := refined.falsified a earlier
      exact ⟨c, List.mem_append_left _ inside, below, fails⟩
    · obtain rfl := List.mem_singleton.mp last
      obtain ⟨c, inside, fails⟩ := refined.called.exists_falsified sat contract goals truthful
        conflicted
      exact ⟨c, List.mem_append_right _ inside, resumed.below goals inside, fails⟩
  · refine List.pairwise_append.mpr ⟨refined.differ, List.pairwise_singleton _ _, ?_⟩
    intro a earlier b last agree
    obtain rfl := List.mem_singleton.mp last
    obtain ⟨c, inside, below, fails⟩ := refined.falsified a earlier
    have holds := (models_congr below agree).mpr (models_cons.mpr ⟨models c inside, models_nil _⟩)
    exact fails (models_cons.mp holds).1

theorem Refinement.refined (sat : set.backend = .sat) (contract : AtMostContract lib.encodeAtMostK)
    (goals : task.DistinctGoals) (fresh : Fresh task set s)
    (refinement : Refinement lib set Truthful s answers s') :
    Refined task lib set (s.encoder.createVariables lib s.nrVars).2 s.encoder.delta answers s' := by
  induction refinement with
  | start =>
    refine ⟨fresh.called contract, ?_, by simp, .nil⟩
    rw [formula, fresh.firstTry]
    exact (s.encoder.createVariables_members lib s.nrVars).2.2.2.2
  | step _ allowed again same ih =>
    exact ih.step sat contract goals allowed (conflicted_of_again sat again same)

theorem Refinement.mono {oracle weaker : Oracle} (weak : ∀ q answer, oracle q answer → weaker q answer)
    (refinement : Refinement lib set oracle s answers s') :
    Refinement lib set weaker s answers s' := by
  induction refinement with
  | start => exact .start
  | step _ allowed again same ih => exact .step ih (weak _ _ allowed) again same

/-! ## The end of the loop -/

/-- The plan of a final call is valid and within the bound of the cost. -/
theorem Called.finished (called : Called task lib set hi s) (sat : set.backend = .sat)
    (contract : AtMostContract lib.encodeAtMostK) (truthful : Truthful (s.queried lib set) answer)
    {final : ISolver} (finished : Finished lib set s answer final) :
    ∃ pos, ((s.queried lib set).encoder.readPlan answer.model).Shows task.ags task.inst.goalOf pos ∧
      task.Valid set.config.movement pos ∧ (task.cost pos set.config.costFunction : ℤ) ≤
        task.lowerBound set.config.costFunction + (s.formula lib set).encoder.delta := by
  have models := truthful finished.ret
  rw [queried_satSolver sat, Option.getD_some] at models
  have routes := called.routes contract models
  obtain ⟨pos, follows, shows⟩ := called.exists_follows contract models
  rw [queried_encoder sat]
  refine ⟨pos, shows, ?_, ?_⟩
  · cases kind : set.config.lazyConst with
    | eager =>
      rw [← called.config]
      apply follows.valid called.poses called.prepared routes.regulated
      exact ((Encoder.conflictClausesEager_expresses called.prepared.ready).models_iff _).mp
        (models.mono (called.eager kind))
    | lazy =>
      obtain ⟨len, long, shown, parked⟩ := shows
      have quiet := finished.quiet kind
      rw [queried_encoder sat, shown] at quiet
      exact Task.valid_of_not_present (follows.walks called.poses called.prepared) long parked quiet
  · rw [← called.config]
    exact follows.cost_le called.poses called.prepared routes.regulated

/-- The clauses of the eager encoding for the delta of a state. -/
def eagerClauses (lib : Externals) (set : Settings) (s : ISolver) : List Clause :=
  (s.encoder.eager.createFormula lib true set.useAvoid s.nrVars ⟨[], [], []⟩).clauses

/-- A cheap valid plan is all that the eager encoding needs. -/
theorem Fresh.eager_iff (fresh : Fresh task set s) (contract : AtMostContract lib.encodeAtMostK) :
    (∃ σ, Models σ (s.eagerClauses lib set)) ↔ ∃ pos, task.Valid set.config.movement pos ∧
      (task.cost pos set.config.costFunction : ℤ) ≤
        task.lowerBound set.config.costFunction + s.encoder.delta := by
  have poses : task.Poses s.encoder.eager :=
    ⟨fresh.poses.inst, fresh.poses.agents, fresh.poses.vertices⟩
  rw [← fresh.config]
  constructor
  · rintro ⟨σ, models⟩
    obtain ⟨pos, -, valid, -, cheap⟩ := createFormula_sound contract poses rfl fresh.pos models
    exact ⟨pos, valid, cheap⟩
  · rintro ⟨pos, valid, cheap⟩
    obtain ⟨σ, models, -⟩ := createFormula_complete contract poses rfl fresh.pos valid cheap
    exact ⟨σ, models⟩

/-- A failed call with CaDiCaL means that there is no cheap valid plan. -/
theorem Called.failed (called : Called task lib set hi s) (sat : set.backend = .sat)
    (contract : AtMostContract lib.encodeAtMostK) (goals : task.DistinctGoals)
    (allowed : CaDiCaL (s.queried lib set) answer) (ret : answer.ret ≠ 10) {pos : ℕ → ℕ → ℕ}
    (valid : task.Valid set.config.movement pos) :
    task.lowerBound set.config.costFunction + (s.formula lib set).encoder.delta <
      task.cost pos set.config.costFunction := by
  by_contra cheap
  obtain ⟨σ, models⟩ := called.complete contract goals valid (not_lt.mp cheap)
  rcases allowed with ⟨ten, -⟩ | ⟨-, none⟩
  · exact ret ten
  · rw [queried_satSolver sat, Option.getD_some] at none
    exact none σ models

/-! ## Agreement with the eager encoding -/

/-- What holds after the refinements `answers` of the delta which began in state `start`. -/
structure AgreesWithEager (task : Task) (lib : Externals) (set : Settings) (start : ISolver)
    (answers : List Answer) (s : ISolver) : Prop where
  /-- The next refinement adds a clause which its model falsifies. -/
  progress : ∀ answer s', CaDiCaL (s.queried lib set) answer →
    s.iteration lib set answer = .again s' → s'.firstTry = false →
      ∃ c ∈ (s'.formula lib set).clauses, ¬Clause.holds answer.model c = true
  /-- The conflict clauses of the next call hold for every valid plan. -/
  safe : ∀ c ∈ (s.formula lib set).encoder.conflictClauses s.conflicts, ∀ pos,
    task.Valid set.config.movement pos → ∀ σ, (s.formula lib set).encoder.Represents σ
      (s.formula lib set).encoder.deadline pos → Clause.holds σ c = true
  /-- No two models agree on the variables of the tables. -/
  differ : answers.Pairwise fun answer answer' =>
    ¬Agree (start.encoder.createVariables lib start.nrVars).2 answer.model answer'.model
  /-- So there are finitely many refinements. -/
  bounded : answers.length ≤ 2 ^ (start.encoder.createVariables lib start.nrVars).2.toNat
  /-- The loop succeeds only with a valid plan, which the eager encoding has too. -/
  found : ∀ answer final, CaDiCaL (s.queried lib set) answer →
    s.iteration lib set answer = .done final 0 → (∃ σ, Models σ (start.eagerClauses lib set)) ∧
      ∃ pos, final.plan.Shows task.ags task.inst.goalOf pos ∧ task.Valid set.config.movement pos
  /-- It gives up the delta only if the eager encoding is unsatisfiable. -/
  failed : ∀ answer, CaDiCaL (s.queried lib set) answer → (s.iteration lib set answer).Failed →
    ¬∃ σ, Models σ (start.eagerClauses lib set)

/-- Lazy solving agrees with eager solving and terminates. -/
theorem lazy_agreesWithEager (sets : task.Sets set) (contract : AtMostContract lib.encodeAtMostK)
    (lazily : set.config.lazyConst = .lazy) (goals : task.DistinctGoals) {cnfPrintable : List Line}
    (reachable : Reachable lib set CaDiCaL (init set cnfPrintable) s) (first : s.firstTry = true)
    (refinement : Refinement lib set CaDiCaL s answers s') :
    AgreesWithEager task lib set s answers s' := by
  have sat := sets.backend
  have fresh : Fresh task set s := by
    rcases (reachable.mono fun _ _ => CaDiCaL.truthful).fresh_or_resumed sets contract with
      fresh | ⟨hi, resumed⟩
    · exact fresh
    · exact absurd (first.symm.trans resumed.firstTry) (by decide)
  have refined := (refinement.mono fun _ _ => CaDiCaL.truthful).refined sat contract goals fresh
  have called := refined.called
  refine ⟨?_, ?_, refined.differ, ?_, ?_, ?_⟩
  · intro answer s'' allowed again same
    exact called.exists_falsified sat contract goals allowed.truthful
      (conflicted_of_again sat again same)
  · intro c member pos valid σ represents
    rw [Encoder.conflictClauses, called.config, lazily] at member
    exact called.conflictClauses_hold goals valid represents member
  · have bound := length_le_of_not_agree (List.pairwise_map.mpr refined.differ)
    rwa [List.length_map] at bound
  · intro answer final allowed done
    have finished := iteration_done sat done
    obtain ⟨pos, shows, valid, cheap⟩ := called.finished sat contract allowed.truthful finished
    rw [refined.delta] at cheap
    refine ⟨(fresh.eager_iff contract).mpr ⟨pos, valid, cheap⟩, pos, ?_, valid⟩
    rwa [finished.plan (by simp [wantsPlan, lazily])]
  · intro answer allowed failed satisfiable
    obtain ⟨pos, valid, cheap⟩ := (fresh.eager_iff contract).mp satisfiable
    have costly := called.failed sat contract goals allowed (not_found_of_failed sat failed) valid
    rw [refined.delta] at costly
    omega

theorem Refinement.single {oracle : Oracle} (allowed : oracle (s.queried lib set) answer)
    (again : (s.iteration lib set answer).Again)
    (same : (s.after lib set [answer]).firstTry = false) :
    Refinement lib set oracle s [answer] (s.after lib set [answer]) :=
  .step .start allowed again.eq same

/-- The agents swap at once for the first delta, and one timestep later for the second one. -/
theorem lazy_agreesWithEager_swapping :
    let set := Settings.swapping ⟨.at_, .mks, .parallel, .lazy, .allow⟩
    let first := (init set []).after .binomial set
      [⟨0, 0, 10, fun _ => true, false⟩, ⟨0, 0, 20, fun _ => true, false⟩]
    let swap : Answer := ⟨0, 0, 10, fun x => x ≠ 7 ∧ x ≠ 9, false⟩
    let s := first.after .binomial set [swap]
    first.encoder.delta = 1 ∧ s.encoder.delta = 1 ∧
      s.conflicts.swap = [⟨0, 1, some 0, some 1, 1⟩] ∧
      AgreesWithEager .swapping .binomial set first [swap] s := by
  intro set first swap s
  -- the formula of the first delta, with the clause which the swap has added
  have held : (((init set []).after .binomial set [⟨0, 0, 10, fun _ => true, false⟩]).queried
      .binomial set).satSolver =
        some [[1], [4], [2], [3], [2, -1], [3, -4], [-1, -2, -3, -4]] := by decide +kernel
  have none (σ : Valuation) : ¬Models σ [[1], [4], [2], [3], [2, -1], [3, -4], [-1, -2, -3, -4]] := by
    intro models
    obtain ⟨one, four, two, three, -, -, last⟩ := by
      simpa [Models, Clause.holds, litHolds] using models
    simp [one, two, three, four] at last
  have answered : Answered .binomial set CaDiCaL (init set [])
      [⟨0, 0, 10, fun _ => true, false⟩, ⟨0, 0, 20, fun _ => true, false⟩] := by
    refine ⟨.inl ⟨rfl, ?_⟩, ?_, .inr ⟨rfl, fun σ models => ?_⟩, ?_, trivial⟩
    · decide +kernel
    · decide +kernel
    · exact none σ ((congrArg (fun F => Models σ (F.getD [])) held).mp models)
    · decide +kernel
  refine ⟨by decide +kernel, by decide +kernel, by decide +kernel, ?_⟩
  refine lazy_agreesWithEager (Task.swapping_sets _) binomialAtMost_contract rfl
    Task.swapping_distinctGoals (Reachable.start.after answered) ?_ (.single (.inl ⟨rfl, ?_⟩) ?_ ?_)
  · decide +kernel
  · decide +kernel
  · decide +kernel
  · decide +kernel

end ISolver

end MAPFEncodings

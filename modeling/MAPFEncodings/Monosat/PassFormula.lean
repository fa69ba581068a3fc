import MAPFEncodings.Monosat.Pass

/-! # Exactness of the formula with passes

A model of the file consists of a route for every agent on true variables, and of the clauses on
conflicts, parked agents, ghost copies and delays which the eager formulas share.
-/

namespace MAPFEncodings

open Cnf PathFinding

namespace Encoder

variable {e : Encoder} {lib : Externals} {task : Task} {σ τ : Valuation} {L : ℕ → ℕ} {hi lit : ℤ}
  {pos : ℕ → ℕ → ℕ}

/-! ## Clauses -/

/-- The clauses of the file besides the requirements of reachability. -/
def passClauses (e : Encoder) (lib : Externals) (lit : ℤ) : List Clause × ℤ :=
  let positions := if e.config.costFunction = .soc then e.createPossitionNoneAtGoal else []
  let conflicts := e.createConfVertex ++ e.createConfSwappingPass
  let duplicates := e.duplicateClauses lib lit
  let cost := e.costClauses lib duplicates.2
  (positions ++ conflicts ++ conflicts ++ duplicates.1 ++ cost.1, cost.2)

theorem passClauses_block (contract : AtMostContract lib.encodeAtMostK) (prepared : e.Prepared L hi)
    (kind : e.config.variableKind = .pass) (parallel : e.config.movement = .parallel)
    (le : hi ≤ lit) : Block lit (e.passClauses lib lit).2 (e.passClauses lib lit).1 fun σ =>
      e.Regulated L σ ∧ e.Apart σ := by
  have ready := prepared.ready
  have duplicates := duplicateClauses_block contract ready.pos ready.atReady le
  have cost := costClauses_block contract ready.pos ready.windows ready.atReady
    ready.slack (le.trans duplicates.le)
  have auxiliary := duplicates.append cost fun σ τ agree bounded soc pos => by
    rw [← Finset.sum_congr rfl fun a memA => delay_congr fun d _ =>
      lateAt_congr ready.windows ready.atReady (agree.mono le) (Finset.mem_range.mp memA) d]
    exact bounded soc pos
  have guards : Expresses lit e.createPossitionNoneAtGoal fun σ => ∀ a < e.agents, ∀ b < e.agents,
      ∀ t, (L a : ℤ) < t → ¬e.At σ b (e.inst.goalOf a) t :=
    ((createPossitionNoneAtGoal_expresses ready.windows ready.atReady).mono le).congr fun σ =>
      forall₂_congr fun a boundA => by rw [prepared.setting.goalTime_eq boundA]
  have positions := Expresses.guard fun _ : e.config.costFunction = .soc => guards
  have conflicts : Expresses lit (e.createConfVertex ++ e.createConfSwappingPass) e.Apart := by
    have eager := conflictClausesEager_expresses ready
    rw [conflictClausesEager, createConfMoving, kind, parallel] at eager
    exact eager.mono le
  refine (((auxiliary.withBase positions).withBase conflicts).of_mem_iff fun c => ?_).congr
    fun σ => ?_
  · simp only [passClauses, List.mem_append]
    tauto
  · constructor
    · rintro ⟨⟨⟨single, bounded⟩, guarded⟩, apart⟩
      exact ⟨⟨guarded, single, bounded⟩, apart⟩
    · rintro ⟨⟨guarded, single, bounded⟩, apart⟩
      exact ⟨⟨⟨single, bounded⟩, guarded⟩, apart⟩

/-! ## Lines -/

/-- The file of a call, over the encoder which it leaves behind. -/
theorem createFormulaMonosatPass_file (lib : Externals) (kind : e.config.variableKind = .pass)
    (useAvoid : Bool) :
    let e' := (e.createVariables lib 1).1
    let hi := (e.createVariables lib 1).2
    let f := e.createFormulaMonosatPass lib useAvoid
    f.encoder = e' ∧ f.lit = (e'.passClauses lib (hi + e'.agents)).2 ∧
      (∀ g m n x, Line.edge g m n x ∈ f.lines ↔
        ∃ a < e'.agents, Line.edge g m n x ∈ e'.passGraph a (hi + a)) ∧
      (∀ a < e'.agents, ∀ line ∈ e'.passGraph a (hi + a), line ∈ f.lines) ∧
      ∀ σ lines, (∀ line ∈ f.lines, line.Holds lines σ) ↔
        ((∀ a < e'.agents, ∀ line ∈ e'.passGraph a (hi + a), line.Holds lines σ) ∧
          Models σ (e'.passClauses lib (hi + e'.agents)).1) ∧
          Models σ (if useAvoid then e'.createConstAvoid else []) := by
  intro e' hi f
  have tables : e.createVariables lib 1 =
      (e.createAt lib 1 e.timesteps).1.createPass lib (e.createAt lib 1 e.timesteps).2
        e.timesteps := by
    rw [createVariables, kind]
  have same : f.encoder = e' ∧ f.lit = (e'.passClauses lib (hi + e'.agents)).2 ∧ f.lines =
      ((List.range e'.agents).flatMap fun a => e'.passGraph a (hi + a)) ++
        emitLines .unit
          (if e'.config.costFunction = .soc then e'.createPossitionNoneAtGoal else []) ++
        emitLines .conflict (e'.createConfVertex ++ e'.createConfSwappingPass) ++
        emitLines .conflict (e'.createConfVertex ++ e'.createConfSwappingPass) ++
        emitLines .dupli (e'.duplicateClauses lib (hi + e'.agents)).1 ++
        emitLines .soc (e'.costClauses lib (e'.duplicateClauses lib (hi + e'.agents)).2).1 ++
        emitLines .conflict (if useAvoid then e'.createConstAvoid else []) := by
    have made := e.createFormulaMonosatPass_lines lib useAvoid
    have steps : (e.createAt lib 1 e.timesteps).1.timesteps = e.timesteps := rfl
    simp only [steps, ← tables, createMoveGraphMonosatPass_eq] at made
    obtain ⟨encoder, lines, last⟩ := made
    exact ⟨encoder, last, lines⟩
  obtain ⟨encoder, last, lines⟩ := same
  refine ⟨encoder, last, fun g m n x => ?_, fun a bound line member => ?_, fun σ lines' => ?_⟩
  · rw [lines]
    simp only [List.mem_append, edge_notMem_emitLines, or_false, List.mem_flatMap, List.mem_range]
  · rw [lines]
    simp only [List.mem_append, List.mem_flatMap, List.mem_range]
    exact .inl (.inl (.inl (.inl (.inl (.inl ⟨a, bound, member⟩)))))
  · rw [lines]
    simp only [List.forall_mem_append, holds_emitLines, passClauses, models_append,
      List.mem_flatMap, List.mem_range, forall_exists_index, and_imp, and_assoc]
    refine and_congr_left fun _ => ?_
    rw [forall_comm]
    refine forall_congr' fun a => ?_
    exact forall_comm

/-- The file of a call without locations to be avoided. -/
theorem createFormulaMonosatPass_eq (lib : Externals) (kind : e.config.variableKind = .pass)
    (empty : e.inst.avoidLocations = []) (useAvoid : Bool) :
    let e' := (e.createVariables lib 1).1
    let hi := (e.createVariables lib 1).2
    let f := e.createFormulaMonosatPass lib useAvoid
    f.encoder = e' ∧ f.lit = (e'.passClauses lib (hi + e'.agents)).2 ∧
      (∀ g m n x, Line.edge g m n x ∈ f.lines ↔
        ∃ a < e'.agents, Line.edge g m n x ∈ e'.passGraph a (hi + a)) ∧
      (∀ a < e'.agents, ∀ line ∈ e'.passGraph a (hi + a), line ∈ f.lines) ∧
      ∀ σ lines, (∀ line ∈ f.lines, line.Holds lines σ) ↔
        (∀ a < e'.agents, ∀ line ∈ e'.passGraph a (hi + a), line.Holds lines σ) ∧
          Models σ (e'.passClauses lib (hi + e'.agents)).1 := by
  intro e' hi f
  have noAvoid : e'.createConstAvoid = [] := by
    rw [createConstAvoid, (createVariables_members e lib 1).1, empty]
    rfl
  obtain ⟨encoder, last, edges, present, holds⟩ := createFormulaMonosatPass_file lib kind useAvoid
  refine ⟨encoder, last, edges, present, fun σ lines => (holds σ lines).trans ?_⟩
  rw [noAvoid, ite_self]
  exact and_iff_left (models_nil σ)

/-- An agent has edges only in its own graph. -/
theorem graph_of_mem_passGraph {a g m n : ℕ} {x : ℤ} (member : Line.edge g m n x ∈ e.passGraph a lit) :
    g = a := by
  simp only [passGraph, List.mem_append, List.mem_cons, List.mem_map, reduceCtorEq, false_or,
    List.not_mem_nil, or_false, Line.edge.injEq, Prod.exists] at member
  obtain ⟨_, _, _, -, rfl, -⟩ := member
  rfl

/-- What a model of the file is. -/
theorem satisfiesLines_pass_iff (poses : task.Poses e) (kind : e.config.variableKind = .pass)
    (useAvoid : Bool) :
    let e' := (e.createVariables lib 1).1
    let hi := (e.createVariables lib 1).2
    SatisfiesLines σ (e.createFormulaMonosatPass lib useAvoid).lines ↔
      (∀ a < e'.agents, σ (hi + a) = true ∧ ∃ w, e'.Travels σ a (e'.deadline a) w) ∧
        Models σ (e'.passClauses lib (hi + e'.agents)).1 := by
  intro e' hi
  obtain ⟨prepared, le⟩ := createVariables_prepared lib 1 poses le_rfl
  rw [← deadline_createVariables e lib 1] at prepared
  have kind' : e'.config.variableKind = .pass := (createVariables_members e lib 1).2.1 ▸ kind
  obtain ⟨-, -, edges, -, holds⟩ := createFormulaMonosatPass_eq lib kind poses.noAvoid
    useAvoid
  rw [SatisfiesLines, holds]
  refine and_congr_left fun _ => forall₂_congr fun a boundA => ?_
  refine holds_passGraph_iff prepared kind' boundA (by have := prepared.pos; omega)
    fun m n x => (edges a m n x).trans ⟨?_, fun member => ⟨a, boundA, member⟩⟩
  rintro ⟨b, -, member⟩
  obtain rfl := graph_of_mem_passGraph member
  exact member

/-- Routes of all agents are walks which the valuation follows. -/
theorem exists_follows_of_travels (kind : e.config.variableKind = .pass)
    (travels : ∀ a < e.agents, ∃ w, e.Travels σ a (L a) w) :
    ∃ pos, e.Follows σ L pos := by
  choose! w travels using travels
  obtain ⟨pos, early, late⟩ : ∃ pos : ℕ → ℕ → ℕ, (∀ a t, t ≤ L a → pos a t = w a t) ∧
      ∀ a t, L a < t → pos a t = e.inst.goalOf a :=
    ⟨fun a t => if t ≤ L a then w a t else e.inst.goalOf a, fun _ _ le => if_pos le,
      fun _ _ lt => if_neg (by omega)⟩
  refine ⟨pos, fun a boundA => ?_, fun a boundA t after => ?_, fun a boundA t le => ?_,
    fun a boundA t le => ?_, fun a boundA t before => ?_⟩
  · rw [early a 0 (Nat.zero_le _), (travels a boundA).starts]
  · rcases after.eq_or_lt with rfl | lt
    · rw [early a _ le_rfl, (travels a boundA).ends]
    · exact late a t lt
  · rw [early a t le]
    exact (travels a boundA).cells t le
  · rw [early a t le]
    exact (travels a boundA).positions t le
  · obtain ⟨dir, next, passes⟩ := (travels a boundA).passes t before
    rw [early a t before.le, early a (t + 1) before]
    refine ⟨dir, next, ?_⟩
    simpa only [Candidate, kind, add_sub_cancel_right] using passes

/-- A model shows routes of all agents, and satisfies the clauses about them. -/
theorem exists_follows_of_satisfiesLines (contract : AtMostContract lib.encodeAtMostK)
    (poses : task.Poses e) (kind : e.config.variableKind = .pass)
    (parallel : e.config.movement = .parallel) {useAvoid : Bool}
    (satisfies : SatisfiesLines σ (e.createFormulaMonosatPass lib useAvoid).lines) :
    let e' := (e.createVariables lib 1).1
    (∃ pos, e'.Follows σ e'.deadline pos) ∧ e'.Regulated e'.deadline σ ∧ e'.Apart σ := by
  intro e'
  obtain ⟨prepared, -⟩ := createVariables_prepared lib 1 poses le_rfl
  rw [← deadline_createVariables e lib 1] at prepared
  have members := createVariables_members e lib 1
  have kind' : e'.config.variableKind = .pass := members.2.1 ▸ kind
  have parallel' : e'.config.movement = .parallel := members.2.1 ▸ parallel
  obtain ⟨routes, models⟩ := (satisfiesLines_pass_iff poses kind useAvoid).mp satisfies
  have block := passClauses_block contract prepared kind' parallel'
    (le_add_of_nonneg_right (Int.natCast_nonneg e'.agents))
  exact ⟨exists_follows_of_travels kind' fun a boundA => (routes a boundA).2, block.sound models⟩

/-- Every model of the file contains a valid plan within the bound of the cost. -/
theorem monosatPass_sound (contract : AtMostContract lib.encodeAtMostK) (poses : task.Poses e)
    (kind : e.config.variableKind = .pass) (parallel : e.config.movement = .parallel)
    {useAvoid : Bool}
    (satisfies : SatisfiesLines σ (e.createFormulaMonosatPass lib useAvoid).lines) :
    ∃ pos, task.Valid .parallel pos ∧ (task.cost pos e.config.costFunction : ℤ) ≤
      task.lowerBound e.config.costFunction + e.delta := by
  obtain ⟨prepared, -⟩ := createVariables_prepared lib 1 poses le_rfl
  rw [← deadline_createVariables e lib 1] at prepared
  obtain ⟨-, config, -, -, delta⟩ := createVariables_members e lib 1
  obtain ⟨⟨pos, follows⟩, regulated, apart⟩ :=
    exists_follows_of_satisfiesLines contract poses kind parallel satisfies
  have poses' := @createVariables_poses e lib task 1 poses
  have valid := follows.valid poses' prepared regulated apart
  have cheap := Follows.cost_le poses' prepared regulated follows
  rw [config, parallel] at valid
  rw [config, delta] at cheap
  exact ⟨pos, valid, cheap⟩

theorem Represents.travels (represents : e.Represents σ L pos) (setting : e.Setting L)
    (arrives : e.Arrives L pos) (kind : e.config.variableKind = .pass) {a : ℕ}
    (boundA : a < e.agents) : e.Travels σ a (L a) (pos a) where
  starts := arrives.starts a boundA
  ends := arrives.parks a boundA _ le_rfl
  cells t _ := arrives.cell setting boundA t
  positions t le := (represents.positions a boundA _ (arrives.cell setting boundA t) t).mpr
    ⟨t, rfl, le, rfl⟩
  passes t before := by
    obtain ⟨dir, next⟩ := arrives.exists_dir setting boundA t
    exact ⟨dir, next, (represents.passes kind a boundA _ (arrives.cell setting boundA t) dir t).mpr
      ⟨t, rfl, before, rfl, next⟩⟩

/-- Every valid plan within the bound of the cost is represented by a model of the file. -/
theorem monosatPass_represents (contract : AtMostContract lib.encodeAtMostK) (poses : task.Poses e)
    (kind : e.config.variableKind = .pass) (parallel : e.config.movement = .parallel)
    (useAvoid : Bool) (valid : task.Valid .parallel pos)
    (cheap : (task.cost pos e.config.costFunction : ℤ) ≤
      task.lowerBound e.config.costFunction + e.delta) :
    ∃ σ, SatisfiesLines σ (e.createFormulaMonosatPass lib useAvoid).lines ∧
      (e.createVariables lib 1).1.Represents σ (e.createVariables lib 1).1.deadline pos := by
  let e' := (e.createVariables lib 1).1
  let hi := (e.createVariables lib 1).2
  obtain ⟨prepared, -⟩ := createVariables_prepared lib 1 poses le_rfl
  rw [← deadline_createVariables e lib 1] at prepared
  obtain ⟨-, config, -, -, delta⟩ := createVariables_members e lib 1
  have kind' : e'.config.variableKind = .pass := config ▸ kind
  have parallel' : e'.config.movement = .parallel := config ▸ parallel
  have poses' := @createVariables_poses e lib task 1 poses
  have valid' : task.Valid e'.config.movement pos := parallel' ▸ valid
  have cheap' : (task.cost pos e'.config.costFunction : ℤ) ≤
      task.lowerBound e'.config.costFunction + e'.delta := by rw [config, delta]; exact cheap
  have arrives := arrives_of_cost_le poses' valid.walks cheap'
  obtain ⟨σ, represents⟩ := prepared.exists_represents arrives
  -- the literals of the reach lines come directly after the tables
  let chosen : Valuation := fun x => if x < hi then σ x else true
  have tables : Agree hi σ chosen := fun x _ below => (if_pos below).symm
  have reads := represents.congr prepared tables
  have le : hi ≤ hi + e'.agents := le_add_of_nonneg_right (Int.natCast_nonneg _)
  obtain ⟨τ, agree, models⟩ := (passClauses_block contract prepared kind' parallel' le).complete
    (σ := chosen) ⟨(reads.routes prepared poses' valid' cheap').regulated,
      reads.apart prepared.setting poses' valid'⟩
  have shows := reads.congr prepared (agree.mono le)
  refine ⟨τ, (satisfiesLines_pass_iff poses kind useAvoid).mpr ⟨fun a boundA => ⟨?_, pos a,
    shows.travels prepared.setting arrives kind' boundA⟩, models⟩, shows⟩
  have positive : 1 ≤ hi := prepared.pos
  have inside : (a : ℤ) < e'.agents := Int.ofNat_lt.mpr boundA
  rw [← agree (hi + a) (by omega) (by omega)]
  exact if_neg (by omega)

end Encoder

section

variable {lib : Externals} {task : Task} {e : Encoder}

/-- The file for `variables = pass` has a model exactly if there is a valid plan within the bound of
the cost. Its node numbers tell positions apart, and the required paths are walks in time. -/
theorem createFormulaMonosatPass_exact (contract : AtMostContract lib.encodeAtMostK)
    (poses : task.Poses e) (kind : e.config.variableKind = .pass)
    (parallel : e.config.movement = .parallel) (useAvoid : Bool) :
    let f := e.createFormulaMonosatPass lib useAvoid
    ((∃ σ, SatisfiesLines σ f.lines) ↔ ∃ pos, task.Valid .parallel pos ∧
      (task.cost pos e.config.costFunction : ℤ) ≤
        task.lowerBound e.config.costFunction + e.delta) ∧
    ∀ a < task.ags,
      (∀ v < f.encoder.vertices, ∀ t, (f.encoder.atEntry a v).Covers t →
        ∀ v' < f.encoder.vertices, ∀ t', (f.encoder.atEntry a v').Covers t' →
          ∀ duplicate duplicate', f.encoder.positionNode a v t duplicate =
            f.encoder.positionNode a v' t' duplicate' → v = v' ∧ t = t' ∧ duplicate = duplicate') ∧
      let source := f.encoder.positionNode a (task.inst.startOf a) 0 false
      let target := f.encoder.positionNode a (task.inst.goalOf a) (e.deadline a) true
      (∃ x, Line.reach a source target x ∈ f.lines ∧ Line.clause .unit [x] ∈ f.lines) ∧
      ∀ σ, Relation.ReflTransGen (LinkedIn f.lines a σ) source target ↔
        ∃ w, f.encoder.Travels σ a (e.deadline a) w := by
  intro f
  refine ⟨⟨fun ⟨σ, satisfies⟩ => Encoder.monosatPass_sound contract poses kind parallel satisfies,
    fun ⟨pos, valid, cheap⟩ => ?_⟩, ?_⟩
  · obtain ⟨σ, satisfies, -⟩ :=
      Encoder.monosatPass_represents contract poses kind parallel useAvoid valid cheap
    exact ⟨σ, satisfies⟩
  intro a bound
  obtain ⟨prepared, -⟩ := Encoder.createVariables_prepared lib 1 poses le_rfl
  obtain ⟨inst, config, agents, -, -⟩ := e.createVariables_members lib 1
  obtain ⟨encoder, -, edges, present, -⟩ := Encoder.createFormulaMonosatPass_eq lib kind
    poses.noAvoid useAvoid
  have kind' : (e.createVariables lib 1).1.config.variableKind = .pass := config ▸ kind
  have boundA : a < (e.createVariables lib 1).1.agents := by rwa [agents, poses.agents]
  rw [← poses.inst, ← inst]
  simp only [f, encoder]
  refine ⟨fun v boundV t covers v' boundV' t' covers' _ _ same =>
    Encoder.positionNode_inj prepared kind' boundA boundV boundV' covers covers' same,
    ⟨(e.createVariables lib 1).2 + a, present a boundA _ ?_, present a boundA _ ?_⟩, fun σ => ?_⟩
  · exact (Encoder.reach_mem_passGraph_iff prepared kind' boundA).mpr ⟨rfl, rfl, rfl, rfl⟩
  · simp [Encoder.passGraph]
  · refine Encoder.passGraph_reach prepared kind' boundA fun m n x =>
      (edges a m n x).trans ⟨?_, fun member => ⟨a, boundA, member⟩⟩
    rintro ⟨b, -, member⟩
    obtain rfl := Encoder.graph_of_mem_passGraph member
    exact member

theorem createFormulaMonosatPass_exact_rows :
    ∃ σ, SatisfiesLines σ ((Encoder.rows ⟨.pass, .mks, .parallel, .eager, .allow⟩ 1
      ).createFormulaMonosatPass .binomial false).lines :=
  (createFormulaMonosatPass_exact binomialAtMost_contract (Task.rows_poses _ 1) rfl rfl false).1.mpr
    ⟨Task.rowsPlan, ⟨Task.rows_valid.walks, Task.rows_valid.vertexFree, Task.rows_valid.swapFree⟩,
      (Int.ofNat_le.mpr Task.rows_cost).trans (by decide)⟩

end

end MAPFEncodings

import MAPFEncodings.Proofs.Statements

/-! # The sections of a formula

The generators of a section write their lines one after another, and only those against duplicates and
for the cost move the next unused variable on. So the lines of a formula are those of its sections.
-/

namespace MAPFEncodings

open Cnf

/-! ## Calls -/

theorem inCategory_emitLines (kind : ClauseKind) (F : List Clause) :
    ∀ line ∈ Encoder.emitLines kind F, line.InCategory kind := by
  intro line member
  obtain ⟨c, -, rfl⟩ := List.mem_map.mp member
  rfl

/-- Printing the statements of lines gives the lines back. -/
theorem filterMap_line_statements {kind : ClauseKind} {lines : List Line}
    (category : ∀ line ∈ lines, line.InCategory kind) :
    (lines.flatMap Line.statements).filterMap (Statement.line? kind) = lines := by
  induction lines with
  | nil => rfl
  | cons line lines ih =>
    have rest := ih fun line member => category line (List.mem_cons_of_mem _ member)
    have here := category line List.mem_cons_self
    rw [List.flatMap_cons, List.filterMap_append, rest]
    cases line with
    | digraph graph => rfl
    | edge graph source target var => rfl
    | reach graph source target lit => rfl
    | clause kind' c =>
      obtain rfl : kind' = kind := here
      rfl

theorem filterMap_clause_emitLines (kind : ClauseKind) (F : List Clause) :
    (Encoder.emitLines kind F).filterMap Line.clause? = F := by
  rw [Encoder.emitLines, List.filterMap_map]
  exact List.filterMap_some

theorem mem_emitLines_iff {kind kind' : ClauseKind} {c : Clause} {F : List Clause} :
    Line.clause kind c ∈ Encoder.emitLines kind' F ↔ kind = kind' ∧ c ∈ F := by
  simp only [Encoder.emitLines, List.mem_map, Line.clause.injEq]
  constructor
  · rintro ⟨d, member, same, rfl⟩
    exact ⟨same.symm, member⟩
  · rintro ⟨rfl, member⟩
    exact ⟨c, member, rfl, rfl⟩

/-- The clauses of a call are those among its lines. -/
theorem Call.clauses_eq (call : Call) : call.clauses = call.lines.filterMap Line.clause? := by
  rw [Call.clauses, Call.lines, List.filterMap_filterMap]
  refine List.filterMap_congr fun statement _ => ?_
  cases statement <;> rfl

theorem Formula.clauses_eq (f : Formula) : f.clauses = f.lines.filterMap Line.clause? := by
  rw [Formula.clauses, Formula.lines, List.filterMap_flatMap]
  exact List.flatMap_congr fun call _ => call.clauses_eq

theorem Formula.mem_emitted_iff {f : Formula} {kind : ClauseKind} {c : Clause} :
    (kind, c) ∈ f.emitted ↔ Line.clause kind c ∈ f.lines := by
  rw [emitted, List.mem_filterMap]
  constructor
  · rintro ⟨line, member, same⟩
    cases line with
    | clause kind' c' =>
      injection Option.some.inj same with kinds clauses
      exact kinds ▸ clauses ▸ member
    | digraph graph => cases same
    | edge graph source target var => cases same
    | reach graph source target lit => cases same
  · exact fun member => ⟨_, member, rfl⟩

/-- The statements of the call are those of its lines. -/
def Call.Counts (call : Call) : Prop := call.statements = call.lines.flatMap Line.statements

theorem flatMap_statements_calls {calls : List Call} (counts : ∀ call ∈ calls, call.Counts) :
    calls.flatMap Call.statements = (calls.flatMap Call.lines).flatMap Line.statements := by
  rw [List.flatMap_assoc]
  exact List.flatMap_congr counts

namespace Encoder

variable (e : Encoder) (lib : Externals) (conflicts : Conflicts) (lit : ℤ)

theorem inCategory_linesOf (g : Generator) :
    ∀ line ∈ (e.linesOf lib conflicts lit g).1, line.InCategory g.counter := by
  cases g with
  | createMoveGraphMonosatPass =>
    intro line member
    obtain ⟨lines, graph, member⟩ := List.mem_flatten.mp member
    obtain ⟨i, a, -, rfl⟩ := List.mem_mapState_iff.mp graph
    simp only [List.cons_append, List.mem_cons, List.mem_append, List.mem_map, List.not_mem_nil,
      or_false] at member
    obtain rfl | ⟨edge, -, rfl⟩ | rfl | rfl := member <;> first | rfl | trivial
  | createMoveGraphMonosatShift =>
    intro line member
    rcases List.mem_append.mp member with member | member
    · rcases List.mem_cons.mp member with rfl | member
      · trivial
      · obtain ⟨edge, -, rfl⟩ := List.mem_map.mp member
        trivial
    · obtain ⟨lines, goal, member⟩ := List.mem_flatten.mp member
      obtain ⟨i, a, -, rfl⟩ := List.mem_mapState_iff.mp goal
      simp only [List.mem_cons, List.not_mem_nil, or_false] at member
      obtain rfl | rfl := member <;> first | rfl | trivial
  | _ => exact inCategory_emitLines _ _

/-- The lines of a call are those of its generator. -/
theorem lines_call (g : Generator) :
    Call.lines ⟨g, (e.call lib conflicts lit g).1⟩ = (e.linesOf lib conflicts lit g).1 := by
  rw [Call.lines, call_eq]
  exact filterMap_line_statements (e.inCategory_linesOf lib conflicts lit g)

/-- A call prints its lines and counts the clauses among them. -/
theorem counts_call (g : Generator) : Call.Counts ⟨g, (e.call lib conflicts lit g).1⟩ := by
  rw [Call.Counts, lines_call, call_eq]

/-- The lines of some generators, and the next unused variable after them. -/
def linesOfAll (generators : List Generator) : List Line × ℤ :=
  let lines := List.mapState (e.linesOf lib conflicts) lit generators
  (lines.1.flatten, lines.2)

theorem linesOfAll_nil : e.linesOfAll lib conflicts lit [] = ([], lit) := rfl

theorem linesOfAll_cons (g : Generator) (generators : List Generator) :
    e.linesOfAll lib conflicts lit (g :: generators) =
      ((e.linesOf lib conflicts lit g).1 ++
          (e.linesOfAll lib conflicts (e.linesOf lib conflicts lit g).2 generators).1,
        (e.linesOfAll lib conflicts (e.linesOf lib conflicts lit g).2 generators).2) := rfl

theorem linesOfAll_append (generators generators' : List Generator) :
    e.linesOfAll lib conflicts lit (generators ++ generators') =
      ((e.linesOfAll lib conflicts lit generators).1 ++
          (e.linesOfAll lib conflicts (e.linesOfAll lib conflicts lit generators).2 generators').1,
        (e.linesOfAll lib conflicts (e.linesOfAll lib conflicts lit generators).2 generators').2) := by
  simp only [linesOfAll, List.mapState_append, List.flatten_append]

theorem callAll_lines (generators : List Generator) :
    (e.callAll lib conflicts lit generators).1.flatMap Call.lines =
        (e.linesOfAll lib conflicts lit generators).1 ∧
      (e.callAll lib conflicts lit generators).2 = (e.linesOfAll lib conflicts lit generators).2 := by
  induction generators generalizing lit with
  | nil => exact ⟨rfl, rfl⟩
  | cons g generators ih =>
    obtain ⟨lines, last⟩ := ih (e.linesOf lib conflicts lit g).2
    have call := congrArg Prod.snd (e.call_eq lib conflicts lit g)
    unfold callAll at lines last ⊢
    rw [List.mapState_cons, List.flatMap_cons, lines_call, call, lines, last, linesOfAll_cons]
    exact ⟨rfl, rfl⟩

theorem callAll_counts (generators : List Generator) :
    ∀ call ∈ (e.callAll lib conflicts lit generators).1, call.Counts := by
  intro call member
  obtain ⟨i, g, -, rfl⟩ := List.mem_mapState_iff.mp member
  exact e.counts_call lib conflicts _ g

theorem write_counts (sections : List (List Generator)) :
    ∀ call ∈ (e.write lib conflicts lit sections).calls, call.Counts := by
  intro call member
  rw [Formula.calls, write, List.append_nil] at member
  obtain ⟨calls, part, member⟩ := List.mem_flatten.mp member
  obtain ⟨i, generators, -, rfl⟩ := List.mem_mapState_iff.mp part
  exact e.callAll_counts lib conflicts _ generators call member

/-- The sections are written one after another. -/
theorem write_lines (sections : List (List Generator)) :
    (e.write lib conflicts lit sections).lines =
        (e.linesOfAll lib conflicts lit sections.flatten).1 ∧
      (e.write lib conflicts lit sections).lit =
        (e.linesOfAll lib conflicts lit sections.flatten).2 := by
  have calls := List.mapState_flatten (fun lit g => (Call.mk g (e.call lib conflicts lit g).1,
    (e.call lib conflicts lit g).2)) lit sections
  obtain ⟨lines, last⟩ := e.callAll_lines lib conflicts lit sections.flatten
  rw [← lines, ← last]
  unfold write Formula.lines Formula.calls callAll
  rw [List.append_nil, ← calls]
  exact ⟨rfl, rfl⟩

/-! ## Sections -/

/-- The eager conflict clauses besides `CreateConf_Vertex`. -/
def createConfMoving : List Clause :=
  match e.config.movement, e.config.variableKind with
  | .parallel, .at_ => e.createConfSwappingAt
  | .parallel, .pass => e.createConfSwappingPass
  | .parallel, .shift => e.createConfSwappingShift
  | .pebble, .at_ => e.createConfPebbleAt
  | .pebble, .pass => e.createConfPebblePass
  | .pebble, .shift => e.createConfPebbleShift

/-- The lazy conflict clauses besides `CreateConf_Vertex_OnDemand`. -/
def createConfMovingOnDemand (conflicts : Conflicts) : List Clause :=
  match e.config.movement, e.config.variableKind with
  | .parallel, .at_ => e.createConfSwappingAtOnDemand conflicts.swap
  | .parallel, .pass => e.createConfSwappingPassOnDemand conflicts.swap
  | .parallel, .shift => e.createConfSwappingShiftOnDemand conflicts.swap
  | .pebble, .at_ => e.createConfPebbleAtOnDemand conflicts.pebble
  | .pebble, .pass => e.createConfPebblePassOnDemand conflicts.pebble
  | .pebble, .shift => e.createConfPebbleShiftOnDemand conflicts.pebble

def conflictClausesEager : List Clause := e.createConfVertex ++ e.createConfMoving

def conflictClausesLazy (conflicts : Conflicts) : List Clause :=
  e.createConfVertexOnDemand conflicts.vertex ++ e.createConfMovingOnDemand conflicts

/-- The clauses of the section "conflicts". -/
def conflictClauses (conflicts : Conflicts) : List Clause :=
  match e.config.lazyConst with
  | .eager => e.conflictClausesEager
  | .lazy => e.conflictClausesLazy conflicts

/-- The clauses of the section "start - goal possitions". -/
def positionClauses : List Clause :=
  e.createPossitionStart ++ e.createPossitionGoal ++
    match e.config.costFunction with
    | .mks => []
    | .soc => e.createPossitionNoneAtGoal

/-- The clauses of the section "movement" without those against duplicates. -/
def movementClauses : List Clause :=
  match e.config.variableKind with
  | .at_ => e.createMoveNextVertexAt
  | .pass => e.createMoveEnterVertexPass ++ e.createMoveNextEdgePass
  | .shift => e.createMoveNextVertexAt ++ e.createMoveExactlyOneShift ++ e.createMoveNextVertexShift

/-- The clauses against duplicates. -/
def duplicateClauses (lib : Externals) (lit : ℤ) : List Clause × ℤ :=
  match e.config.duplicates with
  | .forbid => e.createMoveNoDuplicates lib lit
  | .allow => ([], lit)

/-- The clauses of the section "limit cost". -/
def costClauses (lib : Externals) (lit : ℤ) : List Clause × ℤ :=
  if e.config.costFunction = .soc ∧ 0 < e.delta then
    match e.config.duplicates with
    | .forbid => e.createConstLimitSoc lib lit
    | .allow => e.createConstLimitSocAllAt lib lit
  else ([], lit)

theorem linesOfAll_conflicts : e.linesOfAll lib conflicts lit e.config.conflicts =
    (emitLines .conflict (e.conflictClauses conflicts), lit) := by
  unfold Config.conflicts Config.movingConflict conflictClauses
  cases e.config.lazyConst with
  | eager =>
    rw [conflictClausesEager, emitLines_append, createConfMoving]
    cases e.config.movement <;> cases e.config.variableKind <;>
      exact Prod.ext (congrArg (_ ++ ·) (List.append_nil _)) rfl
  | lazy =>
    rw [conflictClausesLazy, emitLines_append, createConfMovingOnDemand]
    cases e.config.movement <;> cases e.config.variableKind <;>
      exact Prod.ext (congrArg (_ ++ ·) (List.append_nil _)) rfl

theorem linesOfAll_noneAtGoal {g : Generator} {F : List Clause}
    (lines : e.linesOf lib conflicts lit g = (emitLines .unit F, lit)) :
    e.linesOfAll lib conflicts lit (e.config.noneAtGoal g) =
      (emitLines .unit (if e.config.costFunction = .soc then F else []), lit) := by
  unfold Config.noneAtGoal
  cases e.config.costFunction with
  | mks => rfl
  | soc =>
    dsimp only
    rw [linesOfAll_cons, lines, linesOfAll_nil, List.append_nil, if_pos rfl]

theorem linesOfAll_positions : e.linesOfAll lib conflicts lit e.config.positions =
    (emitLines .unit e.positionClauses, lit) := by
  have ends : e.linesOfAll lib conflicts lit [.createPossitionStart, .createPossitionGoal] =
      (emitLines .unit (e.createPossitionStart ++ e.createPossitionGoal), lit) := by
    rw [emitLines_append]
    exact Prod.ext (congrArg (_ ++ ·) (List.append_nil _)) rfl
  have guards := e.linesOfAll_noneAtGoal lib conflicts lit (g := .createPossitionNoneAtGoal) rfl
  rw [Config.positions, linesOfAll_append, ends, guards, positionClauses,
    emitLines_append _ (_ ++ _)]
  cases e.config.costFunction <;> rfl

theorem linesOfAll_noDuplicates : e.linesOfAll lib conflicts lit e.config.noDuplicates =
    (emitLines .dupli (e.duplicateClauses lib lit).1, (e.duplicateClauses lib lit).2) := by
  unfold Config.noDuplicates duplicateClauses
  cases e.config.duplicates with
  | forbid => exact Prod.ext (List.append_nil _) rfl
  | allow => rfl

theorem linesOfAll_movements : e.linesOfAll lib conflicts lit e.config.movements =
    (emitLines .move e.movementClauses, lit) := by
  unfold Config.movements movementClauses
  cases e.config.variableKind with
  | at_ => exact Prod.ext (List.append_nil _) rfl
  | pass =>
    dsimp only
    rw [emitLines_append]
    exact Prod.ext (congrArg (_ ++ ·) (List.append_nil _)) rfl
  | shift =>
    dsimp only
    rw [emitLines_append, emitLines_append, List.append_assoc]
    exact Prod.ext (congrArg (_ ++ ·) (congrArg (_ ++ ·) (List.append_nil _))) rfl

theorem linesOfAll_limit {g : Generator} {F : List Clause × ℤ}
    (lines : e.linesOf lib conflicts lit g = (emitLines .soc F.1, F.2)) :
    e.linesOfAll lib conflicts lit (e.config.limit e.delta g) =
      (emitLines .soc (if e.config.costFunction = .soc ∧ 0 < e.delta then F else ([], lit)).1,
        (if e.config.costFunction = .soc ∧ 0 < e.delta then F else ([], lit)).2) := by
  unfold Config.limit
  split
  · rw [linesOfAll_cons, lines, linesOfAll_nil, List.append_nil]
  · rfl

theorem linesOfAll_costs :
    e.linesOfAll lib conflicts lit (e.config.limit e.delta e.config.limitSoc) =
      (emitLines .soc (e.costClauses lib lit).1, (e.costClauses lib lit).2) := by
  apply e.linesOfAll_limit lib conflicts lit
  unfold Config.limitSoc
  cases e.config.duplicates <;> rfl

theorem linesOfAll_avoid (useAvoid : Bool) : e.linesOfAll lib conflicts lit
    (if useAvoid then [.createConstAvoid] else []) =
      (emitLines .conflict (if useAvoid then e.createConstAvoid else []), lit) := by
  cases useAvoid with
  | false => rfl
  | true => exact Prod.ext (List.append_nil _) rfl

/-! ## Formulas -/

/-- The clauses of `_MAPFSAT_SMT` against conflicts. -/
theorem linesOfAll_conflictsPass :
    e.linesOfAll lib conflicts lit [.createConfVertex, .createConfSwappingPass] =
      (emitLines .conflict (e.createConfVertex ++ e.createConfSwappingPass), lit) := by
  rw [emitLines_append]
  exact Prod.ext (congrArg (_ ++ ·) (List.append_nil _)) rfl

theorem linesOfAll_exactlyOne : e.linesOfAll lib conflicts lit
    [.createMoveExactlyOneShift, .createMoveExactlyOneIncomingShift] =
      (emitLines .move (e.createMoveExactlyOneShift ++ e.createMoveExactlyOneIncomingShift), lit) := by
  rw [emitLines_append]
  exact Prod.ext (congrArg (_ ++ ·) (List.append_nil _)) rfl

/-- The first call of `_MAPFSAT_SAT::CreateFormula` for a delta. -/
theorem createFormula_lines (useAvoid : Bool) :
    let made := e.createVariables lib lit
    let duplicates := made.1.duplicateClauses lib made.2
    let costs := made.1.costClauses lib duplicates.2
    let f := e.createFormula lib true useAvoid lit conflicts
    f.encoder = made.1 ∧ f.lines =
      emitLines .conflict (made.1.conflictClauses conflicts) ++
        emitLines .unit made.1.positionClauses ++ emitLines .dupli duplicates.1 ++
        emitLines .move made.1.movementClauses ++ emitLines .soc costs.1 ++
        emitLines .conflict (if useAvoid then made.1.createConstAvoid else []) ∧
      f.lit = costs.2 := by
  intro made duplicates costs f
  obtain ⟨lines, last⟩ := made.1.write_lines lib conflicts made.2
    (made.1.config.sections useAvoid made.1.delta)
  rw [Config.sections] at lines last
  simp only [List.flatten_cons, List.flatten_nil, List.append_nil, List.nil_append,
    linesOfAll_append, linesOfAll_conflicts, linesOfAll_positions, linesOfAll_noDuplicates,
    linesOfAll_movements, linesOfAll_costs, linesOfAll_avoid] at lines last
  simp only [← List.append_assoc] at lines
  exact ⟨rfl, lines, last⟩

/-- A call of `_MAPFSAT_SAT::CreateFormula` after a conflict. -/
theorem createFormula_lines_again (useAvoid : Bool) :
    let f := e.createFormula lib false useAvoid lit conflicts
    f.encoder = e ∧ f.lines = emitLines .conflict (e.conflictClauses conflicts) ∧ f.lit = lit := by
  obtain ⟨lines, last⟩ := e.callAll_lines lib conflicts lit e.config.conflicts
  rw [linesOfAll_conflicts] at lines last
  exact ⟨rfl, lines, last⟩

/-- A call of `_MAPFSAT_SMT::CreateFormula` with pass variables. -/
theorem createFormulaMonosatPass_lines (useAvoid : Bool) :
    let positions := e.createAt lib 1 e.timesteps
    let made := positions.1.createPass lib positions.2 positions.1.timesteps
    let graph := made.1.createMoveGraphMonosatPass made.2
    let duplicates := made.1.duplicateClauses lib graph.2
    let costs := made.1.costClauses lib duplicates.2
    let f := e.createFormulaMonosatPass lib useAvoid
    f.encoder = made.1 ∧ f.lines =
      graph.1 ++ emitLines .unit
          (if made.1.config.costFunction = .soc then made.1.createPossitionNoneAtGoal else []) ++
        emitLines .conflict (made.1.createConfVertex ++ made.1.createConfSwappingPass) ++
        emitLines .conflict (made.1.createConfVertex ++ made.1.createConfSwappingPass) ++
        emitLines .dupli duplicates.1 ++ emitLines .soc costs.1 ++
        emitLines .conflict (if useAvoid then made.1.createConstAvoid else []) ∧
      f.lit = costs.2 := by
  intro positions made graph duplicates costs f
  obtain ⟨lines, last⟩ := made.1.write_lines lib ⟨[], [], []⟩ made.2
    (made.1.config.sectionsMonosatPass useAvoid made.1.delta)
  have first : made.1.linesOfAll lib ⟨[], [], []⟩ made.2 [.createMoveGraphMonosatPass] = graph :=
    Prod.ext (List.append_nil _) rfl
  have guards := made.1.linesOfAll_noneAtGoal lib ⟨[], [], []⟩ graph.2
    (g := .createPossitionNoneAtGoal) rfl
  rw [Config.sectionsMonosatPass] at lines last
  simp only [List.flatten_cons, List.flatten_nil, List.append_nil, linesOfAll_append, first, guards,
    linesOfAll_conflictsPass, linesOfAll_noDuplicates, linesOfAll_costs, linesOfAll_avoid]
    at lines last
  simp only [← List.append_assoc] at lines
  exact ⟨rfl, lines, last⟩

/-- A call of `_MAPFSAT_SMT::CreateFormula` with shift variables. -/
theorem createFormulaMonosatShift_lines :
    let made := e.createShift 1 e.timesteps
    let graph := made.1.createMoveGraphMonosatShift made.2
    let costs := if made.1.config.costFunction = .soc ∧ 0 < made.1.delta then
        made.1.createConstLimitSocShift lib graph.2 else ([], graph.2)
    let f := e.createFormulaMonosatShift lib
    f.encoder = made.1 ∧ f.lines =
      graph.1 ++ emitLines .unit
          (if made.1.config.costFunction = .soc then made.1.createPossitionNoneAtGoalShift else []) ++
        emitLines .conflict made.1.createConfSwappingShift ++
        emitLines .move (made.1.createMoveExactlyOneShift ++
          made.1.createMoveExactlyOneIncomingShift) ++ emitLines .soc costs.1 ∧
      f.lit = costs.2 := by
  intro made graph costs f
  obtain ⟨lines, last⟩ := made.1.write_lines lib ⟨[], [], []⟩ made.2
    (made.1.config.sectionsMonosatShift made.1.delta)
  have first : made.1.linesOfAll lib ⟨[], [], []⟩ made.2 [.createMoveGraphMonosatShift] = graph :=
    Prod.ext (List.append_nil _) rfl
  have guards := made.1.linesOfAll_noneAtGoal lib ⟨[], [], []⟩ graph.2
    (g := .createPossitionNoneAtGoalShift) rfl
  have swaps : made.1.linesOfAll lib ⟨[], [], []⟩ graph.2 [.createConfSwappingShift] =
      (emitLines .conflict made.1.createConfSwappingShift, graph.2) :=
    Prod.ext (List.append_nil _) rfl
  have limits := made.1.linesOfAll_limit lib ⟨[], [], []⟩ graph.2
    (g := .createConstLimitSocShift) rfl
  rw [Config.sectionsMonosatShift] at lines last
  simp only [List.flatten_cons, List.flatten_nil, List.append_nil, linesOfAll_append, first, guards,
    swaps, linesOfAll_exactlyOne, limits] at lines last
  simp only [← List.append_assoc] at lines
  exact ⟨rfl, lines, last⟩

/-! ## Counting -/

theorem createFormula_counts (firstTry useAvoid : Bool) :
    ∀ call ∈ (e.createFormula lib firstTry useAvoid lit conflicts).calls, call.Counts := by
  cases firstTry with
  | false =>
    intro call member
    exact e.callAll_counts lib conflicts lit e.config.conflicts call member
  | true =>
    let made := e.createVariables lib lit
    exact made.1.write_counts lib conflicts made.2 (made.1.config.sections useAvoid made.1.delta)

theorem createFormulaMonosat_counts (useAvoid : Bool) :
    ∀ call ∈ (e.createFormulaMonosat lib useAvoid).calls, call.Counts := by
  unfold createFormulaMonosat
  cases e.config.variableKind <;> exact write_counts _ lib _ _ _

end Encoder

end MAPFEncodings

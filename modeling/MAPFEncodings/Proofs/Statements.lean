import MAPFEncodings.Model.Formula

/-! # The clauses which the generators add

`Model.Conflicts` and `Model.Movement` say which clauses a generator adds, and `Model.Statements` which
statements it executes. Each generator counts each of its clauses once, in its own category, so what a
formula consists of can be said in terms of clauses alone.
-/

namespace MAPFEncodings

open Cnf

/-! ## Statements -/

/-- Clauses are added, and each is counted in a category. -/
def ClauseKind.statements (kind : ClauseKind) (F : List Clause) : List Statement :=
  F.flatMap fun c => [.addClause c, .increment kind]

namespace ClauseKind

variable {α : Type*} {kind : ClauseKind}

theorem statements_nil : kind.statements [] = [] := rfl

theorem statements_single (c : Clause) :
    kind.statements [c] = [.addClause c, .increment kind] := rfl

theorem statements_cons (c : Clause) (F : List Clause) :
    kind.statements (c :: F) = [.addClause c, .increment kind] ++ kind.statements F := rfl

theorem statements_append (F G : List Clause) :
    kind.statements (F ++ G) = kind.statements F ++ kind.statements G := List.flatMap_append

theorem statements_flatMap (xs : List α) (f : α → List Clause) :
    kind.statements (xs.flatMap f) = xs.flatMap fun x => kind.statements (f x) := List.flatMap_assoc

theorem statements_map (xs : List α) (f : α → Clause) :
    kind.statements (xs.map f) = xs.flatMap fun x => [.addClause (f x), .increment kind] :=
  List.flatMap_map ..

theorem statements_ite (p : Prop) [Decidable p] (F G : List Clause) :
    kind.statements (if p then F else G) = if p then kind.statements F else kind.statements G :=
  apply_ite ..

end ClauseKind

open ClauseKind

namespace Encoder

variable (e : Encoder)

/-! Each generator increments the counter of its category behind each of its clauses. -/

theorem createPossitionStartStatements_eq :
    e.createPossitionStartStatements = ClauseKind.unit.statements e.createPossitionStart :=
  (statements_map _ _).symm

theorem createPossitionGoalStatements_eq :
    e.createPossitionGoalStatements = ClauseKind.unit.statements e.createPossitionGoal :=
  (statements_map _ _).symm

theorem createPossitionNoneAtGoalStatements_eq : e.createPossitionNoneAtGoalStatements =
    ClauseKind.unit.statements e.createPossitionNoneAtGoal := by
  simp only [createPossitionNoneAtGoal, statements_flatMap, statements_ite, statements_nil,
    statements_map]
  rfl

theorem createPossitionNoneAtGoalShiftStatements_eq :
    e.createPossitionNoneAtGoalShiftStatements =
      ClauseKind.unit.statements e.createPossitionNoneAtGoalShift := by
  simp only [createPossitionNoneAtGoalShift, statements_flatMap, statements_ite, statements_nil,
    statements_map]
  rfl

theorem createConfVertexStatements_eq :
    e.createConfVertexStatements = ClauseKind.conflict.statements e.createConfVertex := by
  simp only [createConfVertex, statements_flatMap, statements_ite, statements_nil, statements_map]
  rfl

theorem createConfSwappingAtStatements_eq :
    e.createConfSwappingAtStatements = ClauseKind.conflict.statements e.createConfSwappingAt := by
  simp only [createConfSwappingAt, statements_flatMap, statements_ite, statements_nil,
    statements_map]
  rfl

theorem createConfSwappingPassStatements_eq : e.createConfSwappingPassStatements =
    ClauseKind.conflict.statements e.createConfSwappingPass := by
  simp only [createConfSwappingPass, statements_flatMap, statements_ite, statements_nil,
    statements_map]
  rfl

theorem createConfSwappingShiftStatements_eq : e.createConfSwappingShiftStatements =
    ClauseKind.conflict.statements e.createConfSwappingShift := by
  simp only [createConfSwappingShift, statements_flatMap, statements_map]
  rfl

theorem createConfPebbleAtStatements_eq :
    e.createConfPebbleAtStatements = ClauseKind.conflict.statements e.createConfPebbleAt := by
  simp only [createConfPebbleAt, statements_flatMap, statements_ite, statements_nil, statements_map]
  rfl

theorem createConfPebblePassStatements_eq :
    e.createConfPebblePassStatements = ClauseKind.conflict.statements e.createConfPebblePass := by
  simp only [createConfPebblePass, statements_flatMap, statements_ite, statements_nil,
    statements_map]
  rfl

theorem createConfPebbleShiftStatements_eq :
    e.createConfPebbleShiftStatements = ClauseKind.conflict.statements e.createConfPebbleShift := by
  simp only [createConfPebbleShift, statements_flatMap, statements_map]
  rfl

theorem createConfVertexOnDemandStatements_eq (conflicts : List VertexConflict) :
    e.createConfVertexOnDemandStatements conflicts =
      ClauseKind.conflict.statements (e.createConfVertexOnDemand conflicts) := by
  rw [createConfVertexOnDemand, statements_flatMap]
  refine List.flatMap_congr fun c _ => ?_
  cases c.v <;> rfl

theorem createConfSwappingAtOnDemandStatements_eq (conflicts : List EdgeConflict) :
    e.createConfSwappingAtOnDemandStatements conflicts =
      ClauseKind.conflict.statements (e.createConfSwappingAtOnDemand conflicts) := by
  rw [createConfSwappingAtOnDemand, statements_flatMap]
  refine List.flatMap_congr fun c _ => ?_
  cases c.v <;> cases c.u <;> rfl

theorem createConfSwappingPassOnDemandStatements_eq (conflicts : List EdgeConflict) :
    e.createConfSwappingPassOnDemandStatements conflicts =
      ClauseKind.conflict.statements (e.createConfSwappingPassOnDemand conflicts) := by
  rw [createConfSwappingPassOnDemand, statements_flatMap]
  refine List.flatMap_congr fun c _ => ?_
  cases c.v <;> cases c.u <;> try rfl
  dsimp only
  cases e.findDir _ _ <;> rfl

theorem createConfSwappingShiftOnDemandStatements_eq (conflicts : List EdgeConflict) :
    e.createConfSwappingShiftOnDemandStatements conflicts =
      ClauseKind.conflict.statements (e.createConfSwappingShiftOnDemand conflicts) := by
  rw [createConfSwappingShiftOnDemand, statements_flatMap]
  refine List.flatMap_congr fun c _ => ?_
  cases c.v <;> cases c.u <;> try rfl
  dsimp only
  cases e.findDir _ _ <;> rfl

theorem createConfPebbleAtOnDemandStatements_eq (conflicts : List EdgeConflict) :
    e.createConfPebbleAtOnDemandStatements conflicts =
      ClauseKind.conflict.statements (e.createConfPebbleAtOnDemand conflicts) := by
  rw [createConfPebbleAtOnDemand, statements_flatMap]
  refine List.flatMap_congr fun c _ => ?_
  cases c.u <;> rfl

theorem createConfPebblePassOnDemandStatements_eq (conflicts : List EdgeConflict) :
    e.createConfPebblePassOnDemandStatements conflicts =
      ClauseKind.conflict.statements (e.createConfPebblePassOnDemand conflicts) := by
  rw [createConfPebblePassOnDemand, statements_flatMap]
  refine List.flatMap_congr fun c _ => ?_
  cases c.v <;> cases c.u <;> try rfl
  dsimp only
  cases e.findDir _ _ <;> rfl

theorem createConfPebbleShiftOnDemandStatements_eq (conflicts : List EdgeConflict) :
    e.createConfPebbleShiftOnDemandStatements conflicts =
      ClauseKind.conflict.statements (e.createConfPebbleShiftOnDemand conflicts) := by
  rw [createConfPebbleShiftOnDemand, statements_flatMap]
  refine List.flatMap_congr fun c _ => ?_
  cases c.v <;> cases c.u <;> try rfl
  dsimp only
  cases e.findDir _ _ with
  | none => rfl
  | some dir => simp only [statements_flatMap, statements_map]

theorem createConstAvoidStatements_eq :
    e.createConstAvoidStatements = ClauseKind.conflict.statements e.createConstAvoid := by
  rw [createConstAvoid, statements_flatMap]
  refine List.flatMap_congr fun avoid _ => ?_
  rw [statements_ite]
  cases e.inst.mapAt _ with
  | none => rfl
  | some v => simp only [statements_flatMap, statements_ite, statements_nil, statements_single]

theorem createMoveNextVertexAtStatements_eq :
    e.createMoveNextVertexAtStatements = ClauseKind.move.statements e.createMoveNextVertexAt := by
  simp only [createMoveNextVertexAt, statements_flatMap, statements_ite, statements_nil,
    statements_single]
  rfl

theorem createMoveEnterVertexPassStatements_eq : e.createMoveEnterVertexPassStatements =
    ClauseKind.move.statements e.createMoveEnterVertexPass := by
  simp only [createMoveEnterVertexPass, statements_flatMap, statements_ite, statements_nil,
    statements_map]
  rfl

theorem createMoveNextEdgePassStatements_eq :
    e.createMoveNextEdgePassStatements = ClauseKind.move.statements e.createMoveNextEdgePass := by
  simp only [createMoveNextEdgePass, statements_flatMap, statements_ite, statements_nil,
    statements_single]
  rfl

theorem excludePairsStatements_eq (xs : List ℤ) :
    excludePairsStatements xs = ClauseKind.move.statements (excludePairs xs) := by
  induction xs with
  | nil => rfl
  | cons x xs ih => rw [excludePairs, statements_append, statements_map, ← ih, excludePairsStatements]

theorem createMoveExactlyOneShiftStatements_eq : e.createMoveExactlyOneShiftStatements =
    ClauseKind.move.statements e.createMoveExactlyOneShift := by
  simp only [createMoveExactlyOneShift, statements_flatMap, statements_ite, statements_nil,
    ← excludePairsStatements_eq]
  rfl

theorem createMoveExactlyOneIncomingShiftStatements_eq :
    e.createMoveExactlyOneIncomingShiftStatements =
      ClauseKind.move.statements e.createMoveExactlyOneIncomingShift := by
  simp only [createMoveExactlyOneIncomingShift, statements_flatMap]
  refine List.flatMap_congr fun v _ => List.flatMap_congr fun t _ => ?_
  refine (List.flatten_mapState ?_ [] _).1
  exact fun vc p => Prod.ext (excludePairsStatements_eq _) rfl

theorem createMoveNextVertexShiftStatements_eq : e.createMoveNextVertexShiftStatements =
    ClauseKind.move.statements e.createMoveNextVertexShift := by
  simp only [createMoveNextVertexShift, statements_flatMap, statements_ite, statements_nil,
    statements_cons]
  rfl

section

variable (lib : Externals) (lit : ℤ)

theorem createMoveNoDuplicatesStatements_eq : e.createMoveNoDuplicatesStatements lib lit =
    (ClauseKind.dupli.statements (e.createMoveNoDuplicates lib lit).1,
      (e.createMoveNoDuplicates lib lit).2) := by
  unfold createMoveNoDuplicatesStatements createMoveNoDuplicates
  refine Prod.ext_iff.mpr (List.flatten_mapState (fun lit a => ?_) lit _)
  refine Prod.ext_iff.mpr (List.flatten_mapState (fun lit t => ?_) lit _)
  split <;> rfl

/-- The counters of a cost constraint agree if those of its triggers do. -/
theorem limitLateStatements_eq {statements : ℕ → ℕ → ℤ → List Statement}
    {triggers : ℕ → ℕ → ℤ → List Clause}
    (same : ∀ a d late, statements a d late = ClauseKind.soc.statements (triggers a d late)) :
    e.limitLateStatements lib statements lit =
      (ClauseKind.soc.statements (e.limitLate lib triggers lit).1,
        (e.limitLate lib triggers lit).2) := by
  unfold limitLateStatements limitLate
  dsimp only
  rw [List.mapState_map (f := List.map (Prod.map ClauseKind.soc.statements id))]
  · rw [← List.map_flatten, List.map_map, List.flatMap_map, statements_append, statements_flatMap]
    rfl
  · intro lit a
    refine List.mapState_map (fun lit d => ?_) lit _
    rw [same, Prod.map, statements_append, statements_ite]
    rfl

theorem createConstLimitSocStatements_eq : e.createConstLimitSocStatements lib lit =
    (ClauseKind.soc.statements (e.createConstLimitSoc lib lit).1,
      (e.createConstLimitSoc lib lit).2) :=
  e.limitLateStatements_eq lib lit fun _ _ _ => rfl

theorem createConstLimitSocAllAtStatements_eq : e.createConstLimitSocAllAtStatements lib lit =
    (ClauseKind.soc.statements (e.createConstLimitSocAllAt lib lit).1,
      (e.createConstLimitSocAllAt lib lit).2) := by
  refine e.limitLateStatements_eq lib lit fun a d late => ?_
  simp only [statements_flatMap, statements_ite, statements_nil, statements_single]

theorem createConstLimitSocShiftStatements_eq : e.createConstLimitSocShiftStatements lib lit =
    (ClauseKind.soc.statements (e.createConstLimitSocShift lib lit).1,
      (e.createConstLimitSocShift lib lit).2) := by
  refine e.limitLateStatements_eq lib lit fun a d late => ?_
  simp only [statements_flatMap, statements_map]

end

end Encoder

/-! ## Lines -/

/-- The statements which print a line, and count it if it is a clause. -/
def Line.statements : Line → List Statement
  | digraph graph => [.digraph graph]
  | edge graph source target var => [.edge graph source target var]
  | reach graph source target lit => [.reach graph source target lit]
  | clause kind c => [.addClause c, .increment kind]

/-- The line carries this category, if it is a clause. -/
def Line.InCategory (kind : ClauseKind) : Line → Prop
  | clause kind' _ => kind' = kind
  | _ => True

/-- Some clauses of one category. -/
def Encoder.emitLines (kind : ClauseKind) (F : List Clause) : List Line := F.map (Line.clause kind)

namespace Encoder

theorem emitLines_append (kind : ClauseKind) (F G : List Clause) :
    emitLines kind (F ++ G) = emitLines kind F ++ emitLines kind G := List.map_append

theorem flatMap_statements_emitLines (kind : ClauseKind) (F : List Clause) :
    (emitLines kind F).flatMap Line.statements = kind.statements F := List.flatMap_map ..

theorem flatMap_statements_edges (graph : ℕ) (edges : List (ℕ × ℕ × ℤ)) :
    (edges.map fun (source, target, var) => Line.edge graph source target var).flatMap
        Line.statements =
      edges.map fun (source, target, var) => Statement.edge graph source target var := by
  rw [List.flatMap_map, List.map_eq_flatMap]
  rfl

variable (e : Encoder) (lit : ℤ)

theorem createMoveGraphMonosatPassStatements_eq : e.createMoveGraphMonosatPassStatements lit =
    ((e.createMoveGraphMonosatPass lit).1.flatMap Line.statements,
      (e.createMoveGraphMonosatPass lit).2) := by
  unfold createMoveGraphMonosatPassStatements createMoveGraphMonosatPass
  refine Prod.ext_iff.mpr (List.flatten_mapState ?_ lit _)
  intro lit a
  simp only [List.flatMap_append, List.flatMap_cons, flatMap_statements_edges]
  rfl

theorem createMoveGraphMonosatShiftStatements_eq : e.createMoveGraphMonosatShiftStatements lit =
    ((e.createMoveGraphMonosatShift lit).1.flatMap Line.statements,
      (e.createMoveGraphMonosatShift lit).2) := by
  unfold createMoveGraphMonosatShiftStatements createMoveGraphMonosatShift
  dsimp only
  rw [List.flatMap_append, List.flatMap_cons, flatMap_statements_edges]
  refine Prod.ext (congrArg₂ (· ++ ·) rfl (List.flatten_mapState ?_ _ _).1) ?_
  · exact fun state a => rfl
  · dsimp only
    refine congrArg Prod.snd (List.flatten_mapState (f := Line.statements) ?_ _ _).2
    exact fun state a => rfl

end Encoder

/-! ## Execution -/

/-- `nr_clauses` is the sum of the counters of the categories. -/
def Counters.Balanced (c : Counters) : Prop :=
  c.clauses = c.move + c.dupli + c.conflict + c.soc + c.unit

/-- The counter of a category. -/
def ClauseKind.counter (kind : ClauseKind) (counters : Counters) : ℕ :=
  match kind with
  | .move => counters.move
  | .dupli => counters.dupli
  | .conflict => counters.conflict
  | .soc => counters.soc
  | .unit => counters.unit

/-- The clause of a line in a category. -/
def Line.clauseOf? (kind : ClauseKind) : Line → Option Clause
  | clause kind' c => if kind' = kind then some c else none
  | _ => none

/-- The total counts the calls of `AddClause`. -/
theorem clauses_foldl_exec (statements : List Statement) (counters : Counters) :
    (statements.foldl Statement.exec counters).clauses =
      counters.clauses + (statements.filterMap Statement.clause?).length := by
  induction statements generalizing counters with
  | nil => rfl
  | cons statement statements ih =>
    rw [List.foldl_cons, ih]
    cases statement with
    | addClause c =>
      rw [List.filterMap_cons_some (rfl : Statement.clause? (.addClause c) = some c),
        List.length_cons]
      simp only [Statement.exec]
      omega
    | increment kind => cases kind <;> rfl
    | digraph graph => rfl
    | edge graph source target var => rfl
    | reach graph source target lit => rfl

theorem filterMap_clause_statements (lines : List Line) :
    (lines.flatMap Line.statements).filterMap Statement.clause? = lines.filterMap Line.clause? := by
  induction lines with
  | nil => rfl
  | cons line lines ih =>
    rw [List.flatMap_cons, List.filterMap_append, ih]
    cases line <;> rfl

/-- The statements of a line keep the balance of the counters. -/
theorem Counters.Balanced.exec {counters : Counters} (balanced : counters.Balanced) (line : Line) :
    (line.statements.foldl Statement.exec counters).Balanced := by
  unfold Counters.Balanced at balanced ⊢
  cases line with
  | clause kind c =>
    cases kind <;> simp only [Line.statements, List.foldl_cons, List.foldl_nil, Statement.exec] <;>
      omega
  | digraph graph => exact balanced
  | edge graph source target var => exact balanced
  | reach graph source target lit => exact balanced

theorem Counters.Balanced.foldl_exec {counters : Counters} (balanced : counters.Balanced)
    (lines : List Line) :
    ((lines.flatMap Line.statements).foldl Statement.exec counters).Balanced := by
  induction lines generalizing counters with
  | nil => exact balanced
  | cons line lines ih =>
    rw [List.flatMap_cons, List.foldl_append]
    exact ih (balanced.exec line)

theorem ClauseKind.counter_exec (kind : ClauseKind) (line : Line) (counters : Counters) :
    kind.counter (line.statements.foldl Statement.exec counters) =
      kind.counter counters + (line.clauseOf? kind).toList.length := by
  cases line with
  | clause kind' c => cases kind <;> cases kind' <;> rfl
  | digraph graph => rfl
  | edge graph source target var => rfl
  | reach graph source target lit => rfl

/-- The counter of a category counts the lines in the category. -/
theorem counter_foldl_exec (kind : ClauseKind) (lines : List Line) (counters : Counters) :
    kind.counter ((lines.flatMap Line.statements).foldl Statement.exec counters) =
      kind.counter counters + (lines.filterMap (Line.clauseOf? kind)).length := by
  induction lines generalizing counters with
  | nil => rfl
  | cons line lines ih =>
    rw [List.flatMap_cons, List.foldl_append, ih, kind.counter_exec]
    cases found : Line.clauseOf? kind line with
    | none => rw [List.filterMap_cons_none found]; rfl
    | some c =>
      rw [List.filterMap_cons_some found, List.length_cons, Option.toList_some, List.length_singleton]
      omega

/-! ## Generators -/

/-- The lines which a generator writes, and the next unused variable after it. -/
def Encoder.linesOf (e : Encoder) (lib : Externals) (conflicts : Conflicts) (lit : ℤ) :
    Generator → List Line × ℤ
  | .createPossitionStart => (emitLines .unit e.createPossitionStart, lit)
  | .createPossitionGoal => (emitLines .unit e.createPossitionGoal, lit)
  | .createPossitionNoneAtGoal => (emitLines .unit e.createPossitionNoneAtGoal, lit)
  | .createPossitionNoneAtGoalShift => (emitLines .unit e.createPossitionNoneAtGoalShift, lit)
  | .createConfVertex => (emitLines .conflict e.createConfVertex, lit)
  | .createConfSwappingAt => (emitLines .conflict e.createConfSwappingAt, lit)
  | .createConfSwappingPass => (emitLines .conflict e.createConfSwappingPass, lit)
  | .createConfSwappingShift => (emitLines .conflict e.createConfSwappingShift, lit)
  | .createConfPebbleAt => (emitLines .conflict e.createConfPebbleAt, lit)
  | .createConfPebblePass => (emitLines .conflict e.createConfPebblePass, lit)
  | .createConfPebbleShift => (emitLines .conflict e.createConfPebbleShift, lit)
  | .createMoveNoDuplicates =>
    (emitLines .dupli (e.createMoveNoDuplicates lib lit).1, (e.createMoveNoDuplicates lib lit).2)
  | .createMoveNextVertexAt => (emitLines .move e.createMoveNextVertexAt, lit)
  | .createMoveEnterVertexPass => (emitLines .move e.createMoveEnterVertexPass, lit)
  | .createMoveNextEdgePass => (emitLines .move e.createMoveNextEdgePass, lit)
  | .createMoveExactlyOneShift => (emitLines .move e.createMoveExactlyOneShift, lit)
  | .createMoveExactlyOneIncomingShift => (emitLines .move e.createMoveExactlyOneIncomingShift, lit)
  | .createMoveNextVertexShift => (emitLines .move e.createMoveNextVertexShift, lit)
  | .createConstLimitSoc =>
    (emitLines .soc (e.createConstLimitSoc lib lit).1, (e.createConstLimitSoc lib lit).2)
  | .createConstLimitSocAllAt =>
    (emitLines .soc (e.createConstLimitSocAllAt lib lit).1, (e.createConstLimitSocAllAt lib lit).2)
  | .createConstLimitSocShift =>
    (emitLines .soc (e.createConstLimitSocShift lib lit).1, (e.createConstLimitSocShift lib lit).2)
  | .createConfVertexOnDemand =>
    (emitLines .conflict (e.createConfVertexOnDemand conflicts.vertex), lit)
  | .createConfSwappingAtOnDemand =>
    (emitLines .conflict (e.createConfSwappingAtOnDemand conflicts.swap), lit)
  | .createConfSwappingPassOnDemand =>
    (emitLines .conflict (e.createConfSwappingPassOnDemand conflicts.swap), lit)
  | .createConfSwappingShiftOnDemand =>
    (emitLines .conflict (e.createConfSwappingShiftOnDemand conflicts.swap), lit)
  | .createConfPebbleAtOnDemand =>
    (emitLines .conflict (e.createConfPebbleAtOnDemand conflicts.pebble), lit)
  | .createConfPebblePassOnDemand =>
    (emitLines .conflict (e.createConfPebblePassOnDemand conflicts.pebble), lit)
  | .createConfPebbleShiftOnDemand =>
    (emitLines .conflict (e.createConfPebbleShiftOnDemand conflicts.pebble), lit)
  | .createConstAvoid => (emitLines .conflict e.createConstAvoid, lit)
  | .createMoveGraphMonosatPass => e.createMoveGraphMonosatPass lit
  | .createMoveGraphMonosatShift => e.createMoveGraphMonosatShift lit

namespace Encoder

variable (e : Encoder) (lib : Externals) (conflicts : Conflicts) (lit : ℤ)

/-- Every generator prints its lines and counts the clauses among them. -/
theorem call_eq (g : Generator) : e.call lib conflicts lit g =
    ((e.linesOf lib conflicts lit g).1.flatMap Line.statements, (e.linesOf lib conflicts lit g).2) := by
  unfold call linesOf
  cases g <;> simp only [flatMap_statements_emitLines, createPossitionStartStatements_eq,
    createPossitionGoalStatements_eq, createPossitionNoneAtGoalStatements_eq,
    createPossitionNoneAtGoalShiftStatements_eq, createConfVertexStatements_eq,
    createConfSwappingAtStatements_eq, createConfSwappingPassStatements_eq,
    createConfSwappingShiftStatements_eq, createConfPebbleAtStatements_eq,
    createConfPebblePassStatements_eq, createConfPebbleShiftStatements_eq,
    createConfVertexOnDemandStatements_eq, createConfSwappingAtOnDemandStatements_eq,
    createConfSwappingPassOnDemandStatements_eq, createConfSwappingShiftOnDemandStatements_eq,
    createConfPebbleAtOnDemandStatements_eq, createConfPebblePassOnDemandStatements_eq,
    createConfPebbleShiftOnDemandStatements_eq, createConstAvoidStatements_eq,
    createMoveNoDuplicatesStatements_eq, createMoveNextVertexAtStatements_eq,
    createMoveEnterVertexPassStatements_eq, createMoveNextEdgePassStatements_eq,
    createMoveExactlyOneShiftStatements_eq, createMoveExactlyOneIncomingShiftStatements_eq,
    createMoveNextVertexShiftStatements_eq, createConstLimitSocStatements_eq,
    createConstLimitSocAllAtStatements_eq, createConstLimitSocShiftStatements_eq,
    createMoveGraphMonosatPassStatements_eq, createMoveGraphMonosatShiftStatements_eq]

end Encoder

end MAPFEncodings

import MAPFEncodings.Literals.Generators
import MAPFEncodings.Proofs.Formula

/-! # Literal safety of the eager formulas

For every request the stages follow one another, and each generator finds the variables of the
objects it is about in the stages before its own. `Layout.Safe` collects what this means for the
formula as a whole.
-/

namespace MAPFEncodings

open Cnf

/-- The literals of a line. -/
def Line.literals : Line → List ℤ
  | digraph _ => []
  | edge _ _ _ x => [x]
  | reach _ _ _ l => [l]
  | clause _ c => c

/-- The lines of some generators are over variables of the stages, and mean what is intended. -/
structure Layout.Safe (l : Layout) (generators : List Generator) (lines : List Line) (lit : ℤ) :
    Prop where
  written : lines = generators.flatMap l.linesOf
  last : l.bounds = lit
  staged : l.Staged
  distinct : ∀ {x y : Object} {v : ℤ}, l.Has x v → l.Has y v → x = y
  nodes : ∀ {graph i : ℕ} {node node' : Node},
    l.HasNode graph node i → l.HasNode graph node' i → node = node'
  reads : ∀ g ∈ generators, ∀ x, l.encoder.Reads g x → l.encoder.Written x
  nothingElse : ∀ g ∈ generators, ∀ e', l.encoder.SameOn e' (l.encoder.Reads g) →
    ({ l with encoder := e' } : Layout).linesOf g = l.linesOf g
  inRange : ∀ line ∈ lines, ∀ x ∈ line.literals, x ≠ 0 ∧ |x| < lit
  intended : ∀ g ∈ generators, ∀ line ∈ l.linesOf g, l.AssertsLine g line

namespace Layout

variable {l : Layout}

/-- The literals of a line are the variables of objects, or their negations. -/
theorem AssertsLine.exists_owned {g : Generator} {line : Line} (staged : l.Staged)
    (asserts : l.AssertsLine g line) : ∀ x ∈ line.literals, ∃ o, l.Owned o ∧ |x| = l.number o := by
  have clause {s : List (Literal Object)} (owned : ∀ k ∈ s, l.Owned k.name) :
      ∀ x ∈ numbered l.number s, ∃ o, l.Owned o ∧ |x| = l.number o := by
    intro x member
    obtain ⟨k, inside, rfl⟩ := List.mem_map.mp member
    exact ⟨k.name, owned k inside, Literal.abs_number (staged.isVar (owned k inside)).1⟩
  have var {x : Object} (owned : l.Owned x) :
      ∀ y ∈ [l.number x], ∃ o, l.Owned o ∧ |y| = l.number o := by
    intro y member
    obtain rfl := List.mem_singleton.mp member
    exact ⟨x, owned, abs_of_pos (staged.isVar owned).1⟩
  obtain ⟨s, -, said⟩ := asserts
  cases said with
  | clause kind said =>
    cases said with
    | clause s owned => exact clause owned
    | atMost s about given owned returned => exact clause owned
  | digraph graph => exact nofun
  | edge tail head owned => exact var owned
  | reach tail head owned => exact var owned

/-- The literals of a sentence about objects with variables are in range. -/
theorem AssertsLine.inRange {g : Generator} {line : Line} (staged : l.Staged)
    (asserts : l.AssertsLine g line) : ∀ x ∈ line.literals, x ≠ 0 ∧ |x| < l.bounds := by
  intro x member
  obtain ⟨o, owned, same⟩ := asserts.exists_owned staged x member
  have isVar := staged.isVar owned
  rw [← same] at isVar
  exact ⟨abs_pos.mp isVar.1, isVar.2⟩

theorem Staged.safe (staged : l.Staged) (windows : l.encoder.Windows)
    (consecutive : Consecutive l.lib.encodeAtMostK)
    (draws : l.encoder.config.variableKind = .pass → l.DrawsPositions) {generators : List Generator}
    (supplies : ∀ g ∈ generators, l.Supplies g)
    (reads : ∀ g ∈ generators, ∀ x, l.encoder.Reads g x → l.encoder.Written x) :
    l.Safe generators (generators.flatMap l.linesOf) l.bounds where
  written := rfl
  last := rfl
  staged := staged
  distinct has has' := staged.allocates.inj has has'
  nodes has has' := has.inj draws has'
  reads := reads
  nothingElse _ _ _ same := linesOf_congr same
  inRange line member := by
    obtain ⟨g, called, inside⟩ := List.mem_flatMap.mp member
    exact (linesOf_asserts staged windows consecutive (supplies g called) line inside).inRange staged
  intended g called := linesOf_asserts staged windows consecutive (supplies g called)

end Layout

namespace Encoder

variable {e : Encoder} {lib : Externals} {lit hi : ℤ}

/-! ## Stages -/

/-- The end of the late variables, which are drawn if the sum of costs is limited. -/
def lateEnd (e : Encoder) (lit : ℤ) : ℤ :=
  if e.config.costFunction = .soc ∧ 0 < e.delta then lit + (e.agents : ℤ) * e.delta else lit

/-- A stage in which nothing is drawn. -/
private theorem irrefl {P : Prop} (x : ℤ) : x ≤ x ∧ (x < x → P) :=
  ⟨le_rfl, fun lt => absurd lt (lt_irrefl x)⟩

theorem duplicateClauses_staged (consecutive : Consecutive lib.encodeAtMostK)
    (ready : e.AtReady hi) (pos : 1 ≤ hi) (le : hi ≤ lit) :
    lit ≤ (e.duplicateClauses lib lit).2 ∧ (lit < (e.duplicateClauses lib lit).2 →
      Allocates (e.HasDuplicate lib lit) lit (e.duplicateClauses lib lit).2) := by
  unfold duplicateClauses
  cases e.config.duplicates with
  | forbid =>
    have alloc := allocates_createMoveNoDuplicates consecutive ready pos le
    exact ⟨alloc.le, fun _ => alloc⟩
  | allow => exact irrefl lit

theorem lateEnd_staged (e : Encoder) (lit : ℤ) : lit ≤ e.lateEnd lit ∧
    (lit < e.lateEnd lit → e.lateEnd lit = lit + (e.agents : ℤ) * e.delta) := by
  unfold lateEnd
  split
  · exact ⟨(allocates_lateVar e lit).le, fun _ => rfl⟩
  · exact irrefl lit

theorem lateVars_below (e : Encoder) (pos : 1 ≤ lit) :
    ∀ x ∈ e.lateVars lit, x ≠ 0 ∧ |x| < lit + (e.agents : ℤ) * e.delta := by
  intro x member
  simp only [lateVars, List.mem_flatMap, List.mem_map, List.mem_range] at member
  obtain ⟨a, agent, d, delay, rfl⟩ := member
  have bounds := (allocates_lateVar e lit).bounds (k := (a, d)) ⟨agent, delay, rfl⟩
  exact lit_below (zero_lt_one.trans_le (pos.trans bounds.1)) bounds.2

theorem le_limitLate (consecutive : Consecutive lib.encodeAtMostK) (pos : 1 ≤ lit)
    (triggers : ℕ → ℕ → ℤ → List Clause) :
    lit + (e.agents : ℤ) * e.delta ≤ (e.limitLate lib triggers lit).2 := by
  rw [limitLate_eq]
  exact (consecutive _ _ _ (Int.natCast_nonneg _) (pos.trans (allocates_lateVar e lit).le)
    (lateVars_below e pos)).1

theorem lateEnd_le_costClauses (consecutive : Consecutive lib.encodeAtMostK) (pos : 1 ≤ lit) :
    e.lateEnd lit ≤ (e.costClauses lib lit).2 := by
  unfold lateEnd costClauses
  split
  · cases e.config.duplicates with
    | forbid => exact le_limitLate consecutive pos _
    | allow => exact le_limitLate consecutive pos _
  · exact le_rfl

/-- The stages of a formula of `_MAPFSAT_SAT`. -/
def layout (e : Encoder) (lib : Externals) (lit : ℤ) : Layout :=
  let made := e.createVariables lib lit
  let positions := (e.createAt lib lit e.timesteps).2
  let duplicates := (made.1.duplicateClauses lib made.2).2
  { encoder := made.1
    lib := lib
    start := lit
    positions := positions
    passes := if e.config.variableKind = .pass then made.2 else positions
    shifts := made.2
    reaches := made.2
    duplicates := duplicates
    lates := made.1.lateEnd duplicates
    bounds := (made.1.costClauses lib duplicates).2 }

/-- The stages of a formula of `_MAPFSAT_SMT` with pass variables. -/
def layoutPass (e : Encoder) (lib : Externals) : Layout :=
  let positions := e.createAt lib 1 e.timesteps
  let passes := positions.1.createPass lib positions.2 e.timesteps
  let reaches := (passes.1.createMoveGraphMonosatPass passes.2).2
  let duplicates := (passes.1.duplicateClauses lib reaches).2
  { encoder := passes.1
    lib := lib
    start := 1
    positions := positions.2
    passes := passes.2
    shifts := passes.2
    reaches := reaches
    duplicates := duplicates
    lates := passes.1.lateEnd duplicates
    bounds := (passes.1.costClauses lib duplicates).2 }

/-- The stages of a formula of `_MAPFSAT_SMT` with shift variables. -/
def layoutShift (e : Encoder) (lib : Externals) : Layout :=
  let shifts := e.createShift 1 e.timesteps
  let reaches := (shifts.1.createMoveGraphMonosatShift shifts.2).2
  { encoder := shifts.1
    lib := lib
    start := 1
    positions := 1
    passes := 1
    shifts := shifts.2
    reaches := reaches
    duplicates := reaches
    lates := shifts.1.lateEnd reaches
    bounds :=
      if shifts.1.config.costFunction = .soc ∧ 0 < shifts.1.delta then
        (shifts.1.createConstLimitSocShift lib reaches).2
      else reaches }

/-- The stages of a formula of `_MAPFSAT_SMT`, which has no encoding with positions only. -/
def layoutMonosat (e : Encoder) (lib : Externals) : Layout :=
  match e.config.variableKind with
  | .at_ => ⟨e, lib, 1, 1, 1, 1, 1, 1, 1, 1⟩
  | .pass => e.layoutPass lib
  | .shift => e.layoutShift lib

theorem layout_draws (e : Encoder) (lib : Externals) (pos : 1 ≤ lit) :
    (e.layout lib lit).DrawsPositions ∧
      (e.config.variableKind = .pass → (e.layout lib lit).DrawsPasses) ∧
      (e.config.variableKind = .shift → (e.layout lib lit).DrawsShifts) := by
  have atAlloc := allocates_createAt e lib lit e.timesteps
  have atReady := createAt_ready e lib lit e.timesteps pos
  have posAt := pos.trans atAlloc.le
  unfold layout createVariables
  dsimp only
  cases kind : e.config.variableKind with
  | at_ => exact ⟨⟨atReady, atAlloc⟩, nofun, nofun⟩
  | pass =>
    refine ⟨⟨⟨atReady.entry, atReady.covers, atReady.isVar⟩, atAlloc⟩, fun _ => ⟨?_, ?_⟩, nofun⟩
    · exact createPass_ready _ lib _ e.timesteps posAt rfl
    · exact allocates_createPass _ lib _ e.timesteps
  | shift =>
    refine ⟨⟨⟨atReady.entry, atReady.covers, atReady.isVar⟩, atAlloc⟩, nofun, fun _ => ⟨?_, ?_⟩⟩
    · exact createShift_ready _ _ e.timesteps posAt
    · exact allocates_createShift _ _ e.timesteps

/-- The stages before the auxiliary variables. -/
private theorem layout_tables (e : Encoder) (lib : Externals) (lit : ℤ) :
    lit ≤ (e.layout lib lit).positions ∧
    ((e.layout lib lit).positions ≤ (e.layout lib lit).passes ∧
      ((e.layout lib lit).positions < (e.layout lib lit).passes →
        Allocates (e.layout lib lit).encoder.HasPass (e.layout lib lit).positions
          (e.layout lib lit).passes)) ∧
    (e.layout lib lit).passes ≤ (e.layout lib lit).shifts ∧
      ((e.layout lib lit).passes < (e.layout lib lit).shifts →
        Allocates (e.layout lib lit).encoder.HasShift (e.layout lib lit).passes
          (e.layout lib lit).shifts) := by
  have atAlloc := allocates_createAt e lib lit e.timesteps
  unfold layout createVariables
  dsimp only
  cases kind : e.config.variableKind with
  | at_ => exact ⟨atAlloc.le, irrefl _, irrefl _⟩
  | pass =>
    have alloc := allocates_createPass (e.createAt lib lit e.timesteps).1 lib
      (e.createAt lib lit e.timesteps).2 e.timesteps
    exact ⟨atAlloc.le, ⟨alloc.le, fun _ => alloc⟩, irrefl _⟩
  | shift =>
    have alloc := allocates_createShift (e.createAt lib lit e.timesteps).1
      (e.createAt lib lit e.timesteps).2 e.timesteps
    exact ⟨atAlloc.le, irrefl _, alloc.le, fun _ => alloc⟩

theorem layout_staged (e : Encoder) (lib : Externals) (consecutive : Consecutive lib.encodeAtMostK)
    (pos : 1 ≤ lit) : (e.layout lib lit).Staged := by
  obtain ⟨draws, -, -⟩ := layout_draws e lib pos
  obtain ⟨positions, passes, shifts⟩ := layout_tables e lib lit
  have posAt : 1 ≤ (e.layout lib lit).positions := pos.trans positions
  have duplicates := duplicateClauses_staged consecutive draws.ready posAt
    (passes.1.trans shifts.1)
  have posDuplicates := (posAt.trans (passes.1.trans shifts.1)).trans duplicates.1
  exact ⟨pos, ⟨positions, fun _ => draws.allocates⟩, passes, shifts, le_rfl, duplicates,
    lateEnd_staged _ _, lateEnd_le_costClauses consecutive posDuplicates⟩

/-! ## `_MAPFSAT_SAT` -/

/-- The stages of the cost constraint, if there is one. -/
private theorem supplies_limitSoc {l : Layout} (draws : l.DrawsPositions)
    (slack : l.encoder.config.costFunction = .soc → l.encoder.Slack)
    (lates : l.lates = l.encoder.lateEnd l.duplicates)
    (ends : l.bounds = (l.encoder.costClauses l.lib l.duplicates).2) :
    ∀ g ∈ l.encoder.config.limit l.encoder.delta l.encoder.config.limitSoc, l.Supplies g := by
  intro g member
  unfold lateEnd at lates
  unfold costClauses at ends
  unfold Config.limit Config.limitSoc at member
  split at member
  · next bounded =>
    rw [if_pos bounded] at lates ends
    obtain rfl := List.mem_singleton.mp member
    cases kind : l.encoder.config.duplicates with
    | forbid =>
      simp only [kind] at ends ⊢
      exact ⟨draws, lates, slack bounded.1, ends⟩
    | allow =>
      simp only [kind] at ends ⊢
      exact ⟨draws, lates, ends⟩
  · exact absurd member List.not_mem_nil

private theorem supplies_noDuplicates {l : Layout} (draws : l.DrawsPositions)
    (duplicates : l.duplicates = (l.encoder.duplicateClauses l.lib l.reaches).2) :
    ∀ g ∈ l.encoder.config.noDuplicates, l.Supplies g := by
  intro g member
  unfold Config.noDuplicates at member
  unfold duplicateClauses at duplicates
  cases kind : l.encoder.config.duplicates with
  | forbid =>
    simp only [kind] at member duplicates
    obtain rfl := List.mem_singleton.mp member
    exact ⟨draws, duplicates⟩
  | allow =>
    simp only [kind] at member
    exact absurd member List.not_mem_nil

private theorem supplies_noneAtGoal {l : Layout} {g : Generator} (supplies : l.Supplies g)
    (c : Config) : ∀ g' ∈ c.noneAtGoal g, l.Supplies g' := by
  intro g' member
  unfold Config.noneAtGoal at member
  cases kind : c.costFunction with
  | mks =>
    simp only [kind] at member
    exact absurd member List.not_mem_nil
  | soc =>
    simp only [kind] at member
    obtain rfl := List.mem_singleton.mp member
    exact supplies

variable (lib lit) in
theorem layout_members (e : Encoder) : (e.layout lib lit).encoder.config = e.config ∧
    (e.layout lib lit).encoder.delta = e.delta := by
  obtain ⟨-, config, -, -, delta⟩ := createVariables_members e lib lit
  exact ⟨config, delta⟩

theorem layout_supplies {req : Request} (poses : req.Poses e) (pos : 1 ≤ lit)
    (eager : e.config.lazyConst = .eager) :
    ∀ g ∈ e.config.generators e.delta .sat, (e.layout lib lit).Supplies g := by
  obtain ⟨draws, drawsPass, drawsShift⟩ := layout_draws e lib pos
  obtain ⟨config, delta⟩ := layout_members lib lit e
  have slack := (createVariables_ready lib lit poses pos).1.slack
  have limit := supplies_limitSoc draws slack rfl rfl
  have noDuplicates := supplies_noDuplicates draws rfl
  rw [config, delta] at limit
  rw [config] at noDuplicates
  intro g member
  simp only [Config.generators, Config.sections, Config.conflicts, Config.positions, eager,
    Bool.false_eq_true, if_false, List.flatten_cons, List.flatten_nil, List.append_nil,
    List.nil_append, List.mem_append, List.mem_cons, List.not_mem_nil, or_false] at member
  obtain (rfl | rfl) | ((rfl | rfl) | member) | (member | member) | member := member
  · exact draws
  · unfold Config.movingConflict
    rw [eager]
    cases e.config.movement <;> cases kind : e.config.variableKind
    · exact draws
    · exact drawsPass kind
    · exact drawsShift kind
    · exact draws
    · exact ⟨draws, drawsPass kind⟩
    · exact drawsShift kind
  · exact draws
  · exact draws
  · exact @supplies_noneAtGoal (e.layout lib lit) .createPossitionNoneAtGoal draws e.config g member
  · exact noDuplicates g member
  · unfold Config.movements at member
    cases kind : e.config.variableKind <;>
      simp only [kind, List.mem_cons, List.not_mem_nil, or_false] at member
    · subst member
      exact draws
    · obtain rfl | rfl := member
      · exact ⟨draws, drawsPass kind⟩
      · exact ⟨draws, drawsPass kind⟩
    · obtain rfl | rfl | rfl := member
      · exact draws
      · exact drawsShift kind
      · exact ⟨draws, drawsShift kind⟩
  · exact limit g member

/-- Every entry which the generators of an encoding with positions read has been written. -/
private theorem reads_written {l : Layout} (windows : l.encoder.Windows) (draws : l.DrawsPositions)
    (generators : List Generator) (supplies : ∀ g ∈ generators, l.Supplies g) :
    ∀ g ∈ generators, ∀ x, l.encoder.Reads g x → l.encoder.Written x := by
  intro g called x reads
  refine reads.written windows draws.ready fun unguarded => ?_
  have supplied := supplies g called
  simp only [List.mem_cons, List.not_mem_nil, or_false] at unguarded
  obtain rfl | rfl := unguarded
  · exact ⟨_, supplied.2.ready⟩
  · obtain ⟨-, -, -, drawsPass, -⟩ := supplied
    exact ⟨_, drawsPass.ready⟩

/-! The sections of `CreateFormula` consist of the lines of their generators. -/

private theorem conflicts_eq (l : Layout) (eager : l.encoder.config.lazyConst = .eager) :
    emitLines .conflict l.encoder.conflictClausesEager =
      l.linesOf .createConfVertex ++ l.linesOf l.encoder.config.movingConflict := by
  rw [conflictClausesEager, emitLines_append, createConfMoving, Config.movingConflict, eager]
  cases l.encoder.config.movement <;> cases l.encoder.config.variableKind <;> rfl

private theorem guards_eq (l : Layout) {g : Generator} {F : List Clause}
    (lines : l.linesOf g = emitLines .unit F) (c : Config) :
    emitLines .unit (if c.costFunction = .soc then F else []) =
      (c.noneAtGoal g).flatMap l.linesOf := by
  rw [Config.noneAtGoal]
  cases c.costFunction with
  | mks => rfl
  | soc => rw [if_pos rfl, List.flatMap_cons, List.flatMap_nil, List.append_nil, lines]

private theorem positions_eq (l : Layout) : emitLines .unit l.encoder.positionClauses =
    l.linesOf .createPossitionStart ++ l.linesOf .createPossitionGoal ++
      (l.encoder.config.noneAtGoal .createPossitionNoneAtGoal).flatMap l.linesOf := by
  rw [positionClauses, emitLines_append, emitLines_append, Config.noneAtGoal]
  cases l.encoder.config.costFunction with
  | mks => rfl
  | soc => exact congrArg _ (List.append_nil _).symm

private theorem duplicates_eq (l : Layout) :
    emitLines .dupli (l.encoder.duplicateClauses l.lib l.reaches).1 =
      l.encoder.config.noDuplicates.flatMap l.linesOf := by
  rw [duplicateClauses, Config.noDuplicates]
  cases l.encoder.config.duplicates with
  | forbid => exact (List.append_nil _).symm
  | allow => rfl

private theorem movements_eq (l : Layout) : emitLines .move l.encoder.movementClauses =
    l.encoder.config.movements.flatMap l.linesOf := by
  rw [movementClauses, Config.movements]
  cases l.encoder.config.variableKind with
  | at_ => exact (List.append_nil _).symm
  | pass =>
    dsimp only
    rw [emitLines_append, List.flatMap_cons, List.flatMap_cons, List.flatMap_nil, List.append_nil]
    rfl
  | shift =>
    dsimp only
    rw [emitLines_append, emitLines_append, List.flatMap_cons, List.flatMap_cons, List.flatMap_cons,
      List.flatMap_nil, List.append_nil, List.append_assoc]
    rfl

private theorem costs_eq (l : Layout) :
    emitLines .soc (l.encoder.costClauses l.lib l.duplicates).1 =
      (l.encoder.config.limit l.encoder.delta l.encoder.config.limitSoc).flatMap l.linesOf := by
  rw [costClauses, Config.limit]
  split
  · rw [Config.limitSoc]
    cases l.encoder.config.duplicates <;> exact (List.append_nil _).symm
  · rfl

/-- The lines which the generators of an eager formula write. -/
theorem lines_createFormula (e : Encoder) (lib : Externals) (lit : ℤ) (conflicts : Conflicts)
    (eager : e.config.lazyConst = .eager) {useAvoid : Bool}
    (empty : useAvoid = true → e.inst.avoidLocations = []) :
    (e.createFormula lib true useAvoid lit conflicts).lines =
      (e.config.generators e.delta .sat).flatMap (e.layout lib lit).linesOf := by
  obtain ⟨inst, config, -, -, delta⟩ := createVariables_members e lib lit
  obtain ⟨-, lines, -⟩ := e.createFormula_lines lib conflicts lit useAvoid
  have noAvoid : (if useAvoid then (e.createVariables lib lit).1.createConstAvoid else []) = [] := by
    split
    · next used =>
      rw [createConstAvoid, inst, empty used]
      rfl
    · rfl
  have conflictPart : (e.createVariables lib lit).1.conflictClauses conflicts =
      (e.layout lib lit).encoder.conflictClausesEager := by
    rw [conflictClauses, config, eager]
    rfl
  have members := layout_members lib lit e
  have eager' : (e.layout lib lit).encoder.config.lazyConst = .eager := by rw [members.1, eager]
  have positions := positions_eq (e.layout lib lit)
  have duplicates := duplicates_eq (e.layout lib lit)
  have movements := movements_eq (e.layout lib lit)
  have costs := costs_eq (e.layout lib lit)
  rw [lines, noAvoid, conflictPart, conflicts_eq _ eager']
  change _ ++ emitLines .unit (e.layout lib lit).encoder.positionClauses ++
    emitLines .dupli ((e.layout lib lit).encoder.duplicateClauses lib (e.layout lib lit).reaches).1 ++
    emitLines .move (e.layout lib lit).encoder.movementClauses ++
    emitLines .soc ((e.layout lib lit).encoder.costClauses lib (e.layout lib lit).duplicates).1 ++
    [] = _
  change emitLines .dupli ((e.layout lib lit).encoder.duplicateClauses lib _).1 = _ at duplicates
  change emitLines .soc ((e.layout lib lit).encoder.costClauses lib _).1 = _ at costs
  rw [positions, duplicates, movements, costs, members.1, members.2]
  simp [Config.generators, Config.sections, Config.conflicts, Config.positions, eager]

/-- An eager formula of `_MAPFSAT_SAT` is safe. -/
theorem createFormula_safe {req : Request} (poses : req.Poses e)
    (consecutive : Consecutive lib.encodeAtMostK) (eager : e.config.lazyConst = .eager)
    (pos : 1 ≤ lit) {useAvoid : Bool} (empty : useAvoid = true → e.inst.avoidLocations = [])
    (conflicts : Conflicts) :
    (e.layout lib lit).Safe (e.config.generators e.delta .sat)
      (e.createFormula lib true useAvoid lit conflicts).lines
      (e.createFormula lib true useAvoid lit conflicts).lit := by
  have windows := (createVariables_ready lib lit poses pos).1.windows
  have supplies := @layout_supplies e lib lit _ poses pos eager
  have safe := (layout_staged e lib consecutive pos).safe windows consecutive
    (fun _ => (layout_draws e lib pos).1) supplies
    (reads_written windows (layout_draws e lib pos).1 _ supplies)
  obtain ⟨-, -, last⟩ := e.createFormula_lines lib conflicts lit useAvoid
  rw [lines_createFormula e lib lit conflicts eager empty, last]
  exact safe

/-! ## `_MAPFSAT_SMT` -/

theorem layoutPass_draws (e : Encoder) (lib : Externals) :
    (e.layoutPass lib).DrawsPositions ∧ (e.layoutPass lib).DrawsPasses := by
  have atAlloc := allocates_createAt e lib 1 e.timesteps
  have atReady := createAt_ready e lib 1 e.timesteps le_rfl
  exact ⟨⟨⟨atReady.entry, atReady.covers, atReady.isVar⟩, atAlloc⟩,
    createPass_ready _ lib _ e.timesteps atAlloc.le rfl, allocates_createPass _ lib _ e.timesteps⟩

theorem layoutPass_reaches (e : Encoder) (lib : Externals) : (e.layoutPass lib).DrawsReaches :=
  congrArg Prod.snd (createMoveGraphMonosatPass_eq (e.layoutPass lib).encoder _)

theorem layoutPass_staged (e : Encoder) (lib : Externals)
    (consecutive : Consecutive lib.encodeAtMostK) : (e.layoutPass lib).Staged := by
  obtain ⟨draws, drawsPass⟩ := layoutPass_draws e lib
  have positions : 1 ≤ (e.layoutPass lib).positions := draws.allocates.le
  have passes : (e.layoutPass lib).positions ≤ (e.layoutPass lib).passes := drawsPass.allocates.le
  have reaches : (e.layoutPass lib).shifts ≤ (e.layoutPass lib).reaches :=
    (Int.le_add_of_nonneg_right (Int.natCast_nonneg e.agents)).trans_eq
      (layoutPass_reaches e lib).symm
  have duplicates := duplicateClauses_staged consecutive draws.ready positions
    (passes.trans reaches)
  exact ⟨le_rfl, ⟨positions, fun _ => draws.allocates⟩, ⟨passes, fun _ => drawsPass.allocates⟩,
    irrefl _, reaches, duplicates, lateEnd_staged _ _, lateEnd_le_costClauses consecutive
      (positions.trans ((passes.trans reaches).trans duplicates.1))⟩

/-- The lines which the generators of a formula with pass variables write. -/
theorem lines_createFormulaMonosatPass (e : Encoder) (lib : Externals)
    (kind : e.config.variableKind = .pass) {useAvoid : Bool}
    (empty : useAvoid = true → e.inst.avoidLocations = []) :
    (e.createFormulaMonosatPass lib useAvoid).lines =
      (e.config.generators e.delta .smt).flatMap (e.layoutPass lib).linesOf := by
  obtain ⟨-, lines, -⟩ := e.createFormulaMonosatPass_lines lib useAvoid
  have noAvoid : (if useAvoid then (e.layoutPass lib).encoder.createConstAvoid else []) = [] := by
    split
    · next used =>
      have none : (e.layoutPass lib).encoder.inst.avoidLocations = [] := empty used
      rw [createConstAvoid, none]
      rfl
    · rfl
  have guards : emitLines .unit (if e.config.costFunction = .soc then
      (e.layoutPass lib).encoder.createPossitionNoneAtGoal else []) =
        (e.config.noneAtGoal .createPossitionNoneAtGoal).flatMap (e.layoutPass lib).linesOf :=
    guards_eq (e.layoutPass lib) rfl e.config
  have duplicates : emitLines .dupli ((e.layoutPass lib).encoder.duplicateClauses lib
      (e.layoutPass lib).reaches).1 = e.config.noDuplicates.flatMap (e.layoutPass lib).linesOf :=
    duplicates_eq (e.layoutPass lib)
  have costs : emitLines .soc ((e.layoutPass lib).encoder.costClauses lib
      (e.layoutPass lib).duplicates).1 =
        (e.config.limit e.delta e.config.limitSoc).flatMap (e.layoutPass lib).linesOf :=
    costs_eq (e.layoutPass lib)
  apply lines.trans
  change (e.layoutPass lib).linesOf .createMoveGraphMonosatPass ++
    emitLines .unit (if e.config.costFunction = .soc then
      (e.layoutPass lib).encoder.createPossitionNoneAtGoal else []) ++
    emitLines .conflict ((e.layoutPass lib).encoder.createConfVertex ++
      (e.layoutPass lib).encoder.createConfSwappingPass) ++
    emitLines .conflict ((e.layoutPass lib).encoder.createConfVertex ++
      (e.layoutPass lib).encoder.createConfSwappingPass) ++
    emitLines .dupli ((e.layoutPass lib).encoder.duplicateClauses lib (e.layoutPass lib).reaches).1 ++
    emitLines .soc ((e.layoutPass lib).encoder.costClauses lib (e.layoutPass lib).duplicates).1 ++
    emitLines .conflict (if useAvoid then (e.layoutPass lib).encoder.createConstAvoid else []) = _
  rw [noAvoid, show emitLines .conflict [] = [] from rfl, List.append_nil, emitLines_append, guards,
    duplicates, costs]
  simp only [Config.generators, kind, Config.sectionsMonosatPass, Bool.false_eq_true, if_false,
    List.flatten_cons, List.flatten_nil, List.flatMap_append, List.flatMap_cons, List.flatMap_nil,
    List.append_assoc, List.append_nil]
  rfl

theorem createFormulaMonosatPass_safe {req : Request} (poses : req.Poses e)
    (consecutive : Consecutive lib.encodeAtMostK) (kind : e.config.variableKind = .pass)
    {useAvoid : Bool} (empty : useAvoid = true → e.inst.avoidLocations = []) :
    (e.layoutPass lib).Safe (e.config.generators e.delta .smt)
      (e.createFormulaMonosatPass lib useAvoid).lines (e.createFormulaMonosatPass lib useAvoid).lit := by
  obtain ⟨draws, drawsPass⟩ := layoutPass_draws e lib
  have reaches := layoutPass_reaches e lib
  have ready : (e.layoutPass lib).encoder.Ready (e.layoutPass lib).passes := by
    have ready := (createVariables_ready lib 1 poses le_rfl).1
    rwa [createVariables, kind] at ready
  have supplies : ∀ g ∈ e.config.generators e.delta .smt, (e.layoutPass lib).Supplies g := by
    intro g member
    simp only [Config.generators, kind, Config.sectionsMonosatPass, Bool.false_eq_true, if_false,
      List.flatten_cons, List.flatten_nil, List.append_nil, List.mem_append, List.mem_cons,
      List.not_mem_nil, or_false] at member
    obtain rfl | member | (rfl | rfl) | ((rfl | rfl) | member) | member := member
    · exact ⟨kind, ⟨_, ready⟩, draws, drawsPass, reaches⟩
    · exact @supplies_noneAtGoal (e.layoutPass lib) .createPossitionNoneAtGoal draws e.config g member
    · exact draws
    · exact drawsPass
    · exact draws
    · exact drawsPass
    · exact supplies_noDuplicates draws rfl g member
    · exact supplies_limitSoc draws ready.slack rfl rfl g member
  have safe := (layoutPass_staged e lib consecutive).safe ready.windows consecutive
    (fun _ => draws) supplies (reads_written ready.windows draws _ supplies)
  obtain ⟨-, -, last⟩ := e.createFormulaMonosatPass_lines lib useAvoid
  rw [lines_createFormulaMonosatPass e lib kind empty, last]
  exact safe

theorem layoutShift_draws (e : Encoder) (lib : Externals) : (e.layoutShift lib).DrawsShifts :=
  ⟨createShift_ready e 1 e.timesteps le_rfl, allocates_createShift e 1 e.timesteps⟩

theorem layoutShift_reaches (e : Encoder) (lib : Externals) : (e.layoutShift lib).DrawsReaches := by
  obtain ⟨_, -, same⟩ := createMoveGraphMonosatShift_eq (e.layoutShift lib).encoder
    (e.layoutShift lib).shifts
  exact congrArg Prod.snd same

theorem layoutShift_staged (e : Encoder) (lib : Externals)
    (consecutive : Consecutive lib.encodeAtMostK) : (e.layoutShift lib).Staged := by
  have draws := layoutShift_draws e lib
  have shifts : 1 ≤ (e.layoutShift lib).shifts := draws.allocates.le
  have reaches : (e.layoutShift lib).shifts ≤ (e.layoutShift lib).reaches :=
    (Int.le_add_of_nonneg_right (Int.natCast_nonneg e.agents)).trans_eq
      (layoutShift_reaches e lib).symm
  refine ⟨le_rfl, irrefl _, irrefl _, ⟨shifts, fun _ => draws.allocates⟩, reaches, irrefl _,
    lateEnd_staged _ _, ?_⟩
  unfold layoutShift lateEnd
  dsimp only
  split
  · exact le_limitLate consecutive (shifts.trans reaches) _
  · exact le_rfl

private theorem costsShift_eq (l : Layout) :
    emitLines .soc (if l.encoder.config.costFunction = .soc ∧ 0 < l.encoder.delta then
      l.encoder.createConstLimitSocShift l.lib l.duplicates else ([], l.duplicates)).1 =
      (l.encoder.config.limit l.encoder.delta .createConstLimitSocShift).flatMap l.linesOf := by
  rw [Config.limit]
  split
  · exact (List.append_nil _).symm
  · rfl

/-- The lines which the generators of a formula with shift variables write. -/
theorem lines_createFormulaMonosatShift (e : Encoder) (lib : Externals)
    (kind : e.config.variableKind = .shift) : (e.createFormulaMonosatShift lib).lines =
      (e.config.generators e.delta .smt).flatMap (e.layoutShift lib).linesOf := by
  obtain ⟨-, lines, -⟩ := e.createFormulaMonosatShift_lines lib
  have guards : emitLines .unit (if e.config.costFunction = .soc then
      (e.layoutShift lib).encoder.createPossitionNoneAtGoalShift else []) =
        (e.config.noneAtGoal .createPossitionNoneAtGoalShift).flatMap (e.layoutShift lib).linesOf :=
    guards_eq (e.layoutShift lib) rfl e.config
  have costs : emitLines .soc (if e.config.costFunction = .soc ∧ 0 < e.delta then
      (e.layoutShift lib).encoder.createConstLimitSocShift lib (e.layoutShift lib).duplicates
        else ([], (e.layoutShift lib).duplicates)).1 =
      (e.config.limit e.delta .createConstLimitSocShift).flatMap (e.layoutShift lib).linesOf :=
    costsShift_eq (e.layoutShift lib)
  apply lines.trans
  change (e.layoutShift lib).linesOf .createMoveGraphMonosatShift ++
    emitLines .unit (if e.config.costFunction = .soc then
      (e.layoutShift lib).encoder.createPossitionNoneAtGoalShift else []) ++
    emitLines .conflict (e.layoutShift lib).encoder.createConfSwappingShift ++
    emitLines .move ((e.layoutShift lib).encoder.createMoveExactlyOneShift ++
      (e.layoutShift lib).encoder.createMoveExactlyOneIncomingShift) ++
    emitLines .soc (if e.config.costFunction = .soc ∧ 0 < e.delta then
      (e.layoutShift lib).encoder.createConstLimitSocShift lib (e.layoutShift lib).duplicates
        else ([], (e.layoutShift lib).duplicates)).1 = _
  rw [emitLines_append, guards, costs]
  simp only [Config.generators, kind, Config.sectionsMonosatShift, List.flatten_cons,
    List.flatten_nil, List.flatMap_append, List.flatMap_cons, List.flatMap_nil, List.append_assoc,
    List.append_nil]
  rfl

theorem createFormulaMonosatShift_safe {req : Request} (poses : req.Poses e)
    (consecutive : Consecutive lib.encodeAtMostK) (kind : e.config.variableKind = .shift)
    (reachable : ∀ a < e.agents, 0 ≤ e.inst.firstTimestep a (e.inst.goalOf a)) :
    (e.layoutShift lib).Safe (e.config.generators e.delta .smt)
      (e.createFormulaMonosatShift lib).lines (e.createFormulaMonosatShift lib).lit := by
  have draws := layoutShift_draws e lib
  have poses' : req.Poses (e.layoutShift lib).encoder := ⟨poses.inst, poses.agents, poses.vertices⟩
  have windows : (e.layoutShift lib).encoder.Windows := poses'.windows rfl
  have called {g : Generator} (member : g ∈ e.config.generators e.delta .smt) :
      g = .createMoveGraphMonosatShift ∨
      g ∈ e.config.noneAtGoal .createPossitionNoneAtGoalShift ∨
      g ∈ [Generator.createConfSwappingShift, .createMoveExactlyOneShift,
        .createMoveExactlyOneIncomingShift] ∨
      g ∈ e.config.limit e.delta .createConstLimitSocShift := by
    simp only [Config.generators, kind, Config.sectionsMonosatShift, List.flatten_cons,
      List.flatten_nil, List.append_nil, List.mem_append, List.mem_cons, List.not_mem_nil,
      or_false] at member ⊢
    tauto
  have limit {g : Generator} (member : g ∈ e.config.limit e.delta .createConstLimitSocShift) :
      g = .createConstLimitSocShift ∧ e.config.costFunction = .soc ∧ 0 < e.delta := by
    unfold Config.limit at member
    split at member
    · next bounded => exact ⟨List.mem_singleton.mp member, bounded⟩
    · exact absurd member List.not_mem_nil
  have supplies : ∀ g ∈ e.config.generators e.delta .smt, (e.layoutShift lib).Supplies g := by
    intro g member
    obtain rfl | member | member | member := called member
    · refine ⟨kind, draws, layoutShift_reaches e lib, fun a agent => ?_⟩
      exact (reachable a agent).trans (poses'.goalTime_bounds rfl agent).1
    · exact @supplies_noneAtGoal (e.layoutShift lib) .createPossitionNoneAtGoalShift draws e.config g
        member
    · simp only [List.mem_cons, List.not_mem_nil, or_false] at member
      obtain rfl | rfl | rfl := member <;> exact draws
    · obtain ⟨rfl, bounded⟩ := limit member
      exact ⟨draws, if_pos bounded, if_pos bounded⟩
  have noReads : ∀ g ∈ e.config.generators e.delta .smt, ∀ x,
      (e.layoutShift lib).encoder.Reads g x → (e.layoutShift lib).encoder.Written x := by
    intro g member x reads
    obtain rfl | member | member | member := called member
    · cases reads
    · unfold Config.noneAtGoal at member
      split at member
      · exact absurd member List.not_mem_nil
      · obtain rfl := List.mem_singleton.mp member
        cases reads
    · simp only [List.mem_cons, List.not_mem_nil, or_false] at member
      obtain rfl | rfl | rfl := member <;> cases reads
    · obtain ⟨rfl, -⟩ := limit member
      cases reads
  have noPass : (e.layoutShift lib).encoder.config.variableKind = .pass →
      (e.layoutShift lib).DrawsPositions := fun pass => by cases kind.symm.trans pass
  have safe := (layoutShift_staged e lib consecutive).safe windows consecutive noPass supplies noReads
  have lit : (e.createFormulaMonosatShift lib).lit = (e.layoutShift lib).bounds := by
    obtain ⟨-, -, last⟩ := e.createFormulaMonosatShift_lines lib
    apply last.trans
    unfold layoutShift
    dsimp only
    split <;> rfl
  rw [lit, lines_createFormulaMonosatShift e lib kind]
  exact safe

/-- `_MAPFSAT_SMT` has no encoding with positions only. -/
private theorem layoutMonosat_staged (kind : e.config.variableKind = .at_) :
    (e.layoutMonosat lib).Staged := by
  unfold layoutMonosat
  rw [kind]
  exact ⟨le_rfl, irrefl 1, irrefl 1, irrefl 1, le_rfl, irrefl 1,
    ⟨le_rfl, fun lt => absurd lt (lt_irrefl 1)⟩, le_rfl⟩

theorem createFormulaMonosat_safe {req : Request} (poses : req.Poses e)
    (consecutive : Consecutive lib.encodeAtMostK)
    (reachable : ∀ a < e.agents, 0 ≤ e.inst.firstTimestep a (e.inst.goalOf a))
    {useAvoid : Bool} (empty : useAvoid = true → e.inst.avoidLocations = []) :
    (e.layoutMonosat lib).Safe (e.config.generators e.delta .smt)
      (e.createFormulaMonosat lib useAvoid).lines (e.createFormulaMonosat lib useAvoid).lit := by
  cases kind : e.config.variableKind with
  | at_ =>
    have staged := @layoutMonosat_staged e lib kind
    unfold layoutMonosat createFormulaMonosat at *
    simp only [Config.generators, kind] at staged ⊢
    exact ⟨rfl, rfl, staged, fun has has' => staged.allocates.inj has has',
      fun has has' => has.inj (fun pass => by cases kind.symm.trans pass) has', nofun, nofun, nofun,
      nofun⟩
  | pass =>
    have safe := createFormulaMonosatPass_safe poses consecutive kind empty
    unfold layoutMonosat createFormulaMonosat
    rw [kind]
    exact safe
  | shift =>
    have safe := @createFormulaMonosatShift_safe e lib _ poses consecutive kind reachable
    unfold layoutMonosat createFormulaMonosat
    rw [kind]
    exact safe

end Encoder

end MAPFEncodings

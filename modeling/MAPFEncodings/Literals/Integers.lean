import MAPFEncodings.Literals.Safety
import MAPFEncodings.Model.Integers

/-! # Literal safety with variables of type `int`

As long as the number of variables is an `int`, so are all numbers of variables, and a formula over
values of this type is the one over numbers without bounds. So its variables are distinct, and its
literals denote what is intended.
-/

namespace MAPFEncodings

open Cnf MachineInt

/-! ## Lines -/

def Line.asInt : Line → Line
  | digraph graph => digraph graph
  | edge graph source target var => edge graph source target (wrap var)
  | reach graph source target lit => reach graph source target (wrap lit)
  | clause kind c => clause kind (Clause.asInt c)

theorem Call.lines_asInt (call : Call) : call.asInt.lines = call.lines.map Line.asInt := by
  rw [Call.lines, Call.lines, List.map_filterMap]
  exact (List.filterMap_map ..).trans (List.filterMap_congr fun statement _ => by
    cases statement <;> rfl)

theorem Formula.lines_asInt (f : Formula) : f.asInt.lines = f.lines.map Line.asInt := by
  have calls : f.asInt.calls = f.calls.map Call.asInt := by
    simp only [Formula.calls, Formula.asInt, List.map_append, List.map_flatten]
  rw [Formula.lines, Formula.lines, calls, List.flatMap_map, List.map_flatMap]
  exact List.flatMap_congr fun call _ => call.lines_asInt

/-- Lines whose literals are values of type `int` are not changed. -/
theorem Line.asInt_eq_self {line : Line} (small : ∀ x ∈ line.literals, |x| < 2 ^ 31) :
    line.asInt = line := by
  cases line with
  | digraph graph => rfl
  | edge graph source target var =>
    rw [Line.asInt, wrap_of_abs_lt (small var List.mem_cons_self)]
  | reach graph source target lit =>
    rw [Line.asInt, wrap_of_abs_lt (small lit List.mem_cons_self)]
  | clause kind c =>
    have same : c.map wrap = c := map_wrap small
    rw [Line.asInt, Clause.asInt, same]

/-- The encoding by shifts has no clauses against duplicates. -/
theorem Config.noDuplicates_not_called (c : Config) (delta : ℕ) :
    Generator.createMoveNoDuplicates ∉ (c.sectionsMonosatShift delta).flatten := by
  cases costs : c.costFunction with
  | mks => simp [Config.sectionsMonosatShift, Config.noneAtGoal, Config.limit, costs]
  | soc =>
    by_cases bounded : 0 < delta <;>
      simp [Config.sectionsMonosatShift, Config.noneAtGoal, Config.limit, costs, bounded]

/-! ## Tables -/

namespace Encoder

variable {e : Encoder} {lib : Externals} {lit hi : ℤ}

/-- The largest value of type `int`. -/
def intMax : ℤ := 2 ^ 31 - 1

private theorem allocate_upto {first last : ℤ} (le : first ≤ last) :
    List.Upto 0 intMax (allocate · first last) fun lit =>
      (allocate lit first last).1.asInt = (allocate lit first last).1 := by
  intro lit pos
  simp only [allocate, TEGAgent.asInt, intMax]
  refine ⟨by omega, fun fits => ?_⟩
  rw [wrap_eq_self ⟨by omega, by omega⟩]

private theorem unallocated_upto (a v : ℕ) (dir : Dir) :
    List.Upto 0 intMax (unallocated lib a v dir) fun lit =>
      (unallocated lib a v dir lit).1.asInt = (unallocated lib a v dir lit).1 :=
  fun _ _ => ⟨le_rfl, fun _ => rfl⟩

private theorem atBody_upto (timesteps : ℤ) (a v : ℕ) :
    List.Upto 0 intMax (e.atBody lib timesteps a · v) fun lit =>
      (e.atBody lib timesteps a lit v).1.asInt = (e.atBody lib timesteps a lit v).1 := by
  unfold atBody
  split
  · exact allocate_upto ‹_›
  · exact unallocated_upto a v .wait

private theorem passBody_upto (timesteps : ℤ) (a v : ℕ) (dir : Dir) :
    List.Upto 0 intMax (e.passBody lib timesteps a v · dir) fun lit =>
      (e.passBody lib timesteps a v lit dir).1.asInt = (e.passBody lib timesteps a v lit dir).1 := by
  unfold passBody
  split
  · exact unallocated_upto a v dir
  · split
    · exact allocate_upto (by omega)
    · exact unallocated_upto a v dir

private theorem shiftBody_upto (timesteps : ℤ) (v : ℕ) (dir : Dir) :
    List.Upto 0 intMax (e.shiftBody timesteps v · dir) fun lit =>
      (e.shiftBody timesteps v lit dir).1.asInt = (e.shiftBody timesteps v lit dir).1 := by
  intro lit pos
  simp only [shiftBody, Shift.asInt, intMax]
  refine ⟨by omega, fun fits => ?_⟩
  rw [wrap_eq_self ⟨by omega, by omega⟩]

/-- The entries which `CreateAt` writes are of type `int` if the next unused variable is. -/
theorem createAt_asInt (lib : Externals) (timesteps : ℤ) (pos : 0 ≤ lit)
    (fits : (e.createAt lib lit timesteps).2 ≤ intMax) :
    (e.createAt lib lit timesteps).1.atTable.map (List.map TEGAgent.asInt) =
      (e.createAt lib lit timesteps).1.atTable := by
  have rows := List.Upto.forall_mapState (P := fun row => ∀ entry ∈ row, TEGAgent.asInt entry = entry)
    (List.range e.agents) fun a _ => List.Upto.forall_mapState
      (List.range e.vertices) fun v _ => @atBody_upto e lib timesteps a v
  exact List.map_eq_self fun row member => List.map_eq_self ((rows lit pos).2 fits row member)

theorem createPass_asInt (lib : Externals) (timesteps : ℤ) (pos : 0 ≤ lit)
    (fits : (e.createPass lib lit timesteps).2 ≤ intMax) :
    (e.createPass lib lit timesteps).1.passTable.map (List.map (List.map TEGAgent.asInt)) =
      (e.createPass lib lit timesteps).1.passTable := by
  have rows := List.Upto.forall_mapState
    (P := fun table => ∀ row ∈ table, ∀ entry ∈ row, TEGAgent.asInt entry = entry)
    (List.range e.agents) fun a _ => List.Upto.forall_mapState
      (P := fun row => ∀ entry ∈ row, TEGAgent.asInt entry = entry)
      (List.range e.vertices) fun v _ => List.Upto.forall_mapState Dir.all
        fun dir _ => @passBody_upto e lib timesteps a v dir
  exact List.map_eq_self fun table inside => List.map_eq_self fun row member =>
    List.map_eq_self ((rows lit pos).2 fits table inside row member)

theorem createShift_asInt (timesteps : ℤ) (pos : 0 ≤ lit)
    (fits : (e.createShift lit timesteps).2 ≤ intMax) :
    (e.createShift lit timesteps).1.shiftTable.map (List.map Shift.asInt) =
      (e.createShift lit timesteps).1.shiftTable := by
  have rows := List.Upto.forall_mapState (P := fun row => ∀ entry ∈ row, Shift.asInt entry = entry)
    (List.range e.vertices) fun v _ => List.Upto.forall_mapState Dir.all
      fun dir _ => @shiftBody_upto e timesteps v dir
  exact List.map_eq_self fun row member => List.map_eq_self ((rows lit pos).2 fits row member)

theorem asInt_eq_self (positions : e.atTable.map (List.map TEGAgent.asInt) = e.atTable)
    (passes : e.passTable.map (List.map (List.map TEGAgent.asInt)) = e.passTable)
    (shifts : e.shiftTable.map (List.map Shift.asInt) = e.shiftTable) : e.asInt = e := by
  rw [asInt, positions, passes, shifts]

/-! ## Generators -/

/-- PBLib keeps to the type if what it returns does. -/
theorem encodeAtMostK_asInt (consecutive : Consecutive lib.encodeAtMostK) {lits : List ℤ} {k : ℤ}
    (nonneg : 0 ≤ k) (pos : 1 ≤ lit) (below : ∀ x ∈ lits, x ≠ 0 ∧ |x| < lit) :
    lit ≤ (lib.encodeAtMostK lits k lit).1 + 1 ∧
      ((lib.encodeAtMostK lits k lit).1 + 1 ≤ intMax →
        lib.asInt.encodeAtMostK lits k lit = lib.encodeAtMostK lits k lit) := by
  obtain ⟨le, literals⟩ := consecutive lits k lit nonneg pos below
  refine ⟨le, fun fits => ?_⟩
  have small {x : ℤ} (less : |x| < lit) : |x| < 2 ^ 31 := by
    unfold intMax at fits
    omega
  have given : lits.map wrap = lits := map_wrap fun x member => small (below x member).2
  have first : wrap lit = lit := by
    unfold intMax at fits
    exact wrap_eq_self ⟨by omega, by omega⟩
  have last : wrap (lib.encodeAtMostK lits k lit).1 = (lib.encodeAtMostK lits k lit).1 := by
    unfold intMax at fits
    exact wrap_eq_self ⟨by omega, by omega⟩
  have formula : (lib.encodeAtMostK lits k lit).2.map Clause.asInt =
      (lib.encodeAtMostK lits k lit).2 := by
    refine List.map_eq_self fun c inside => map_wrap fun x member => ?_
    rcases literals c inside x member with (is | isNot) | ⟨-, le'⟩
    · exact small (below x is).2
    · exact small (abs_neg x ▸ (below (-x) isNot).2)
    · unfold intMax at fits
      omega
  simp only [Externals.asInt, given, first, last, formula]

private theorem duplicateStep_upto (consecutive : Consecutive lib.encodeAtMostK)
    (ready : e.AtReady hi) (pos : 1 ≤ hi) {a : ℕ} (agent : a < e.agents) (t : ℤ) :
    List.Upto hi intMax (e.duplicateStep lib a · t) fun lit =>
      e.duplicateStep lib.asInt a lit t = e.duplicateStep lib a lit t := by
  intro lit le
  have call := encodeAtMostK_asInt consecutive zero_le_one (pos.trans le)
    (positionsAt_below ready (t := t) agent le)
  unfold duplicateStep
  split
  · refine ⟨call.1, fun fits => ?_⟩
    dsimp only
    rw [call.2 fits]
  · exact ⟨le_rfl, fun _ => rfl⟩

private theorem duplicateRow_upto (consecutive : Consecutive lib.encodeAtMostK)
    (ready : e.AtReady hi) (pos : 1 ≤ hi) {a : ℕ} (agent : a < e.agents) :
    List.Upto hi intMax (e.duplicateRow lib · a) fun lit =>
      e.duplicateRow lib.asInt lit a = e.duplicateRow lib lit a := by
  have times := List.Upto.mapState_congr (Int.range 0 e.maxTimestep) fun t _ =>
    duplicateStep_upto consecutive ready pos agent t
  intro lit le
  obtain ⟨mono, same⟩ := times lit le
  refine ⟨mono, fun fits => ?_⟩
  unfold duplicateRow
  exact congrArg (fun times => (times.1.flatten, times.2)) (same fits)

theorem createMoveNoDuplicates_upto (consecutive : Consecutive lib.encodeAtMostK)
    (ready : e.AtReady hi) (pos : 1 ≤ hi) : List.Upto hi intMax (e.createMoveNoDuplicates lib)
      fun lit => e.createMoveNoDuplicates lib.asInt lit = e.createMoveNoDuplicates lib lit := by
  have agents := List.Upto.mapState_congr (List.range e.agents) fun a agent =>
    duplicateRow_upto consecutive ready pos (List.mem_range.mp agent)
  intro lit le
  obtain ⟨mono, same⟩ := agents lit le
  refine ⟨mono, fun fits => ?_⟩
  dsimp only
  rw [createMoveNoDuplicates_eq, createMoveNoDuplicates_eq]
  exact congrArg (fun agents => (agents.1.flatten, agents.2)) (same fits)

theorem limitLate_upto (consecutive : Consecutive lib.encodeAtMostK)
    (triggers : ℕ → ℕ → ℤ → List Clause) : List.Upto 1 intMax (e.limitLate lib triggers)
      fun lit => e.limitLate lib.asInt triggers lit = e.limitLate lib triggers lit := by
  intro lit pos
  have alloc := allocates_lateVar e lit
  have call := encodeAtMostK_asInt consecutive (Int.natCast_nonneg e.delta) (pos.trans alloc.le)
    (lateVars_below e pos)
  dsimp only
  rw [limitLate_eq, limitLate_eq]
  exact ⟨alloc.le.trans call.1, fun fits => by rw [call.2 fits]⟩

/-- The lines of a generator, as long as the variables which it draws are of type `int`. -/
theorem linesOf_upto (consecutive : Consecutive lib.encodeAtMostK) (pos : 1 ≤ hi)
    (conflicts : Conflicts) {g : Generator} (ready : g = .createMoveNoDuplicates → e.AtReady hi) :
    List.Upto hi intMax (e.linesOf lib conflicts · g) fun lit =>
      e.linesOf lib.asInt conflicts lit g = e.linesOf lib conflicts lit g := by
  intro lit le
  have limit (triggers : ℕ → ℕ → ℤ → List Clause) : lit ≤ (e.limitLate lib triggers lit).2 ∧
      ((e.limitLate lib triggers lit).2 ≤ intMax →
        e.limitLate lib.asInt triggers lit = e.limitLate lib triggers lit) :=
    limitLate_upto consecutive triggers lit (pos.trans le)
  cases g with
  | createMoveNoDuplicates =>
    obtain ⟨mono, same⟩ := createMoveNoDuplicates_upto consecutive (ready rfl) pos lit le
    exact ⟨mono, fun fits => congrArg (fun F => (emitLines .dupli F.1, F.2)) (same fits)⟩
  | createConstLimitSoc =>
    exact ⟨(limit _).1, fun fits => congrArg (fun F => (emitLines .soc F.1, F.2)) ((limit _).2 fits)⟩
  | createConstLimitSocAllAt =>
    exact ⟨(limit _).1, fun fits => congrArg (fun F => (emitLines .soc F.1, F.2)) ((limit _).2 fits)⟩
  | createConstLimitSocShift =>
    exact ⟨(limit _).1, fun fits => congrArg (fun F => (emitLines .soc F.1, F.2)) ((limit _).2 fits)⟩
  | createMoveGraphMonosatPass =>
    refine ⟨?_, fun _ => rfl⟩
    change lit ≤ (e.createMoveGraphMonosatPass lit).2
    rw [createMoveGraphMonosatPass_eq]
    exact Int.le_add_of_nonneg_right (Int.natCast_nonneg _)
  | createMoveGraphMonosatShift =>
    refine ⟨?_, fun _ => rfl⟩
    obtain ⟨_, -, same⟩ := createMoveGraphMonosatShift_eq e lit
    change lit ≤ (e.createMoveGraphMonosatShift lit).2
    rw [same]
    exact Int.le_add_of_nonneg_right (Int.natCast_nonneg _)
  | _ => exact ⟨le_rfl, fun _ => rfl⟩

/-! ## Formulas -/

section

variable (consecutive : Consecutive lib.encodeAtMostK) (pos : 1 ≤ lit) (conflicts : Conflicts)
  (sections : List (List Generator))
  (ready : .createMoveNoDuplicates ∈ sections.flatten → e.AtReady lit)
include consecutive pos ready

/-- The lines of all sections, as long as the variables which they draw are of type `int`. -/
private theorem linesOfAll_asInt :
    lit ≤ (e.write lib conflicts lit sections).lit ∧
      ((e.write lib conflicts lit sections).lit ≤ intMax →
        e.linesOfAll lib.asInt conflicts lit sections.flatten =
          e.linesOfAll lib conflicts lit sections.flatten) := by
  have generators := List.Upto.mapState_congr sections.flatten fun g called =>
    linesOf_upto consecutive pos conflicts (g := g) fun same => ready (same ▸ called)
  obtain ⟨mono, same⟩ := generators lit le_rfl
  rw [(e.write_lines lib conflicts lit sections).2]
  exact ⟨mono, fun fits => congrArg (fun lines => (lines.1.flatten, lines.2)) (same fits)⟩

/-- If the next unused variable is of type `int` in the end, the formula over values of this type is
the one over numbers without bounds. -/
theorem writeInt_safe (ints : e.asInt = e) {l : Layout} {generators : List Generator}
    (safe : l.Safe generators (e.write lib conflicts lit sections).lines
      (e.write lib conflicts lit sections).lit)
    (fits : (e.write lib conflicts lit sections).lit ≤ intMax) :
    (e.writeInt lib conflicts lit sections).encoder = e ∧
      l.Safe generators (e.writeInt lib conflicts lit sections).lines
        (e.writeInt lib conflicts lit sections).lit := by
  obtain ⟨mono, same⟩ := linesOfAll_asInt consecutive pos conflicts sections ready
  have wrapped {x : ℤ} (positive : 1 ≤ x) (less : x ≤ intMax) : wrap x = x := by
    unfold intMax at less
    exact wrap_eq_self ⟨by omega, by omega⟩
  have first : wrap lit = lit := wrapped pos (mono.trans fits)
  have last : wrap (e.write lib conflicts lit sections).lit =
      (e.write lib conflicts lit sections).lit := wrapped (pos.trans mono) fits
  obtain ⟨lines, lit_eq⟩ := e.write_lines lib conflicts lit sections
  obtain ⟨lines', lit_eq'⟩ := e.write_lines lib.asInt conflicts lit sections
  rw [same fits, ← lines] at lines'
  rw [same fits, ← lit_eq] at lit_eq'
  have unchanged : (e.write lib conflicts lit sections).lines.map Line.asInt =
      (e.write lib conflicts lit sections).lines := by
    refine List.map_eq_self fun line member => Line.asInt_eq_self fun x inside => ?_
    have below := (safe.inRange line member x inside).2
    unfold intMax at fits
    omega
  refine ⟨?_, ?_⟩
  · change e.asInt.asInt = e
    rw [ints, ints]
  · rw [writeInt, ints, first, Formula.lines_asInt, lines', unchanged]
    change l.Safe generators _ (wrap (e.write lib.asInt conflicts lit sections).lit)
    rw [lit_eq', last]
    exact safe

end

section

variable (ints : e.asInt = e)
include ints

/-- The tables which are written for a formula are of type `int` if the next unused variable is. -/
theorem createVariables_asInt (pos : 1 ≤ lit) (fits : (e.createVariables lib lit).2 ≤ intMax) :
    (e.createVariables lib lit).1.asInt = (e.createVariables lib lit).1 := by
  have nonneg : 0 ≤ lit := zero_le_one.trans pos
  have nonneg' := nonneg.trans (allocates_createAt e lib lit e.timesteps).le
  have passes : e.passTable.map (List.map (List.map TEGAgent.asInt)) = e.passTable :=
    congrArg passTable ints
  have shifts : e.shiftTable.map (List.map Shift.asInt) = e.shiftTable := congrArg shiftTable ints
  unfold createVariables at fits ⊢
  dsimp only at fits ⊢
  cases kind : e.config.variableKind with
  | at_ =>
    simp only [kind] at fits
    exact asInt_eq_self (createAt_asInt lib e.timesteps nonneg fits) passes shifts
  | pass =>
    simp only [kind] at fits
    have mono := (allocates_createPass (e.createAt lib lit e.timesteps).1 lib
      (e.createAt lib lit e.timesteps).2 e.timesteps).le
    exact asInt_eq_self (createAt_asInt lib e.timesteps nonneg (mono.trans fits))
      (createPass_asInt lib e.timesteps nonneg' fits) shifts
  | shift =>
    simp only [kind] at fits
    have mono := (allocates_createShift (e.createAt lib lit e.timesteps).1
      (e.createAt lib lit e.timesteps).2 e.timesteps).le
    exact asInt_eq_self (createAt_asInt lib e.timesteps nonneg (mono.trans fits)) passes
      (createShift_asInt e.timesteps nonneg' fits)

theorem createFormulaInt_safe {req : Request} (poses : req.Poses e)
    (consecutive : Consecutive lib.encodeAtMostK) (eager : e.config.lazyConst = .eager)
    (pos : 1 ≤ lit) {useAvoid : Bool} (empty : useAvoid = true → e.inst.avoidLocations = [])
    (conflicts : Conflicts)
    (fits : (e.createFormula lib true useAvoid lit conflicts).lit ≤ intMax) :
    (e.createFormulaInt lib useAvoid lit conflicts).encoder = (e.layout lib lit).encoder ∧
      (e.layout lib lit).Safe (e.config.generators e.delta .sat)
        (e.createFormulaInt lib useAvoid lit conflicts).lines
        (e.createFormulaInt lib useAvoid lit conflicts).lit := by
  have safe := createFormula_safe poses consecutive eager pos empty conflicts
  obtain ⟨ready, le⟩ := createVariables_ready lib lit poses pos
  have mono := (linesOfAll_asInt consecutive (pos.trans le) conflicts
    ((e.createVariables lib lit).1.config.sections useAvoid (e.createVariables lib lit).1.delta)
    fun _ => ready.atReady).1
  exact writeInt_safe consecutive (pos.trans le) conflicts _ (fun _ => ready.atReady)
    (createVariables_asInt ints pos (mono.trans fits)) safe fits

theorem createFormulaMonosatInt_safe {req : Request} (poses : req.Poses e)
    (consecutive : Consecutive lib.encodeAtMostK)
    (reachable : ∀ a < e.agents, 0 ≤ e.inst.firstTimestep a (e.inst.goalOf a))
    {useAvoid : Bool} (empty : useAvoid = true → e.inst.avoidLocations = [])
    (fits : (e.createFormulaMonosat lib useAvoid).lit ≤ intMax) :
    (e.createFormulaMonosatInt lib useAvoid).encoder = (e.layoutMonosat lib).encoder ∧
      (e.layoutMonosat lib).Safe (e.config.generators e.delta .smt)
        (e.createFormulaMonosatInt lib useAvoid).lines
        (e.createFormulaMonosatInt lib useAvoid).lit := by
  have safe := createFormulaMonosat_safe poses consecutive reachable empty
  unfold createFormulaMonosat at fits safe
  unfold createFormulaMonosatInt
  cases kind : e.config.variableKind with
  | at_ =>
    simp only [kind] at fits safe ⊢
    have encoder : (e.layoutMonosat lib).encoder = e := by rw [layoutMonosat, kind]
    rw [encoder]
    exact writeInt_safe consecutive le_rfl _ _ (fun called => absurd called (by decide)) ints safe fits
  | pass =>
    simp only [kind] at fits safe ⊢
    obtain ⟨ready, le⟩ := createVariables_ready lib 1 poses le_rfl
    have tables := @createVariables_asInt e lib 1 ints le_rfl
    rw [createVariables, kind] at ready le tables
    dsimp only at ready le tables
    have mono := (linesOfAll_asInt consecutive le ⟨[], [], []⟩
      (e.config.sectionsMonosatPass useAvoid e.delta) fun _ => ready.atReady).1
    have encoder : (e.layoutMonosat lib).encoder = ((e.createAt lib 1 e.timesteps).1.createPass lib
        (e.createAt lib 1 e.timesteps).2 e.timesteps).1 := by rw [layoutMonosat, kind]; rfl
    rw [encoder]
    exact writeInt_safe consecutive le _ _ (fun _ => ready.atReady) (tables (mono.trans fits)) safe fits
  | shift =>
    simp only [kind] at fits safe ⊢
    have le : 1 ≤ (e.createShift 1 e.timesteps).2 := (allocates_createShift e 1 e.timesteps).le
    have mono := (linesOfAll_asInt (e := (e.createShift 1 e.timesteps).1) consecutive le
      ⟨[], [], []⟩ _ fun called => absurd called (e.config.noDuplicates_not_called e.delta)).1
    have passes : e.passTable.map (List.map (List.map TEGAgent.asInt)) = e.passTable :=
      congrArg passTable ints
    have positions : e.atTable.map (List.map TEGAgent.asInt) = e.atTable := congrArg atTable ints
    have tables := asInt_eq_self (e := (e.createShift 1 e.timesteps).1) positions passes
      (createShift_asInt e.timesteps zero_le_one (mono.trans fits))
    have encoder : (e.layoutMonosat lib).encoder = (e.createShift 1 e.timesteps).1 := by
      rw [layoutMonosat, kind]
      rfl
    rw [encoder]
    exact writeInt_safe consecutive le _ _
      (fun called => absurd called (e.config.noDuplicates_not_called e.delta)) tables safe fits

end

end Encoder

/-- As long as the number of variables is of type `int`, the variables of an eager formula are
distinct, and its literals denote what they should. -/
theorem createFormulas_literallySafe {req : Request} {e : Encoder} (poses : req.Poses e)
    (ints : e.asInt = e) (reachable : ∀ a < e.agents, 0 ≤ e.inst.firstTimestep a (e.inst.goalOf a))
    {lib : Externals} (consecutive : Consecutive lib.encodeAtMostK) {useAvoid : Bool}
    (empty : useAvoid = true → e.inst.avoidLocations = []) :
    (e.config.lazyConst = .eager → ∀ lit, 1 ≤ lit → ∀ conflicts,
      (e.createFormula lib true useAvoid lit conflicts).lit < 2 ^ 31 →
      (e.createFormulaInt lib useAvoid lit conflicts).encoder = (e.layout lib lit).encoder ∧
      (e.layout lib lit).Safe (e.config.generators e.delta .sat)
        (e.createFormulaInt lib useAvoid lit conflicts).lines
        (e.createFormulaInt lib useAvoid lit conflicts).lit) ∧
    ((e.createFormulaMonosat lib useAvoid).lit < 2 ^ 31 →
      (e.createFormulaMonosatInt lib useAvoid).encoder = (e.layoutMonosat lib).encoder ∧
      (e.layoutMonosat lib).Safe (e.config.generators e.delta .smt)
        (e.createFormulaMonosatInt lib useAvoid).lines
        (e.createFormulaMonosatInt lib useAvoid).lit) :=
  ⟨fun eager _ pos conflicts fits => Encoder.createFormulaInt_safe ints poses consecutive eager pos
      empty conflicts (Int.le_sub_one_of_lt fits),
    fun fits => Encoder.createFormulaMonosatInt_safe ints poses consecutive reachable empty
      (Int.le_sub_one_of_lt fits)⟩

theorem createFormulas_literallySafe_rows :
    let e := Encoder.rows ⟨.pass, .soc, .parallel, .eager, .forbid⟩ 1
    (e.layout .binomial 7).Safe (e.config.generators e.delta .sat)
        (e.createFormulaInt .binomial false 7 ⟨[], [], []⟩).lines
        (e.createFormulaInt .binomial false 7 ⟨[], [], []⟩).lit ∧
      (e.layoutMonosat .binomial).Safe (e.config.generators e.delta .smt)
        (e.createFormulaMonosatInt .binomial false).lines
        (e.createFormulaMonosatInt .binomial false).lit := by
  intro e
  have safe := @createFormulas_literallySafe _ e (Task.rows_poses _ 1).request rfl (by decide)
    .binomial binomialAtMost_consecutive false nofun
  exact ⟨(safe.1 rfl 7 (by decide) ⟨[], [], []⟩ (by decide +kernel)).2,
    (safe.2 (by decide +kernel)).2⟩

/-- Without cost limit and without clauses against duplicates no variables are drawn behind the
tables, and the starts have their clauses. -/
private theorem createFormulaInt_tables {e : Encoder} (lib : Externals) (lit : ℤ)
    (conflicts : Conflicts) (config : e.config = ⟨.at_, .mks, .parallel, .eager, .allow⟩) :
    (e.createFormulaInt lib false lit conflicts).lit = wrap (wrap (e.createVariables lib lit).2) ∧
      ∀ c ∈ (e.createVariables lib lit).1.asInt.createPossitionStart,
        Line.clause .unit (Clause.asInt c) ∈ (e.createFormulaInt lib false lit conflicts).lines := by
  let made := e.createVariables lib lit
  obtain ⟨-, kept, -, -, -⟩ := e.createVariables_members lib lit
  let sections := made.1.config.sections false made.1.delta
  obtain ⟨lines, last⟩ := made.1.asInt.write_lines lib.asInt conflicts (wrap made.2) sections
  have called : sections.flatten = [.createConfVertex, .createConfSwappingAt, .createPossitionStart,
      .createPossitionGoal, .createMoveNextVertexAt] := by
    simp only [sections, made, kept, config]
    rfl
  rw [called] at lines last
  refine ⟨congrArg wrap last, fun c member => ?_⟩
  change _ ∈ (made.1.asInt.write lib.asInt conflicts (wrap made.2) sections).asInt.lines
  rw [Formula.lines_asInt, lines]
  refine List.mem_map.mpr ⟨.clause .unit c, ?_, rfl⟩
  refine List.mem_flatten.mpr ⟨Encoder.emitLines .unit made.1.asInt.createPossitionStart, ?_,
    List.mem_map_of_mem member⟩
  exact List.mem_of_getElem? (i := 2) rfl

/-- The literals of a formula are not below the number of variables which is returned if this number
is too large for an `int`. -/
theorem createFormulaInt_overflow :
    let e := Task.cell.encoder ⟨.at_, .mks, .parallel, .eager, .allow⟩ 2147483646
    Task.cell.Poses e ∧ e.asInt = e ∧ Consecutive Externals.binomial.encodeAtMostK ∧
      (e.createFormulaInt .binomial false 1 ⟨[], [], []⟩).lit = -2147483648 ∧
      ∀ (l : Layout) (generators : List Generator), ¬l.Safe generators
        (e.createFormulaInt .binomial false 1 ⟨[], [], []⟩).lines
        (e.createFormulaInt .binomial false 1 ⟨[], [], []⟩).lit := by
  intro e
  obtain ⟨last, starts⟩ := createFormulaInt_tables (e := e) .binomial 1 ⟨[], [], []⟩ rfl
  have drawn : (e.createVariables .binomial 1).2 = 2147483648 := by decide +kernel
  rw [drawn, show wrap (wrap 2147483648) = -2147483648 by decide] at last
  refine ⟨Task.encoder_poses .., rfl, binomialAtMost_consecutive, last, fun l generators safe => ?_⟩
  have start := starts [1] (by decide +kernel)
  have below := (safe.inRange _ start 1 (by decide)).2
  rw [last] at below
  exact absurd below (by decide)

end MAPFEncodings

import MAPFEncodings.Literals.Reads
import MAPFEncodings.Model.Solver

/-! # The generators of the eager formulas

The eager encodings call a list of generators which depends on their options. Each generator writes
its clauses over the variables of the stages before its own.
-/

namespace MAPFEncodings

open Cnf

/-- The generators which the encodings call without locations to avoid, in order. -/
def Config.generators (c : Config) (delta : ℕ) : Backend → List Generator
  | .sat => (c.sections false delta).flatten
  | .smt =>
    match c.variableKind with
    | .at_ => []
    | .pass => (c.sectionsMonosatPass false delta).flatten
    | .shift => (c.sectionsMonosatShift delta).flatten

namespace Layout

variable (l : Layout)

/-- The clauses of an eager generator, which starts where its stage starts. -/
def clausesOf : Generator → List Clause
  | .createPossitionStart => l.encoder.createPossitionStart
  | .createPossitionGoal => l.encoder.createPossitionGoal
  | .createPossitionNoneAtGoal => l.encoder.createPossitionNoneAtGoal
  | .createPossitionNoneAtGoalShift => l.encoder.createPossitionNoneAtGoalShift
  | .createConfVertex => l.encoder.createConfVertex
  | .createConfSwappingAt => l.encoder.createConfSwappingAt
  | .createConfSwappingPass => l.encoder.createConfSwappingPass
  | .createConfSwappingShift => l.encoder.createConfSwappingShift
  | .createConfPebbleAt => l.encoder.createConfPebbleAt
  | .createConfPebblePass => l.encoder.createConfPebblePass
  | .createConfPebbleShift => l.encoder.createConfPebbleShift
  | .createMoveNoDuplicates => (l.encoder.createMoveNoDuplicates l.lib l.reaches).1
  | .createMoveNextVertexAt => l.encoder.createMoveNextVertexAt
  | .createMoveEnterVertexPass => l.encoder.createMoveEnterVertexPass
  | .createMoveNextEdgePass => l.encoder.createMoveNextEdgePass
  | .createMoveExactlyOneShift => l.encoder.createMoveExactlyOneShift
  | .createMoveExactlyOneIncomingShift => l.encoder.createMoveExactlyOneIncomingShift
  | .createMoveNextVertexShift => l.encoder.createMoveNextVertexShift
  | .createConstLimitSoc => (l.encoder.createConstLimitSoc l.lib l.duplicates).1
  | .createConstLimitSocAllAt => (l.encoder.createConstLimitSocAllAt l.lib l.duplicates).1
  | .createConstLimitSocShift => (l.encoder.createConstLimitSocShift l.lib l.duplicates).1
  | _ => []

/-- The lines of an eager generator. -/
def linesOf : Generator → List Line
  | .createMoveGraphMonosatPass => (l.encoder.createMoveGraphMonosatPass l.shifts).1
  | .createMoveGraphMonosatShift => (l.encoder.createMoveGraphMonosatShift l.shifts).1
  | g => Encoder.emitLines g.counter (l.clausesOf g)

/-- The stages from which a generator takes variables have been drawn. -/
def Supplies : Generator → Prop
  | .createPossitionStart => l.DrawsPositions
  | .createPossitionGoal => l.DrawsPositions
  | .createPossitionNoneAtGoal => l.DrawsPositions
  | .createPossitionNoneAtGoalShift => l.DrawsShifts
  | .createConfVertex => l.DrawsPositions
  | .createConfSwappingAt => l.DrawsPositions
  | .createConfSwappingPass => l.DrawsPasses
  | .createConfSwappingShift => l.DrawsShifts
  | .createConfPebbleAt => l.DrawsPositions
  | .createConfPebblePass => l.DrawsPositions ∧ l.DrawsPasses
  | .createConfPebbleShift => l.DrawsShifts
  | .createMoveNoDuplicates => l.DrawsPositions ∧
      l.duplicates = (l.encoder.createMoveNoDuplicates l.lib l.reaches).2
  | .createMoveNextVertexAt => l.DrawsPositions
  | .createMoveEnterVertexPass => l.DrawsPositions ∧ l.DrawsPasses
  | .createMoveNextEdgePass => l.DrawsPositions ∧ l.DrawsPasses
  | .createMoveExactlyOneShift => l.DrawsShifts
  | .createMoveExactlyOneIncomingShift => l.DrawsShifts
  | .createMoveNextVertexShift => l.DrawsPositions ∧ l.DrawsShifts
  | .createConstLimitSoc => l.DrawsPositions ∧ l.DrawsLate ∧ l.encoder.Slack ∧
      l.bounds = (l.encoder.createConstLimitSoc l.lib l.duplicates).2
  | .createConstLimitSocAllAt => l.DrawsPositions ∧ l.DrawsLate ∧
      l.bounds = (l.encoder.createConstLimitSocAllAt l.lib l.duplicates).2
  | .createConstLimitSocShift => l.DrawsShifts ∧ l.DrawsLate ∧
      l.bounds = (l.encoder.createConstLimitSocShift l.lib l.duplicates).2
  | .createMoveGraphMonosatPass => l.encoder.config.variableKind = .pass ∧
      (∃ hi, l.encoder.Ready hi) ∧ l.DrawsPositions ∧ l.DrawsPasses ∧ l.DrawsReaches
  | .createMoveGraphMonosatShift => l.encoder.config.variableKind = .shift ∧ l.DrawsShifts ∧
      l.DrawsReaches ∧ ∀ a < l.encoder.agents, 0 ≤ l.encoder.goalTime a
  | _ => True

variable {l}

theorem clausesOf_asserts (staged : l.Staged) (windows : l.encoder.Windows)
    (consecutive : Consecutive l.lib.encodeAtMostK) {g : Generator} (supplies : l.Supplies g) :
    ∀ c ∈ l.clausesOf g, l.Asserts g c := by
  have posDuplicates : 1 ≤ l.duplicates := by
    have := staged.pos
    have := staged.positions.1
    have := staged.passes.1
    have := staged.shifts.1
    have := staged.reaches
    have := staged.duplicates.1
    omega
  have posPositions : 1 ≤ l.positions := staged.pos.trans staged.positions.1
  have le : l.positions ≤ l.reaches :=
    staged.passes.1.trans (staged.shifts.1.trans staged.reaches)
  cases g with
  | createPossitionStart => exact (createPossitionStart_speaks supplies windows).asserts fun _ => id
  | createPossitionGoal => exact (createPossitionGoal_speaks supplies windows).asserts fun _ => id
  | createPossitionNoneAtGoal =>
    exact (createPossitionNoneAtGoal_speaks supplies windows).asserts fun _ => id
  | createPossitionNoneAtGoalShift =>
    exact (createPossitionNoneAtGoalShift_speaks supplies windows).asserts fun _ => id
  | createConfVertex => exact (createConfVertex_speaks supplies).asserts fun _ => id
  | createConfSwappingAt => exact (createConfSwappingAt_speaks supplies windows).asserts fun _ => id
  | createConfSwappingPass =>
    exact (createConfSwappingPass_speaks supplies windows).asserts fun _ => id
  | createConfSwappingShift =>
    exact (createConfSwappingShift_speaks supplies windows).asserts fun _ => id
  | createConfPebbleAt => exact (createConfPebbleAt_speaks supplies).asserts fun _ => id
  | createConfPebblePass =>
    exact (createConfPebblePass_speaks supplies.1 supplies.2 windows).asserts fun _ => id
  | createConfPebbleShift =>
    exact (createConfPebbleShift_speaks supplies windows).asserts fun _ => id
  | createMoveNoDuplicates =>
    exact createMoveNoDuplicates_asserts supplies.1 consecutive posPositions le supplies.2
  | createMoveNextVertexAt =>
    exact (createMoveNextVertexAt_speaks supplies windows).asserts fun _ => id
  | createMoveEnterVertexPass =>
    exact (createMoveEnterVertexPass_speaks supplies.1 supplies.2 windows).asserts fun _ => id
  | createMoveNextEdgePass =>
    exact (createMoveNextEdgePass_speaks supplies.1 supplies.2).asserts fun _ => id
  | createMoveExactlyOneShift =>
    exact (createMoveExactlyOneShift_speaks supplies).asserts fun _ => id
  | createMoveExactlyOneIncomingShift =>
    exact (createMoveExactlyOneIncomingShift_speaks supplies windows).asserts fun _ => id
  | createMoveNextVertexShift =>
    exact (createMoveNextVertexShift_speaks supplies.1 supplies.2 windows).asserts fun _ => id
  | createConstLimitSoc =>
    obtain ⟨draws, late, slack, ends⟩ := supplies
    refine limitLate_asserts late consecutive posDuplicates ends
      (fun a agent d delay => limitSoc_speaks draws late windows slack agent delay) ?_
      fun s => .limitSocLate
    rintro a agent d delay s rfl
    exact .limitSoc agent delay
  | createConstLimitSocAllAt =>
    obtain ⟨draws, late, ends⟩ := supplies
    refine limitLate_asserts late consecutive posDuplicates ends
      (fun a agent d delay => limitSocAllAt_speaks draws late windows agent delay) ?_
      fun s => .limitSocAllAtLate
    rintro a agent d delay s ⟨v, away, here, rfl⟩
    exact .limitSocAllAt delay away here
  | createConstLimitSocShift =>
    obtain ⟨draws, late, ends⟩ := supplies
    refine limitLate_asserts late consecutive posDuplicates ends
      (fun a agent d delay => limitSocShift_speaks draws late windows agent delay) ?_
      fun s => .limitSocShiftLate
    rintro a agent d delay s ⟨dir, moves, u, next, into, rfl⟩
    exact .limitSocShift agent delay moves next into
  | createConfVertexOnDemand => exact nofun
  | createConfSwappingAtOnDemand => exact nofun
  | createConfSwappingPassOnDemand => exact nofun
  | createConfSwappingShiftOnDemand => exact nofun
  | createConfPebbleAtOnDemand => exact nofun
  | createConfPebblePassOnDemand => exact nofun
  | createConfPebbleShiftOnDemand => exact nofun
  | createConstAvoid => exact nofun
  | createMoveGraphMonosatPass => exact nofun
  | createMoveGraphMonosatShift => exact nofun

theorem linesOf_asserts (staged : l.Staged) (windows : l.encoder.Windows)
    (consecutive : Consecutive l.lib.encodeAtMostK) {g : Generator} (supplies : l.Supplies g) :
    ∀ line ∈ l.linesOf g, l.AssertsLine g line := by
  have clauses : ∀ line ∈ Encoder.emitLines g.counter (l.clausesOf g), l.AssertsLine g line := by
    intro line member
    obtain ⟨c, inside, rfl⟩ := List.mem_map.mp member
    exact (clausesOf_asserts staged windows consecutive supplies c inside).line _
  cases g with
  | createMoveGraphMonosatPass =>
    obtain ⟨kind, ⟨_, ready⟩, draws, drawsPass, reaches⟩ := supplies
    exact createMoveGraphMonosatPass_asserts ready kind draws drawsPass reaches
  | createMoveGraphMonosatShift =>
    obtain ⟨kind, draws, reaches, reachable⟩ := supplies
    exact createMoveGraphMonosatShift_asserts windows kind draws reaches reachable
  | _ => exact clauses

/-- What a generator writes depends on the timesteps of no other entries than those it reads. -/
theorem linesOf_congr {g : Generator} {e' : Encoder} (same : l.encoder.SameOn e' (l.encoder.Reads g)) :
    ({ l with encoder := e' } : Layout).linesOf g = l.linesOf g := by
  have clauses {F G : List Clause} (same : F = G) :
      Encoder.emitLines g.counter F = Encoder.emitLines g.counter G := same ▸ rfl
  cases g with
  | createPossitionStart => exact clauses same.createPossitionStart
  | createPossitionGoal => exact clauses same.createPossitionGoal
  | createPossitionNoneAtGoal => exact clauses same.createPossitionNoneAtGoal
  | createPossitionNoneAtGoalShift => exact clauses same.createPossitionNoneAtGoalShift
  | createConfVertex => exact clauses same.createConfVertex
  | createConfSwappingAt => exact clauses same.createConfSwappingAt
  | createConfSwappingPass => exact clauses same.createConfSwappingPass
  | createConfSwappingShift => exact clauses same.createConfSwappingShift
  | createConfPebbleAt => exact clauses same.createConfPebbleAt
  | createConfPebblePass => exact clauses same.createConfPebblePass
  | createConfPebbleShift => exact clauses same.createConfPebbleShift
  | createMoveNoDuplicates =>
    exact clauses (congrArg Prod.fst (same.createMoveNoDuplicates l.lib l.reaches))
  | createMoveNextVertexAt => exact clauses same.createMoveNextVertexAt
  | createMoveEnterVertexPass => exact clauses same.createMoveEnterVertexPass
  | createMoveNextEdgePass => exact clauses same.createMoveNextEdgePass
  | createMoveExactlyOneShift => exact clauses same.createMoveExactlyOneShift
  | createMoveExactlyOneIncomingShift => exact clauses same.createMoveExactlyOneIncomingShift
  | createMoveNextVertexShift => exact clauses same.createMoveNextVertexShift
  | createConstLimitSoc =>
    exact clauses (congrArg Prod.fst (same.createConstLimitSoc l.lib l.duplicates))
  | createConstLimitSocAllAt =>
    exact clauses (congrArg Prod.fst (same.createConstLimitSocAllAt l.lib l.duplicates))
  | createConstLimitSocShift =>
    exact clauses (congrArg Prod.fst (same.createConstLimitSocShift l.lib l.duplicates))
  | createMoveGraphMonosatPass => exact congrArg Prod.fst (same.createMoveGraphMonosatPass l.shifts)
  | createMoveGraphMonosatShift =>
    exact congrArg Prod.fst (same.createMoveGraphMonosatShift l.shifts)
  | _ => rfl

end Layout

end MAPFEncodings

import MAPFEncodings.Literals.Safety

/-! # Formulas which differ by an offset

`CreateFormula` numbers its variables from the first free one. Two formulas of the same request
which start at different numbers are therefore equal up to the difference of these numbers, whatever
the tables and the freshly allocated memory contained before.
-/

namespace MAPFEncodings

open Cnf

/-- The same timesteps, with variables which are larger by an offset. -/
def TEGAgent.Moved (off : ℤ) (x y : TEGAgent) : Prop :=
  ∀ t, (x.Covers t ↔ y.Covers t) ∧ (y.Covers t → x.var t = y.var t + off)

def Shift.Moved (off : ℤ) (x y : Shift) : Prop := ∀ t, x.var? t = (y.var? t).map (· + off)

namespace Encoder

variable {e e' : Encoder} {lib lib' : Externals} {off lit : ℤ}

/-! ## Tables -/

private theorem moved_default : (default : TEGAgent).Moved off default :=
  fun _ => ⟨Iff.rfl, fun covers => absurd rfl covers.1⟩

/-- The free variables of two loops, of which the first is further on. -/
private def Further (off s s' : ℤ) : Prop := 1 ≤ s' ∧ s = s' + off

private theorem Further.allocate {s s' first last : ℤ} (further : Further off s s')
    (nonneg : 0 ≤ off) (le : first ≤ last) :
    (Encoder.allocate s first last).1.Moved off (Encoder.allocate s' first last).1 ∧
      Further off (Encoder.allocate s first last).2 (Encoder.allocate s' first last).2 := by
  obtain ⟨pos, rfl⟩ := further
  unfold Encoder.allocate Further TEGAgent.Moved TEGAgent.Covers TEGAgent.var
  dsimp only
  refine ⟨fun t => ⟨?_, fun _ => by ring⟩, by omega, by ring⟩
  exact and_congr_left' (iff_of_true (by omega) (by omega))

private theorem Further.unallocated {s s' : ℤ} (further : Further off s s') (a v : ℕ) (dir : Dir) :
    (Encoder.unallocated lib a v dir s).1.Moved off (Encoder.unallocated lib' a v dir s').1 ∧
      Further off (Encoder.unallocated lib a v dir s).2 (Encoder.unallocated lib' a v dir s').2 := by
  refine ⟨fun t => ⟨?_, fun covers => absurd rfl covers.1⟩, further⟩
  exact iff_of_false (fun covers => covers.1 rfl) fun covers => covers.1 rfl

private theorem Further.atBody {s s' : ℤ} (further : Further off s s') (alike : e.Alike e')
    (nonneg : 0 ≤ off) (timesteps : ℤ) (a v : ℕ) :
    (e.atBody lib timesteps a s v).1.Moved off (e'.atBody lib' timesteps a s' v).1 ∧
      Further off (e.atBody lib timesteps a s v).2 (e'.atBody lib' timesteps a s' v).2 := by
  unfold Encoder.atBody Encoder.lastTimestep
  rw [alike.inst, alike.config, alike.delta]
  split
  · next le => exact further.allocate nonneg le
  · exact further.unallocated a v .wait

theorem createAt_moved (alike : e.Alike e') (nonneg : 0 ≤ off) (pos : 1 ≤ lit) (timesteps : ℤ) :
    (∀ a v, ((e.createAt lib (lit + off) timesteps).1.atEntry a v).Moved off
      ((e'.createAt lib' lit timesteps).1.atEntry a v)) ∧
    (e.createAt lib (lit + off) timesteps).2 = (e'.createAt lib' lit timesteps).2 + off := by
  have loops := List.mapState_rel (S := Further off) (R := List.Forall₂ (TEGAgent.Moved off))
    (fun lit a => List.mapState (e.atBody lib timesteps a) lit (List.range e.vertices))
    (fun lit a => List.mapState (e'.atBody lib' timesteps a) lit (List.range e.vertices))
    (List.range e.agents) (fun s s' further a _ =>
      List.mapState_rel _ _ _ (fun s s' further v _ => further.atBody alike nonneg timesteps a v)
        further) ⟨pos, rfl⟩
  have table : (e'.createAt lib' lit timesteps).1.atTable = (List.mapState (fun lit a =>
      List.mapState (e'.atBody lib' timesteps a) lit (List.range e.vertices)) lit
        (List.range e.agents)).1 := by
    rw [alike.agents, alike.vertices]
    rfl
  have last : (e'.createAt lib' lit timesteps).2 = (List.mapState (fun lit a =>
      List.mapState (e'.atBody lib' timesteps a) lit (List.range e.vertices)) lit
        (List.range e.agents)).2 := by
    rw [alike.agents, alike.vertices]
    rfl
  unfold atEntry
  rw [table, last]
  exact ⟨fun a v => (loops.1.getD .nil a).getD moved_default v, loops.2.2⟩

private theorem Further.passBody {s s' : ℤ} (further : Further off s s') (alike : e.Alike e')
    (nonneg : 0 ≤ off) (timesteps : ℤ) (a v : ℕ) (dir : Dir) :
    (e.passBody lib timesteps a v s dir).1.Moved off (e'.passBody lib' timesteps a v s' dir).1 ∧
      Further off (e.passBody lib timesteps a v s dir).2
        (e'.passBody lib' timesteps a v s' dir).2 := by
  unfold Encoder.passBody Encoder.lastTimestep
  rw [alike.inst, alike.config, alike.delta]
  split
  · exact further.unallocated a v dir
  · split
    · exact further.allocate nonneg (by omega)
    · exact further.unallocated a v dir

theorem createPass_moved (alike : e.Alike e') (nonneg : 0 ≤ off) (pos : 1 ≤ lit) (timesteps : ℤ) :
    (∀ a v dir, ((e.createPass lib (lit + off) timesteps).1.passEntry a v dir).Moved off
      ((e'.createPass lib' lit timesteps).1.passEntry a v dir)) ∧
    (e.createPass lib (lit + off) timesteps).2 = (e'.createPass lib' lit timesteps).2 + off := by
  have loops := List.mapState_rel (S := Further off)
    (R := List.Forall₂ (List.Forall₂ (TEGAgent.Moved off)))
    (fun lit a => List.mapState (fun lit v =>
      List.mapState (e.passBody lib timesteps a v) lit Dir.all) lit (List.range e.vertices))
    (fun lit a => List.mapState (fun lit v =>
      List.mapState (e'.passBody lib' timesteps a v) lit Dir.all) lit (List.range e.vertices))
    (List.range e.agents) (fun s s' further a _ =>
      List.mapState_rel _ _ _ (fun s s' further v _ =>
        List.mapState_rel _ _ _ (fun s s' further dir _ =>
          further.passBody alike nonneg timesteps a v dir) further) further) ⟨pos, rfl⟩
  have table : (e'.createPass lib' lit timesteps).1.passTable = (List.mapState (fun lit a =>
      List.mapState (fun lit v => List.mapState (e'.passBody lib' timesteps a v) lit Dir.all) lit
        (List.range e.vertices)) lit (List.range e.agents)).1 := by
    rw [alike.agents, alike.vertices]
    rfl
  have last : (e'.createPass lib' lit timesteps).2 = (List.mapState (fun lit a =>
      List.mapState (fun lit v => List.mapState (e'.passBody lib' timesteps a v) lit Dir.all) lit
        (List.range e.vertices)) lit (List.range e.agents)).2 := by
    rw [alike.agents, alike.vertices]
    rfl
  unfold passEntry
  rw [table, last]
  exact ⟨fun a v dir => ((loops.1.getD .nil a).getD .nil v).getD moved_default dir.index, loops.2.2⟩

private theorem Further.shiftBody {s s' : ℤ} (further : Further off s s') (alike : e.Alike e')
    (timesteps : ℤ) (v : ℕ) (dir : Dir) :
    (e.shiftBody timesteps v s dir).1.Moved off (e'.shiftBody timesteps v s' dir).1 ∧
      Further off (e.shiftBody timesteps v s dir).2 (e'.shiftBody timesteps v s' dir).2 := by
  obtain ⟨pos, rfl⟩ := further
  have times : e.shiftTimes timesteps v dir = e'.shiftTimes timesteps v dir := by
    unfold Encoder.shiftTimes Encoder.lastTimestep
    rw [alike.inst, alike.config, alike.delta, alike.agents]
  unfold Encoder.shiftBody Further Shift.Moved Shift.var?
  rw [times]
  dsimp only
  refine ⟨fun t => ?_, by omega, by ring⟩
  split
  · rfl
  · rw [Option.map_some]
    congr 1
    ring

theorem createShift_moved (alike : e.Alike e') (pos : 1 ≤ lit) (timesteps : ℤ) :
    (∀ v dir, ((e.createShift (lit + off) timesteps).1.shiftEntry v dir).Moved off
      ((e'.createShift lit timesteps).1.shiftEntry v dir)) ∧
    (e.createShift (lit + off) timesteps).2 = (e'.createShift lit timesteps).2 + off := by
  have loops := List.mapState_rel (S := Further off) (R := List.Forall₂ (Shift.Moved off))
    (fun lit v => List.mapState (e.shiftBody timesteps v) lit Dir.all)
    (fun lit v => List.mapState (e'.shiftBody timesteps v) lit Dir.all)
    (List.range e.vertices) (fun s s' further v _ =>
      List.mapState_rel _ _ _ (fun s s' further dir _ => further.shiftBody alike timesteps v dir)
        further) ⟨pos, rfl⟩
  have table : (e'.createShift lit timesteps).1.shiftTable = (List.mapState (fun lit v =>
      List.mapState (e'.shiftBody timesteps v) lit Dir.all) lit (List.range e.vertices)).1 := by
    rw [alike.vertices]
    rfl
  have last : (e'.createShift lit timesteps).2 = (List.mapState (fun lit v =>
      List.mapState (e'.shiftBody timesteps v) lit Dir.all) lit (List.range e.vertices)).2 := by
    rw [alike.vertices]
    rfl
  unfold shiftEntry
  rw [table, last]
  exact ⟨fun v dir => (loops.1.getD .nil v).getD (fun _ => rfl) dir.index, loops.2.2⟩

/-- The tables of an encoding, and the ones which start at a smaller variable. -/
theorem createVariables_moved (alike : e.Alike e') (nonneg : 0 ≤ off) (pos : 1 ≤ lit) :
    (∀ a v, ((e.createVariables lib (lit + off)).1.atEntry a v).Moved off
      ((e'.createVariables lib' lit).1.atEntry a v)) ∧
    (e.config.variableKind = .pass → ∀ a v dir,
      ((e.createVariables lib (lit + off)).1.passEntry a v dir).Moved off
        ((e'.createVariables lib' lit).1.passEntry a v dir)) ∧
    (e.config.variableKind = .shift → ∀ v dir,
      ((e.createVariables lib (lit + off)).1.shiftEntry v dir).Moved off
        ((e'.createVariables lib' lit).1.shiftEntry v dir)) ∧
    (e.createAt lib (lit + off) e.timesteps).2 = (e'.createAt lib' lit e'.timesteps).2 + off ∧
    (e.createVariables lib (lit + off)).2 = (e'.createVariables lib' lit).2 + off := by
  have timesteps : e'.timesteps = e.timesteps := by
    unfold Encoder.timesteps
    rw [alike.inst, alike.agents, alike.delta]
  obtain ⟨entries, last⟩ := @createAt_moved e e' lib lib' off lit alike nonneg pos e.timesteps
  have posAt : 1 ≤ (e'.createAt lib' lit e.timesteps).2 :=
    pos.trans (allocates_createAt e' lib' lit e.timesteps).le
  have made : (e.createAt lib (lit + off) e.timesteps).1.Alike
      (e'.createAt lib' lit e.timesteps).1 :=
    ⟨alike.inst, alike.config, alike.agents, alike.vertices, alike.delta⟩
  unfold createVariables
  dsimp only
  rw [timesteps, ← alike.config, last]
  cases kind : e.config.variableKind with
  | at_ => exact ⟨entries, nofun, nofun, rfl, rfl⟩
  | pass =>
    have passes := @createPass_moved _ _ lib lib' off _ made nonneg posAt e.timesteps
    exact ⟨entries, fun _ => passes.1, nofun, rfl, passes.2⟩
  | shift =>
    have shifts := @createShift_moved _ _ off _ made posAt e.timesteps
    exact ⟨entries, nofun, fun _ => shifts.1, rfl, shifts.2⟩

/-! ## Auxiliary variables -/

/-- The positions of an agent, in the same order. -/
theorem positionsAt_moved {hi : ℤ} (vertices : e.vertices = e'.vertices) (nonneg : 0 ≤ off)
    (moved : ∀ a v, (e.atEntry a v).Moved off (e'.atEntry a v)) (ready : e'.AtReady hi) {a : ℕ}
    (agent : a < e'.agents) (t : ℤ) :
    (e.positionsAt a t).map (shiftLit off) = e'.positionsAt a t ∧
      ∀ x ∈ e.positionsAt a t, off < |x| ∧ |x| < hi + off := by
  have each (v : ℕ) (vertex : v < e'.vertices) (covers : (e'.atEntry a v).Covers t) :
      (e.atEntry a v).var t = (e'.atEntry a v).var t + off ∧ 0 < (e'.atEntry a v).var t ∧
        (e'.atEntry a v).var t < hi :=
    ⟨((moved a v t).2 covers), ready.isVar a agent v vertex t covers⟩
  unfold positionsAt
  rw [vertices]
  constructor
  · rw [List.map_filterMap]
    refine List.filterMap_congr fun v member => ?_
    have vertex := List.mem_range.mp member
    by_cases covers : (e'.atEntry a v).Covers t
    · obtain ⟨same, pos, -⟩ := each v vertex covers
      rw [if_pos covers, if_pos ((moved a v t).1.mpr covers), Option.map_some, same, shiftLit,
        if_pos (by omega), add_sub_cancel_right]
    · rw [if_neg covers, if_neg fun c => covers ((moved a v t).1.mp c), Option.map_none]
  · intro x member
    obtain ⟨v, vertex, found⟩ := List.mem_filterMap.mp member
    obtain ⟨covers, rfl⟩ : (e.atEntry a v).Covers t ∧ (e.atEntry a v).var t = x := by
      simpa using found
    obtain ⟨same, pos, lt⟩ := each v (List.mem_range.mp vertex) ((moved a v t).1.mp covers)
    rw [same, abs_of_pos (by omega)]
    omega

/-- The calls of the cardinality encoder for one agent and timestep, of which the first starts
further on. -/
theorem duplicateStep_moved (consecutive : Consecutive lib.encodeAtMostK)
    (commutes : Commutes lib.encodeAtMostK) (encode : lib'.encodeAtMostK = lib.encodeAtMostK)
    (vertices : e.vertices = e'.vertices) (nonneg : 0 ≤ off)
    (moved : ∀ a v, (e.atEntry a v).Moved off (e'.atEntry a v)) {hi : ℤ} (ready : e'.AtReady hi)
    (pos : 1 ≤ hi) {a : ℕ} (agent : a < e'.agents) (t : ℤ) {s s' : ℤ}
    (further : hi ≤ s' ∧ s = s' + off) :
    (e.duplicateStep lib a s t).1.map (shiftClause off) = (e'.duplicateStep lib' a s' t).1 ∧
      hi ≤ (e'.duplicateStep lib' a s' t).2 ∧
        (e.duplicateStep lib a s t).2 = (e'.duplicateStep lib' a s' t).2 + off := by
  obtain ⟨le, rfl⟩ := further
  obtain ⟨same, range⟩ := positionsAt_moved vertices nonneg moved ready agent t
  have grows := le_duplicateStep (encode ▸ consecutive) ready pos agent t le
  have call := commutes off _ 1 (s' + off) nonneg zero_le_one (by omega) fun x member =>
    ⟨(range x member).1, (range x member).2.trans_le (by omega)⟩
  rw [add_sub_cancel_right, same] at call
  have step : e'.duplicateStep lib' a s' t = ((e.duplicateStep lib a (s' + off) t).1.map
      (shiftClause off), (e.duplicateStep lib a (s' + off) t).2 - off) := by
    unfold duplicateStep
    rw [← same, List.length_map, same, encode, call]
    split
    · exact Prod.ext rfl (by dsimp only; ring)
    · exact Prod.ext rfl (by dsimp only; ring)
  rw [step] at grows ⊢
  exact ⟨rfl, le.trans grows, (sub_add_cancel _ _).symm⟩

/-- Before each agent and timestep, and after the last one. -/
theorem createMoveNoDuplicates_moved (consecutive : Consecutive lib.encodeAtMostK)
    (commutes : Commutes lib.encodeAtMostK) (encode : lib'.encodeAtMostK = lib.encodeAtMostK)
    (vertices : e.vertices = e'.vertices) (agents : e.agents = e'.agents)
    (steps : e.maxTimestep = e'.maxTimestep) (nonneg : 0 ≤ off)
    (moved : ∀ a v, (e.atEntry a v).Moved off (e'.atEntry a v)) {hi : ℤ} (ready : e'.AtReady hi)
    (pos : 1 ≤ hi) (le : hi ≤ lit) :
    (e.createMoveNoDuplicates lib (lit + off)).1.map (shiftClause off) =
      (e'.createMoveNoDuplicates lib' lit).1 ∧
    (e.createMoveNoDuplicates lib (lit + off)).2 = (e'.createMoveNoDuplicates lib' lit).2 + off ∧
    ∀ a < e'.agents, ∀ t, e.duplicateCall lib (lit + off) a t =
      e'.duplicateCall lib' lit a t + off := by
  have step {a : ℕ} (agent : a < e'.agents) (times : List ℤ) {s s' : ℤ}
      (further : hi ≤ s' ∧ s = s' + off) := List.mapState_rel
    (S := fun s s' => hi ≤ s' ∧ s = s' + off) (R := fun F F' => F.map (shiftClause off) = F')
    (e.duplicateStep lib a) (e'.duplicateStep lib' a) times
    (fun s s' further t _ => duplicateStep_moved consecutive commutes encode vertices nonneg moved
      ready pos agent t further) further
  have flat {Fs Fs' : List (List Clause)}
      (each : List.Forall₂ (fun F F' => F.map (shiftClause off) = F') Fs Fs') :
      Fs.flatten.map (shiftClause off) = Fs'.flatten := by
    induction each with
    | nil => rfl
    | cons same _ ih => rw [List.flatten_cons, List.map_append, same, ih, List.flatten_cons]
  have rows (n : ℕ) (bound : n ≤ e'.agents) := List.mapState_rel
    (S := fun s s' => hi ≤ s' ∧ s = s' + off) (R := fun F F' => F.map (shiftClause off) = F')
    (e.duplicateRow lib) (e'.duplicateRow lib') (List.range n)
    (fun s s' further a member => by
      have row := step ((List.mem_range.mp member).trans_le bound) (Int.range 0 e'.maxTimestep)
        further
      unfold duplicateRow
      rw [steps]
      exact ⟨flat row.1, row.2⟩) ⟨le, rfl⟩
  rw [createMoveNoDuplicates_eq, createMoveNoDuplicates_eq, agents]
  refine ⟨flat (rows _ le_rfl).1, (rows _ le_rfl).2.2, fun a agent t => ?_⟩
  exact (step agent (Int.range 0 t) (rows a agent.le).2).2.2

theorem lateVars_moved (agents : e.agents = e'.agents) (delta : e.delta = e'.delta)
    (nonneg : 0 ≤ off) (pos : 1 ≤ lit) :
    (e.lateVars (lit + off)).map (shiftLit off) = e'.lateVars lit ∧
      ∀ x ∈ e.lateVars (lit + off), off < |x| ∧
        |x| < lit + off + (e.agents : ℤ) * e.delta := by
  have alloc := allocates_lateVar e lit
  have shift (a d : ℕ) : e.lateVar (lit + off) a d = e.lateVar lit a d + off := by
    unfold lateVar
    ring
  have bounds {a d : ℕ} (agent : a < e.agents) (delay : d < e.delta) :
      lit ≤ e.lateVar lit a d ∧ e.lateVar lit a d < lit + (e.agents : ℤ) * e.delta :=
    alloc.bounds (k := (a, d)) ⟨agent, delay, rfl⟩
  constructor
  · simp only [lateVars, List.map_flatMap, List.map_map, agents, delta]
    refine List.flatMap_congr fun a agent => List.map_congr_left fun d delay => ?_
    rw [List.mem_range] at agent delay
    have range := bounds (agents ▸ agent) (delta ▸ delay)
    rw [Function.comp_apply, shift, shiftLit, if_pos (by omega), add_sub_cancel_right]
    unfold lateVar
    rw [delta]
  · intro x member
    simp only [lateVars, List.mem_flatMap, List.mem_map, List.mem_range] at member
    obtain ⟨a, agent, d, delay, rfl⟩ := member
    have range := bounds agent delay
    rw [shift, abs_of_pos (by omega)]
    omega

end Encoder

/-- The generators without auxiliary variables. -/
def Generator.Plain : Generator → Prop
  | .createMoveNoDuplicates => False
  | .createConstLimitSoc => False
  | .createConstLimitSocAllAt => False
  | .createConstLimitSocShift => False
  | .createMoveGraphMonosatPass => False
  | .createMoveGraphMonosatShift => False
  | _ => True

namespace Layout

variable {off : ℤ} {l l' : Layout}

/-- The stages of a formula, and of one which starts at a smaller variable. -/
structure Moved (off : ℤ) (l l' : Layout) : Prop where
  nonneg : 0 ≤ off
  outline : l.encoder.outline = l'.encoder.outline
  encode : l'.lib.encodeAtMostK = l.lib.encodeAtMostK
  start : 1 ≤ l'.duplicates
  duplicates : l.duplicates = l'.duplicates + off
  number : ∀ x, l'.Owned x → 0 < l'.number x ∧ l.number x = l'.number x + off

theorem Speaks.moved (moved : Moved off l l') {S T : List (Literal Object) → Prop}
    {F F' : List Clause} (speaks : l.Speaks S F) (speaks' : l'.Speaks T F') (same : S = T)
    (c : Clause) : c ∈ F.map (shiftClause off) ↔ c ∈ F' := by
  subst same
  refine speaks.writes.shift speaks'.writes (fun s holds k inside => ?_) c
  obtain ⟨pos, shift⟩ := moved.number k.name (speaks'.owned s holds k inside)
  have := moved.nonneg
  exact ⟨by omega, shift⟩

theorem clausesOf_speaks (windows : l.encoder.Windows) {g : Generator} (plain : g.Plain)
    (supplies : l.Supplies g) :
    l.Speaks (fun s => Intends l.encoder.outline g (.clause s)) (l.clausesOf g) := by
  cases g with
  | createPossitionStart => exact createPossitionStart_speaks supplies windows
  | createPossitionGoal => exact createPossitionGoal_speaks supplies windows
  | createPossitionNoneAtGoal => exact createPossitionNoneAtGoal_speaks supplies windows
  | createPossitionNoneAtGoalShift => exact createPossitionNoneAtGoalShift_speaks supplies windows
  | createConfVertex => exact createConfVertex_speaks supplies
  | createConfSwappingAt => exact createConfSwappingAt_speaks supplies windows
  | createConfSwappingPass => exact createConfSwappingPass_speaks supplies windows
  | createConfSwappingShift => exact createConfSwappingShift_speaks supplies windows
  | createConfPebbleAt => exact createConfPebbleAt_speaks supplies
  | createConfPebblePass => exact createConfPebblePass_speaks supplies.1 supplies.2 windows
  | createConfPebbleShift => exact createConfPebbleShift_speaks supplies windows
  | createMoveNextVertexAt => exact createMoveNextVertexAt_speaks supplies windows
  | createMoveEnterVertexPass => exact createMoveEnterVertexPass_speaks supplies.1 supplies.2 windows
  | createMoveNextEdgePass => exact createMoveNextEdgePass_speaks supplies.1 supplies.2
  | createMoveExactlyOneShift => exact createMoveExactlyOneShift_speaks supplies
  | createMoveExactlyOneIncomingShift => exact createMoveExactlyOneIncomingShift_speaks supplies windows
  | createMoveNextVertexShift => exact createMoveNextVertexShift_speaks supplies.1 supplies.2 windows
  | createMoveNoDuplicates => exact plain.elim
  | createConstLimitSoc => exact plain.elim
  | createConstLimitSocAllAt => exact plain.elim
  | createConstLimitSocShift => exact plain.elim
  | createMoveGraphMonosatPass => exact plain.elim
  | createMoveGraphMonosatShift => exact plain.elim
  | _ => exact ⟨.nil nofun, nofun⟩

namespace Moved

variable (moved : Moved off l l')
include moved

theorem inst : l.encoder.inst = l'.encoder.inst := congrArg Outline.inst moved.outline

theorem agents : l.encoder.agents = l'.encoder.agents := congrArg Outline.agents moved.outline

theorem delta : l.encoder.delta = l'.encoder.delta := congrArg Outline.delta moved.outline

/-- The clauses which bound the lateness. -/
theorem limitLate {triggers triggers' : ℕ → ℕ → ℤ → List Clause}
    {T T' : ℕ → ℕ → List (Literal Object) → Prop} (same : T = T')
    (commutes : Commutes l.lib.encodeAtMostK) (late : l.DrawsLate) (late' : l'.DrawsLate)
    (each : ∀ a < l.encoder.agents, ∀ d < l.encoder.delta,
      l.Speaks (T a d) (triggers a d (l.encoder.lateVar l.duplicates a d)))
    (each' : ∀ a < l'.encoder.agents, ∀ d < l'.encoder.delta,
      l'.Speaks (T' a d) (triggers' a d (l'.encoder.lateVar l'.duplicates a d))) (c : Clause) :
    c ∈ (l.encoder.limitLate l.lib triggers l.duplicates).1.map (shiftClause off) ↔
      c ∈ (l'.encoder.limitLate l'.lib triggers' l'.duplicates).1 := by
  subst same
  have chain := (lateClauses_speaks late each).moved moved (lateClauses_speaks late' each') (by
    unfold LateClause
    rw [moved.agents, moved.delta]) c
  obtain ⟨vars, range⟩ := @Encoder.lateVars_moved l.encoder l'.encoder off l'.duplicates
    moved.agents moved.delta moved.nonneg moved.start
  have slots : (0 : ℤ) ≤ (l.encoder.agents : ℤ) * l.encoder.delta := by positivity
  have start := moved.start
  have call := commutes off _ l.encoder.delta
    (l'.duplicates + off + (l.encoder.agents : ℤ) * l.encoder.delta) moved.nonneg
    (Int.natCast_nonneg _) (by omega) range
  rw [vars, show l'.duplicates + off + (l.encoder.agents : ℤ) * l.encoder.delta - off =
    l'.duplicates + (l.encoder.agents : ℤ) * l.encoder.delta by ring] at call
  rw [Encoder.limitLate_eq, Encoder.limitLate_eq, List.map_append, List.mem_append,
    List.mem_append, moved.duplicates, moved.encode, ← moved.agents, ← moved.delta, call]
  rw [lateClauses, lateClauses, moved.duplicates, ← moved.agents, ← moved.delta] at chain
  exact or_congr_left chain

/-- Each generator writes the same clauses about the same objects. -/
theorem clausesOf (windows : l.encoder.Windows) (windows' : l'.encoder.Windows)
    (consecutive : Consecutive l.lib.encodeAtMostK) (commutes : Commutes l.lib.encodeAtMostK)
    (positions : ∀ a v, (l.encoder.atEntry a v).Moved off (l'.encoder.atEntry a v))
    (reaches : l'.positions ≤ l'.reaches ∧ l.reaches = l'.reaches + off) (pos : 1 ≤ l'.positions)
    {g : Generator} (supplies : l.Supplies g) (supplies' : l'.Supplies g) (c : Clause) :
    c ∈ (l.clausesOf g).map (shiftClause off) ↔ c ∈ l'.clausesOf g := by
  have plainly (plain : g.Plain) : c ∈ (l.clausesOf g).map (shiftClause off) ↔ c ∈ l'.clausesOf g :=
    (clausesOf_speaks windows plain supplies).moved moved
      (clausesOf_speaks windows' plain supplies') (by rw [moved.outline]) c
  have afterShortest (a d : ℕ) : l.encoder.afterShortest a d = l'.encoder.afterShortest a d := by
    unfold Encoder.afterShortest
    rw [moved.inst]
  cases g with
  | createMoveNoDuplicates =>
    obtain ⟨same, -, -⟩ := Encoder.createMoveNoDuplicates_moved consecutive commutes moved.encode
      (congrArg Outline.vertices moved.outline) moved.agents (congrArg Outline.steps moved.outline)
      moved.nonneg positions supplies'.1.ready pos reaches.1
    rw [← reaches.2] at same
    unfold Layout.clausesOf
    rw [same]
  | createConstLimitSoc =>
    obtain ⟨draws, late, slack, -⟩ := supplies
    obtain ⟨draws', late', slack', -⟩ := supplies'
    have same : l.LateAway = l'.LateAway := by
      unfold LateAway
      simp only [moved.inst, afterShortest]
    refine moved.limitLate same commutes late late'
      (fun a agent d delay => limitSoc_speaks draws late windows slack agent delay)
      (fun a agent d delay => limitSoc_speaks draws' late' windows' slack' agent delay) c
  | createConstLimitSocAllAt =>
    obtain ⟨draws, late, -⟩ := supplies
    obtain ⟨draws', late', -⟩ := supplies'
    have same : l.LateElsewhere = l'.LateElsewhere := by
      unfold LateElsewhere
      simp only [moved.inst, moved.outline, afterShortest]
    refine moved.limitLate same commutes late late'
      (fun a agent d delay => limitSocAllAt_speaks draws late windows agent delay)
      (fun a agent d delay => limitSocAllAt_speaks draws' late' windows' agent delay) c
  | createConstLimitSocShift =>
    obtain ⟨draws, late, -⟩ := supplies
    obtain ⟨draws', late', -⟩ := supplies'
    have same : l.LateEntering = l'.LateEntering := by
      unfold LateEntering
      simp only [moved.inst, moved.outline, afterShortest]
    refine moved.limitLate same commutes late late'
      (fun a agent d delay => limitSocShift_speaks draws late windows agent delay)
      (fun a agent d delay => limitSocShift_speaks draws' late' windows' agent delay) c
  | createMoveGraphMonosatPass => exact Iff.rfl
  | createMoveGraphMonosatShift => exact Iff.rfl
  | _ => exact plainly trivial

end Moved

end Layout

/-! ## Formulas -/

namespace Encoder

variable {req : Request} {e e' : Encoder} {lib lib' : Externals} {off lit : ℤ}

theorem Alike.createVariables (alike : e.Alike e') (lit lit' : ℤ) :
    (e.createVariables lib lit).1.outline = (e'.createVariables lib' lit').1.outline := by
  obtain ⟨inst, config, agents, vertices, delta⟩ := e.createVariables_members lib lit
  obtain ⟨inst', config', agents', vertices', delta'⟩ := e'.createVariables_members lib' lit'
  unfold outline
  rw [maxTimestep_createVariables, maxTimestep_createVariables, inst, config, agents, vertices,
    delta, inst', config', agents', vertices', delta']
  unfold timesteps
  rw [alike.inst, alike.config, alike.agents, alike.vertices, alike.delta]

theorem lateEnd_moved (alike : e.Alike e') (lit : ℤ) :
    e.lateEnd (lit + off) = e'.lateEnd lit + off := by
  unfold lateEnd
  rw [alike.config, alike.delta, alike.agents]
  split
  · ring
  · rfl

theorem Alike.made (alike : e.Alike e') (lit lit' : ℤ) :
    (e.createVariables lib lit).1.Alike (e'.createVariables lib' lit').1 := by
  have same := @Alike.createVariables e e' lib lib' alike lit lit'
  exact ⟨congrArg Outline.inst same, congrArg Outline.config same, congrArg Outline.agents same,
    congrArg Outline.vertices same, congrArg Outline.delta same⟩

theorem layout_moved (alike : e.Alike e')
    (consecutive : Consecutive lib.encodeAtMostK) (commutes : Commutes lib.encodeAtMostK)
    (encode : lib'.encodeAtMostK = lib.encodeAtMostK) (nonneg : 0 ≤ off) (pos : 1 ≤ lit) :
    Layout.Moved off (e.layout lib (lit + off)) (e'.layout lib' lit) := by
  obtain ⟨entries, passes, shifts, ends, last⟩ :=
    @createVariables_moved e e' lib lib' off lit alike nonneg pos
  have staged := layout_staged e' lib' (encode ▸ consecutive) pos
  obtain ⟨draws, -, -⟩ := layout_draws e' lib' pos
  have outline := @Alike.createVariables e e' lib lib' alike (lit + off) lit
  have posAt : 1 ≤ (e'.layout lib' lit).positions := pos.trans staged.positions.1
  have le : (e'.layout lib' lit).positions ≤ (e'.createVariables lib' lit).2 :=
    staged.passes.1.trans staged.shifts.1
  have config : (e.createVariables lib (lit + off)).1.config =
      (e'.createVariables lib' lit).1.config := congrArg Outline.config outline
  obtain ⟨-, calls⟩ := createMoveNoDuplicates_moved consecutive commutes encode
    (congrArg Outline.vertices outline) (congrArg Outline.agents outline)
    (congrArg Outline.steps outline) nonneg entries draws.ready posAt le
  rw [← last] at calls
  have duplicates : (e.layout lib (lit + off)).duplicates =
      (e'.layout lib' lit).duplicates + off := by
    unfold layout duplicateClauses
    dsimp only
    rw [config]
    split
    · exact calls.1
    · exact last
  have lates : (e.layout lib (lit + off)).lates = (e'.layout lib' lit).lates + off := by
    have moved := @lateEnd_moved _ _ off (@Alike.made e e' lib lib' alike (lit + off) lit)
      (e'.layout lib' lit).duplicates
    rw [← duplicates] at moved
    exact moved
  have start : 1 ≤ (e'.layout lib' lit).duplicates :=
    posAt.trans (le.trans (staged.reaches.trans staged.duplicates.1))
  refine ⟨nonneg, outline, encode, start, duplicates, fun x owned => ⟨(staged.isVar owned).1, ?_⟩⟩
  cases x with
  | position a v t => exact (entries a v t).2 owned.1.2.2.1
  | pass a v dir t =>
    by_cases isPass : e'.config.variableKind = .pass
    · exact (passes (alike.config ▸ isPass) a v dir t).2 owned.1.2.2.1
    · have none : (e'.layout lib' lit).passes = (e'.layout lib' lit).positions := if_neg isPass
      exact absurd (owned.2.1.trans_lt owned.2.2) (by omega)
  | shift v dir t =>
    have found : ((e'.layout lib' lit).encoder.shiftEntry v dir).var? t =
        some ((e'.layout lib' lit).number (.shift v dir t)) := owned.1.2
    by_cases isShift : e'.config.variableKind = .shift
    · have same := shifts (alike.config ▸ isShift) v dir t
      change ((e'.createVariables lib' lit).1.shiftEntry v dir).var? t = _ at found
      rw [found, Option.map_some] at same
      rw [Layout.number, show ((e.layout lib (lit + off)).encoder.shiftEntry v dir).var? t = _
        from same, Option.getD_some]
    · have none : (e'.layout lib' lit).shifts = (e'.layout lib' lit).passes := by
        unfold layout createVariables
        dsimp only
        cases kind : e'.config.variableKind with
        | at_ => rfl
        | pass => rfl
        | shift => exact absurd kind isShift
      exact absurd (owned.2.1.trans_lt owned.2.2) (by omega)
  | reach a =>
    have none : (e'.layout lib' lit).reaches = (e'.layout lib' lit).shifts := rfl
    obtain ⟨same, lt⟩ := owned
    exact absurd lt (by rw [← same]; omega)
  | duplicate a t i =>
    have call := calls.2 a owned.1.1.1 t
    change (e.createVariables lib (lit + off)).1.duplicateCall lib
      (e.createVariables lib (lit + off)).2 a t + i = (e'.createVariables lib' lit).1.duplicateCall
        lib' (e'.createVariables lib' lit).2 a t + i + off
    rw [call]
    ring
  | late a d =>
    change lateVar _ _ a d = lateVar _ _ a d + off
    rw [duplicates]
    unfold lateVar
    rw [show (e.layout lib (lit + off)).encoder.delta = (e'.layout lib' lit).encoder.delta from
      congrArg Outline.delta outline]
    ring
  | bound i =>
    change (e.layout lib (lit + off)).lates + i = (e'.layout lib' lit).lates + i + off
    rw [lates]
    ring

/-- `_MAPFSAT_SAT` writes clauses only. -/
private theorem linesOf_eq {l : Layout} {c : Config} {delta : ℕ} {g : Generator}
    (member : g ∈ c.generators delta .sat) : l.linesOf g = emitLines g.counter (l.clausesOf g) := by
  have plain : g ≠ .createMoveGraphMonosatPass ∧ g ≠ .createMoveGraphMonosatShift := by
    obtain ⟨variableKind, costFunction, movement, lazyConst, duplicates⟩ := c
    simp only [Config.generators, Config.sections, Config.conflicts, Config.positions,
      Config.noneAtGoal, Config.noDuplicates, Config.movements, Config.limit, Config.limitSoc,
      Config.movingConflict] at member
    constructor
    all_goals
      rintro rfl
      revert member
      cases variableKind <;> cases costFunction <;> cases movement <;> cases lazyConst <;>
        cases duplicates <;> simp
  cases g with
  | createMoveGraphMonosatPass => exact absurd rfl plain.1
  | createMoveGraphMonosatShift => exact absurd rfl plain.2
  | _ => rfl

variable (lib lit) in
/-- The sections of an eager formula consist of the clauses of their generators. -/
theorem mem_emitted_iff (conflicts : Conflicts) (eager : e.config.lazyConst = .eager)
    {useAvoid : Bool} (empty : useAvoid = true → e.inst.avoidLocations = []) {kind : ClauseKind}
    {c : Clause} : (kind, c) ∈ (e.createFormula lib true useAvoid lit conflicts).emitted ↔
      ∃ g ∈ e.config.generators e.delta .sat, g.counter = kind ∧
        c ∈ (e.layout lib lit).clausesOf g := by
  have lines := lines_createFormula e lib lit conflicts eager empty
  rw [Formula.mem_emitted_iff, lines, List.mem_flatMap]
  refine exists_congr fun g => and_congr_right fun called => ?_
  rw [linesOf_eq called, mem_emitLines_iff, eq_comm]

/-- An eager formula which starts further on is the same formula with larger variables. -/
theorem createFormula_moved (poses : req.Poses e) (poses' : req.Poses e') (alike : e.Alike e')
    (consecutive : Consecutive lib.encodeAtMostK) (commutes : Commutes lib.encodeAtMostK)
    (encode : lib'.encodeAtMostK = lib.encodeAtMostK) (eager : e.config.lazyConst = .eager)
    {useAvoid : Bool} (empty : useAvoid = true → e.inst.avoidLocations = []) (nonneg : 0 ≤ off)
    (pos : 1 ≤ lit) (conflicts conflicts' : Conflicts) (kind : ClauseKind) (c : Clause) :
    (∃ d, (kind, d) ∈ (e.createFormula lib true useAvoid (lit + off) conflicts).emitted ∧
      shiftClause off d = c) ↔
      (kind, c) ∈ (e'.createFormula lib' true useAvoid lit conflicts').emitted := by
  have moved := @layout_moved e e' lib lib' off lit alike consecutive commutes encode nonneg pos
  obtain ⟨entries, -, -, -, last⟩ := @createVariables_moved e e' lib lib' off lit alike nonneg pos
  have windows := (createVariables_ready lib (lit + off) poses (by omega)).1.windows
  have windows' := (createVariables_ready lib' lit poses' pos).1.windows
  have supplies := @layout_supplies e lib (lit + off) _ poses (by omega) eager
  have supplies' := @layout_supplies e' lib' lit _ poses' pos (alike.config ▸ eager)
  have staged := layout_staged e' lib' (encode ▸ consecutive) pos
  have same (g : Generator) (called : g ∈ e.config.generators e.delta .sat) :
      (∃ d, d ∈ (e.layout lib (lit + off)).clausesOf g ∧ shiftClause off d = c) ↔
        c ∈ (e'.layout lib' lit).clausesOf g := by
    rw [← List.mem_map]
    exact moved.clausesOf windows windows' consecutive commutes entries
      ⟨staged.passes.1.trans staged.shifts.1, last⟩ (pos.trans staged.positions.1)
      (supplies g called) (supplies' g (alike.config ▸ alike.delta ▸ called)) c
  simp only [mem_emitted_iff lib (lit + off) conflicts eager empty,
    mem_emitted_iff lib' lit conflicts' (alike.config ▸ eager) (alike.inst ▸ empty),
    ← alike.config, ← alike.delta]
  constructor
  · rintro ⟨d, ⟨g, called, counter, member⟩, shifted⟩
    exact ⟨g, called, counter, (same g called).mp ⟨d, member, shifted⟩⟩
  · rintro ⟨g, called, counter, member⟩
    obtain ⟨d, inside, shifted⟩ := (same g called).mpr member
    exact ⟨d, ⟨g, called, counter, inside⟩, shifted⟩

end Encoder

end MAPFEncodings

import MAPFEncodings.Refinement.OnDemand

/-! # Every refinement makes progress

A model whose plan has conflicts falsifies one of the clauses which are added for them. In pebble
motion with shift variables a recorded conflict need not have a falsified clause of its own: if the
agent which is entered does not leave, only the clause for sharing the vertex is false.
-/

namespace MAPFEncodings

open Cnf PathFinding

namespace Encoder

variable {e : Encoder} {σ : Valuation} {L : ℕ → ℕ} {hi : ℤ} {pos : ℕ → ℕ → ℕ} {task : Task} {len : ℕ}

private theorem excluded {x y : ℤ} (isX : IsVar hi x) (isY : IsVar hi y) (holdsX : σ x = true)
    (holdsY : σ y = true) : ¬Clause.holds σ [-x, -y] = true :=
  fun holds => (holds_exclude isX.1 isY.1).mp holds ⟨holdsX, holdsY⟩

/-- A true shift is found by the unchecked search. -/
private theorem Shifts.unchecked {v : ℕ} {dir : Dir} {t : ℤ} (shifts : e.Shifts σ v dir t) :
    t ∈ (e.shiftEntry v dir).timestep ∧ σ (shiftVarUnchecked (e.shiftEntry v dir) t) = true := by
  obtain ⟨x, found, holds⟩ := shifts
  obtain ⟨member, rfl⟩ := Shift.var?_eq_some_iff.mp found
  exact ⟨member, holds⟩

/-- A generator emits at least what it emits for some of the conflicts. -/
private theorem flatMap_subset {α : Type*} {f : α → List Clause} {some all : List α}
    (sub : some ⊆ all) {d : Clause} (emitted : d ∈ some.flatMap f) : d ∈ all.flatMap f := by
  obtain ⟨c, member, inside⟩ := List.mem_flatMap.mp emitted
  exact List.mem_flatMap.mpr ⟨c, sub member, inside⟩

private theorem moving_subset {some all : Conflicts} (swap : some.swap ⊆ all.swap)
    (pebble : some.pebble ⊆ all.pebble) {d : Clause}
    (emitted : d ∈ e.createConfMovingOnDemand some) : d ∈ e.createConfMovingOnDemand all := by
  unfold createConfMovingOnDemand at emitted ⊢
  cases movement : e.config.movement <;> cases kind : e.config.variableKind <;>
    simp only [movement, kind] at emitted ⊢
  · exact flatMap_subset swap emitted
  · exact flatMap_subset swap emitted
  · exact flatMap_subset swap emitted
  · exact flatMap_subset pebble emitted
  · exact flatMap_subset pebble emitted
  · exact flatMap_subset pebble emitted

namespace Follows

variable (follows : e.Follows σ L pos) (poses : task.Poses e) (prepared : e.Prepared L hi)
  (routes : e.Routes L σ)
include follows poses prepared routes

/-- The clause for a shared vertex is false. -/
theorem vertex_falsified (goals : task.DistinctGoals) {a b t : ℕ} (boundA : a < task.ags)
    (boundB : b < task.ags) (distinct : a ≠ b) (meet : pos a t = pos b t) :
    ∃ d ∈ e.createConfVertexOnDemand [⟨a, b, some (pos a t), t⟩], ¬Clause.holds σ d = true := by
  have boundA' : a < e.agents := poses.agents ▸ boundA
  have boundB' : b < e.agents := poses.agents ▸ boundB
  have ready := prepared.atReady
  obtain ⟨beforeA, beforeB⟩ := follows.early prepared routes poses goals boundA boundB distinct meet
  have cell := follows.cells a boundA' t beforeA
  have hereA := follows.positions a boundA' t beforeA
  have hereB := follows.positions b boundB' t beforeB
  rw [← meet] at hereB
  exact ⟨_, List.mem_singleton_self _, excluded (ready.isVar a boundA' _ cell t hereA.1)
    (ready.isVar b boundB' _ cell t hereB.1) hereA.2 hereB.2⟩

omit routes in
/-- The clause for exchanged vertices is false. -/
theorem swap_falsified {a b t : ℕ} (boundA : a < task.ags) (boundB : b < task.ags)
    (swap : pos a t = pos b (t + 1) ∧ pos a (t + 1) = pos b t) (away : pos a t ≠ pos b t)
    (parallel : e.config.movement = .parallel) {conflicts : Conflicts}
    (recorded : conflicts.swap = [⟨a, b, some (pos a t), some (pos a (t + 1)), t⟩]) :
    ∃ d ∈ e.createConfMovingOnDemand conflicts, ¬Clause.holds σ d = true := by
  have boundA' : a < e.agents := poses.agents ▸ boundA
  have boundB' : b < e.agents := poses.agents ▸ boundB
  have setting := prepared.setting
  have beforeA := follows.before_of_moves boundA' (by rw [swap.2]; exact away.symm)
  have beforeB := follows.before_of_moves boundB' (by rw [← swap.1]; exact away)
  have moves : pos a (t + 1) ≠ pos a t := by rw [swap.2]; exact away.symm
  have cell := follows.cells a boundA' t beforeA.le
  have cellU := follows.cells a boundA' (t + 1) beforeA
  unfold createConfMovingOnDemand
  cases kind : e.config.variableKind <;> simp only [parallel] <;> rw [recorded]
  · have ready := prepared.atReady
    have tailA := follows.positions a boundA' t beforeA.le
    have headA := follows.positions a boundA' (t + 1) beforeA
    have tailB := follows.positions b boundB' t beforeB.le
    have headB := follows.positions b boundB' (t + 1) beforeB
    rw [← swap.1] at headB
    rw [← swap.2] at tailB
    push_cast at headA headB
    refine ⟨_, List.mem_singleton_self _, fun holds => ?_⟩
    have four := Expresses.exclude_four (ready.isVar a boundA' _ cell t tailA.1)
      (ready.isVar a boundA' _ cellU _ headA.1) (ready.isVar b boundB' _ cell _ headB.1)
      (ready.isVar b boundB' _ cellU t tailB.1)
    exact (four.models_iff σ).mp (models_cons.mpr ⟨holds, models_nil σ⟩)
      ⟨tailA.2, headA.2, headB.2, tailB.2⟩
  · have ready := prepared.passReady kind
    obtain ⟨dir, next, passA⟩ := follows.passes kind boundA' beforeA
    obtain ⟨dir', next', passB⟩ := follows.passes kind boundB' beforeB
    rw [← swap.2, ← swap.1] at next'
    rw [← swap.2] at passB
    obtain rfl := setting.dir_unique cellU next' (setting.opposite cell next)
    have search := findDir_eq prepared.ready.windows cell (moves_of_ne next moves) next
    simp only [createConfSwappingPassOnDemand, search, List.flatMap_singleton, List.mem_singleton,
      exists_eq_left]
    exact excluded (ready.isVar a boundA' _ cell _ t passA.1)
      (ready.isVar b boundB' _ cellU _ t passB.1) passA.2 passB.2
  · have ready := prepared.shiftReady kind
    obtain ⟨dir, next, shiftA⟩ := follows.shifts kind boundA' beforeA
    obtain ⟨dir', next', shiftB⟩ := follows.shifts kind boundB' beforeB
    rw [← swap.2, ← swap.1] at next'
    rw [← swap.2] at shiftB
    obtain rfl := setting.dir_unique cellU next' (setting.opposite cell next)
    have search := findDir_eq prepared.ready.windows cell (moves_of_ne next moves) next
    obtain ⟨memberA, holdsA⟩ := shiftA.unchecked
    obtain ⟨memberB, holdsB⟩ := shiftB.unchecked
    simp only [createConfSwappingShiftOnDemand, search, List.flatMap_singleton, List.mem_singleton,
      exists_eq_left]
    exact excluded (ready.isVar _ cell dir t _ (var?_of_mem memberA))
      (ready.isVar _ cellU _ t _ (var?_of_mem memberB)) holdsA holdsB

/-- Some clause for entering an occupied vertex is false, unless the vertex is then shared. -/
theorem pebble_falsified {a b t : ℕ} (boundA : a < task.ags) (boundB : b < task.ags)
    (entered : pos a (t + 1) = pos b t) (moves : pos a t ≠ pos a (t + 1))
    (apart : pos a (t + 1) ≠ pos b (t + 1)) (pebble : e.config.movement = .pebble)
    {conflicts : Conflicts}
    (recorded : conflicts.pebble = [⟨a, b, some (pos a t), some (pos a (t + 1)), t + 1⟩]) :
    ∃ d ∈ e.createConfMovingOnDemand conflicts, ¬Clause.holds σ d = true := by
  have boundA' : a < e.agents := poses.agents ▸ boundA
  have boundB' : b < e.agents := poses.agents ▸ boundB
  have setting := prepared.setting
  have beforeA := follows.before_of_moves boundA' moves.symm
  have standsB := follows.stands prepared routes boundA' boundB' beforeA entered
  have cell := follows.cells a boundA' t beforeA.le
  have cellU := follows.cells a boundA' (t + 1) beforeA
  have ready := prepared.atReady
  have thereB := follows.positions b boundB' t standsB
  rw [← entered] at thereB
  unfold createConfMovingOnDemand
  cases kind : e.config.variableKind <;> simp only [pebble] <;> rw [recorded]
  · have headA := follows.positions a boundA' (t + 1) beforeA
    refine ⟨_, List.mem_singleton_self _, ?_⟩
    simp only [Nat.cast_add, Nat.cast_one, add_sub_cancel_right] at headA ⊢
    exact excluded (ready.isVar a boundA' _ cellU _ headA.1)
      (ready.isVar b boundB' _ cellU t thereB.1) headA.2 thereB.2
  · obtain ⟨dir, next, passA⟩ := follows.passes kind boundA' beforeA
    have search := findDir_eq prepared.ready.windows cell (moves_of_ne next moves.symm) next
    simp only [createConfPebblePassOnDemand, search, List.flatMap_singleton, List.mem_singleton,
      exists_eq_left, Nat.cast_add, Nat.cast_one, add_sub_cancel_right]
    exact excluded ((prepared.passReady kind).isVar a boundA' _ cell _ t passA.1)
      (ready.isVar b boundB' _ cellU t thereB.1) passA.2 thereB.2
  · obtain ⟨dir, next, shiftA⟩ := follows.shifts kind boundA' beforeA
    have search := findDir_eq prepared.ready.windows cell (moves_of_ne next moves.symm) next
    -- the agent which is entered leaves by a true shift
    have movesB : pos b (t + 1) ≠ pos b t := by rw [← entered]; exact apart.symm
    have beforeB := follows.before_of_moves boundB' movesB
    obtain ⟨uDir, next', shiftB⟩ := follows.shifts kind boundB' beforeB
    rw [← entered] at shiftB
    obtain ⟨memberA, holdsA⟩ := shiftA.unchecked
    obtain ⟨y, found, holdsB⟩ := shiftB
    have back : (e.shiftEntry (pos a t) dir).timestep.getD
        ((e.shiftEntry (pos a t) dir).timestep.idxOf (t : ℤ)) 0 = t := by
      rw [List.getD_eq_getElem _ _ (List.idxOf_lt_length_of_mem memberA), List.getElem_idxOf]
    simp only [createConfPebbleShiftOnDemand, search, List.flatMap_singleton, List.mem_flatMap,
      List.mem_map, Nat.cast_add, Nat.cast_one, add_sub_cancel_right, back]
    exact ⟨_, ⟨uDir, Dir.mem_moves_iff.mpr (moves_of_ne next' movesB), y,
      Option.mem_toList.mpr found, rfl⟩,
      excluded ((prepared.shiftReady kind).isVar _ cell dir t _ (var?_of_mem memberA))
        ((prepared.shiftReady kind).isVar _ cellU uDir t y found) holdsA holdsB⟩

/-- A model whose plan has conflicts falsifies a clause of the next formula. -/
theorem exists_falsified (goals : task.DistinctGoals)
    (present : (generateConflicts e.config.movement (planOf task.ags len pos)).present = true) :
    ∃ d ∈ e.conflictClausesLazy (generateConflicts e.config.movement (planOf task.ags len pos)),
      ¬Clause.holds σ d = true := by
  set conflicts := generateConflicts e.config.movement (planOf task.ags len pos) with made
  by_cases shared : ∃ c, c ∈ conflicts.vertex
  · obtain ⟨c, member⟩ := shared
    obtain ⟨a, b, t, ordered, boundB, -, meet, rfl⟩ := mem_vertex_iff.mp member
    obtain ⟨d, emitted, fails⟩ := follows.vertex_falsified poses prepared routes goals
      (ordered.trans boundB) boundB ordered.ne meet
    exact ⟨d, List.mem_append_left _
      (flatMap_subset (List.cons_subset.mpr ⟨member, List.nil_subset _⟩) emitted), fails⟩
  · have apart : ∀ a < task.ags, ∀ b < task.ags, a ≠ b → ∀ t < len, pos a t ≠ pos b t := by
      intro a boundA b boundB distinct t inside same
      rcases distinct.lt_or_gt with ordered | ordered
      · exact shared ⟨_, mem_vertex_iff.mpr ⟨a, b, t, ordered, boundB, inside, same, rfl⟩⟩
      · exact shared ⟨_, mem_vertex_iff.mpr ⟨b, a, t, ordered, boundA, inside, same.symm, rfl⟩⟩
    have some : (∃ c, c ∈ conflicts.swap) ∨ ∃ c, c ∈ conflicts.pebble := by
      by_contra none
      rw [not_or] at none
      have quiet := (not_present_iff conflicts).mpr
        ⟨List.eq_nil_iff_forall_not_mem.mpr (not_exists.mp shared),
          List.eq_nil_iff_forall_not_mem.mpr (not_exists.mp none.1),
          List.eq_nil_iff_forall_not_mem.mpr (not_exists.mp none.2)⟩
      rw [quiet] at present
      exact Bool.false_ne_true present
    cases movement : e.config.movement with
    | parallel =>
      rcases some with ⟨c, member⟩ | ⟨c, member⟩
      · obtain ⟨a, b, t, ordered, boundB, -, swap, away, rfl⟩ := mem_swap_iff.mp member
        obtain ⟨d, emitted, fails⟩ := follows.swap_falsified poses prepared
          (ordered.trans boundB) boundB swap away movement
          (show Conflicts.swap ⟨[], [_], []⟩ = _ from rfl)
        exact ⟨d, List.mem_append_right _ (moving_subset
          (List.cons_subset.mpr ⟨member, List.nil_subset _⟩) (List.nil_subset _) emitted), fails⟩
      · have pebble := (mem_pebble_iff.mp member).1
        exact absurd (movement.symm.trans pebble) (by decide)
    | pebble =>
      -- whoever takes part in an exchange also enters an occupied vertex
      have entering : ∃ c, c ∈ conflicts.pebble := by
        rcases some with ⟨c, member⟩ | found
        · obtain ⟨a, b, t, ordered, boundB, later, swap, away, rfl⟩ := mem_swap_iff.mp member
          exact ⟨_, mem_pebble_iff.mpr ⟨movement, a, b, t, ordered.ne, ordered.trans boundB, boundB,
            later, swap.2, by rw [swap.2]; exact away, rfl⟩⟩
        · exact found
      obtain ⟨c, member⟩ := entering
      obtain ⟨-, a, b, t, distinct, boundA, boundB, later, entered, moves, rfl⟩ :=
        mem_pebble_iff.mp member
      obtain ⟨d, emitted, fails⟩ := follows.pebble_falsified poses prepared routes boundA boundB
        entered moves (apart a boundA b boundB distinct _ later) movement
        (show Conflicts.pebble ⟨[], [], [_]⟩ = _ from rfl)
      exact ⟨d, List.mem_append_right _ (moving_subset (List.nil_subset _)
        (List.cons_subset.mpr ⟨member, List.nil_subset _⟩) emitted),
        fails⟩

end Follows

end Encoder

end MAPFEncodings

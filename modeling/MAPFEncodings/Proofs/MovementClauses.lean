import MAPFEncodings.Proofs.Readings

/-! # The meaning of the position and movement clauses -/

namespace MAPFEncodings

open Cnf PathFinding

/-- Excluding every pair leaves at most one true variable. -/
theorem excludePairs_expresses {hi : ℤ} {xs : List ℤ} (each : ∀ x ∈ xs, IsVar hi x) :
    Expresses hi (excludePairs xs) fun σ => xs.Pairwise fun x y => ¬(σ x = true ∧ σ y = true) := by
  induction xs with
  | nil => exact Expresses.nil.congr fun σ => by simp
  | cons x xs ih =>
    have rest := ih fun y member => each y (List.mem_cons_of_mem _ member)
    have first := Expresses.map fun y member =>
      Expresses.exclude (each x List.mem_cons_self) (each y (List.mem_cons_of_mem x member))
    exact (first.append rest).congr fun σ => by rw [List.pairwise_cons]

/-- Excluding the pairs of a growing list after every step says the same as excluding the pairs of
the final list. -/
theorem excludeGrowing_expresses {α : Type*} {hi : ℤ} {f : α → Option ℤ} {xs : List α} {vc : List ℤ}
    (nonempty : xs ≠ []) (base : ∀ x ∈ vc, IsVar hi x)
    (each : ∀ p ∈ xs, ∀ x, f p = some x → IsVar hi x) :
    Expresses hi (List.mapState (fun (vc : List ℤ) p =>
        (excludePairs (vc ++ (f p).toList), vc ++ (f p).toList)) vc xs).1.flatten fun σ =>
      (vc ++ xs.filterMap f).Pairwise fun x y => ¬(σ x = true ∧ σ y = true) := by
  induction xs generalizing vc with
  | nil => exact absurd rfl nonempty
  | cons p rest ih =>
    have grown : ∀ x ∈ vc ++ (f p).toList, IsVar hi x := by
      intro x member
      rcases List.mem_append.mp member with old | new
      · exact base x old
      · exact each p List.mem_cons_self x (Option.mem_toList.mp new)
    have split : vc ++ (p :: rest).filterMap f = (vc ++ (f p).toList) ++ rest.filterMap f := by
      cases found : f p <;> simp [found]
    rw [split, List.mapState_cons, List.flatten_cons]
    have first := excludePairs_expresses grown
    by_cases last : rest = []
    · subst last
      simpa using first
    · have later := ih last grown fun q member => each q (List.mem_cons_of_mem p member)
      exact (first.append later).congr fun σ =>
        and_iff_right_of_imp fun pairs => pairs.sublist (List.sublist_append_left ..)

namespace Encoder

variable {e : Encoder} {L : ℕ → ℕ} {hi : ℤ}

/-! ## Positions -/

namespace Windows

variable (windows : e.Windows) (ready : e.AtReady hi)
include windows ready

theorem start_covers {a : ℕ} (boundA : a < e.agents) :
    (e.atEntry a (e.inst.startOf a)).Covers 0 := by
  rw [ready.covers a boundA _ (windows.startCell a boundA), (windows.starts a boundA).1]
  exact ⟨le_rfl, (windows.starts a boundA).2⟩

theorem goal_covers {a : ℕ} (boundA : a < e.agents) :
    (e.atEntry a (e.inst.goalOf a)).Covers (e.goalTime a) :=
  (ready.covers a boundA _ (windows.goalCell a boundA) _).mpr ⟨windows.ends a boundA, le_rfl⟩

/-- The first variable of the start is the one for timestep zero. -/
theorem start_var {a : ℕ} (boundA : a < e.agents) :
    (e.atEntry a (e.inst.startOf a)).firstVariable = (e.atEntry a (e.inst.startOf a)).var 0 := by
  have first := (ready.entry a boundA _ (windows.startCell a boundA)
    (windows.start_covers ready boundA).1).1
  rw [(windows.starts a boundA).1] at first
  rw [TEGAgent.var, first]
  omega

theorem goal_lastTimestep {a : ℕ} (boundA : a < e.agents) :
    (e.atEntry a (e.inst.goalOf a)).lastTimestep = e.goalTime a :=
  (ready.entry a boundA _ (windows.goalCell a boundA) (windows.goal_covers ready boundA).1).2

end Windows

namespace Setting

variable (setting : e.Setting L) (ready : e.AtReady hi)
include setting ready

theorem start_covers {a : ℕ} (boundA : a < e.agents) :
    (e.atEntry a (e.inst.startOf a)).Covers 0 := setting.windows.start_covers ready boundA

theorem goal_covers {a : ℕ} (boundA : a < e.agents) :
    (e.atEntry a (e.inst.goalOf a)).Covers (L a) :=
  setting.goalTime_eq boundA ▸ setting.windows.goal_covers ready boundA

end Setting

theorem createPossitionStart_expresses (windows : e.Windows) (ready : e.AtReady hi) :
    Expresses hi e.createPossitionStart fun σ => ∀ a < e.agents, e.At σ a (e.inst.startOf a) 0 := by
  refine (Expresses.map fun a memA => .unit ?_).congr fun σ => ?_
  all_goals simp only [List.mem_range] at *
  · rw [windows.start_var ready memA]
    exact ready.isVar a memA _ (windows.startCell a memA) 0 (windows.start_covers ready memA)
  · refine forall₂_congr fun a boundA => ?_
    rw [windows.start_var ready boundA]
    exact (and_iff_right (windows.start_covers ready boundA)).symm

theorem createPossitionGoal_expresses (windows : e.Windows) (ready : e.AtReady hi) :
    Expresses hi e.createPossitionGoal fun σ =>
      ∀ a < e.agents, e.At σ a (e.inst.goalOf a) (e.goalTime a) := by
  refine (Expresses.map fun a memA => .unit ?_).congr fun σ => ?_
  all_goals simp only [List.mem_range] at *
  · rw [windows.goal_lastTimestep ready memA]
    exact ready.isVar a memA _ (windows.goalCell a memA) _ (windows.goal_covers ready memA)
  · refine forall₂_congr fun a boundA => ?_
    rw [windows.goal_lastTimestep ready boundA]
    exact (and_iff_right (windows.goal_covers ready boundA)).symm

theorem createPossitionNoneAtGoal_expresses (windows : e.Windows) (ready : e.AtReady hi) :
    Expresses hi e.createPossitionNoneAtGoal fun σ => ∀ a < e.agents, ∀ b < e.agents,
      ∀ t, e.goalTime a < t → ¬e.At σ b (e.inst.goalOf a) t := by
  refine (Expresses.flatMap fun a memA => .flatMap fun b memB => .skip fun someB =>
    .map fun t memT => .unit_neg (ready.isVar b ?_ _ ?_ t ?_)).congr fun σ => ?_
  all_goals simp only [List.mem_range, Int.mem_range_iff] at *
  · exact memB
  · exact windows.goalCell a memA
  · exact ⟨someB, by omega, by omega⟩
  · refine forall₂_congr fun a boundA => forall₂_congr fun b boundB => ?_
    rw [windows.goal_lastTimestep ready boundA]
    constructor
    · rintro all t late ⟨covers, holds⟩
      have window := covers.2
      exact all covers.1 t (by omega) holds
    · rintro all someB t bounds holds
      exact all t (by omega) ⟨⟨someB, by omega, by omega⟩, holds⟩

theorem createPossitionNoneAtGoalShift_expresses (setting : e.Setting L) (ready : e.ShiftReady hi) :
    Expresses hi e.createPossitionNoneAtGoalShift fun σ => ∀ a < e.agents, ∀ dir,
      ∀ t, (L a : ℤ) ≤ t → ¬e.Shifts σ (e.inst.goalOf a) dir t := by
  refine (Expresses.flatMap fun a memA => .skip fun someA => .flatMap fun t memT =>
    .flatMap fun (p : Dir × ℕ) memP => .map fun x memX =>
    .unit_neg (ready.isVar (e.inst.goalOf a) ?_ p.1 t x ?_)).congr fun σ => ?_
  all_goals simp only [List.mem_range, Int.mem_range_iff, Option.mem_toList,
    Grid.mem_neighbors_iff, Dir.mem_all, true_and] at *
  · exact setting.goalCell a memA
  · exact memX
  · refine forall₂_congr fun a boundA => ?_
    rw [setting.last a boundA, (setting.deadline a boundA).toGoal.source_eq, sub_zero]
    have boundV := setting.goalCell a boundA
    constructor
    · rintro all dir t late ⟨x, found, holds⟩
      have present : ((e.shiftEntry (e.inst.goalOf a) dir).var? t).isSome := by simp [found]
      obtain ⟨u, next, -⟩ := (ready.exists_iff _ boundV dir t).mp present
      have span := ready.span _ boundV dir t present
      exact all span.1 t (by omega) (dir, u) next x found holds
    · rintro all someA t bounds ⟨dir, u⟩ next x found holds
      exact all dir t (by omega) ⟨x, found, holds⟩

/-! ## Duplicates -/

variable {lib : Externals}

theorem mem_positionsAt_iff {a : ℕ} {t x : ℤ} : x ∈ e.positionsAt a t ↔
    ∃ v < e.vertices, (e.atEntry a v).Covers t ∧ (e.atEntry a v).var t = x := by
  simp only [positionsAt, List.mem_filterMap, List.mem_range, Option.ite_none_right_eq_some,
    Option.some.injEq]

/-- At most one position variable is true exactly if the agent is at no two vertices. -/
theorem countP_positionsAt (ready : e.AtReady hi) {a : ℕ} (boundA : a < e.agents) (t : ℤ)
    (σ : Valuation) : (e.positionsAt a t).countP (litHolds σ) ≤ 1 ↔
      ∀ v < e.vertices, ∀ u < e.vertices, v ≠ u → ¬(e.At σ a v t ∧ e.At σ a u t) := by
  rw [countP_le_one_iff, positionsAt, List.pairwise_filterMap,
    pairwise_iff_of_nodup List.nodup_range fun v u apart x foundX y foundY both =>
      apart y foundY x foundX both.symm]
  simp only [List.mem_range, Option.ite_none_right_eq_some, Option.some.injEq]
  refine forall₂_congr fun v boundV => forall₂_congr fun u boundU => forall_congr' fun _ => ?_
  have truth {w : ℕ} (boundW : w < e.vertices) (covers : (e.atEntry a w).Covers t) :
      litHolds σ ((e.atEntry a w).var t) = σ ((e.atEntry a w).var t) :=
    litHolds_pos (ready.isVar a boundA w boundW t covers).1
  constructor
  · rintro apart ⟨⟨coversV, holdsV⟩, coversU, holdsU⟩
    apply apart _ ⟨coversV, rfl⟩ _ ⟨coversU, rfl⟩
    rw [truth boundV coversV, truth boundU coversU]
    exact ⟨holdsV, holdsU⟩
  · rintro apart x ⟨coversV, rfl⟩ y ⟨coversU, rfl⟩ ⟨holdsV, holdsU⟩
    rw [truth boundV coversV] at holdsV
    rw [truth boundU coversU] at holdsU
    exact apart ⟨⟨coversV, holdsV⟩, coversU, holdsU⟩

/-- One call of the at-most-one encoder, which is skipped for fewer than two variables. -/
private theorem noDuplicatesAt_block (contract : AtMostContract lib.encodeAtMostK)
    (ready : e.AtReady hi) {a : ℕ} (boundA : a < e.agents) (t : ℤ) {lit : ℤ} (pos : 1 ≤ lit)
    (le : hi ≤ lit) : Block lit
      (if 1 < (e.positionsAt a t).length then
        ((lib.encodeAtMostK (e.positionsAt a t) 1 lit).2,
          (lib.encodeAtMostK (e.positionsAt a t) 1 lit).1 + 1) else ([], lit)).2
      (if 1 < (e.positionsAt a t).length then
        ((lib.encodeAtMostK (e.positionsAt a t) 1 lit).2,
          (lib.encodeAtMostK (e.positionsAt a t) 1 lit).1 + 1) else ([], lit)).1
      (fun σ => ∀ v < e.vertices, ∀ u < e.vertices, v ≠ u → ¬(e.At σ a v t ∧ e.At σ a u t)) := by
  split
  · have below : ∀ x ∈ e.positionsAt a t, x ≠ 0 ∧ |x| < lit := by
      intro x member
      obtain ⟨v, boundV, covers, rfl⟩ := mem_positionsAt_iff.mp member
      have isVar := (ready.isVar a boundA v boundV t covers).mono le
      exact lit_below isVar.1 isVar.2
    refine (contract _ 1 lit zero_le_one pos below).congr fun σ => ?_
    rw [← countP_positionsAt ready boundA]
    norm_cast
  · next few =>
    refine Expresses.nil.block.congr fun σ => ?_
    rw [← countP_positionsAt ready boundA]
    exact iff_of_true trivial (List.countP_le_length.trans (not_lt.mp few))

private theorem apart_depends (ready : e.AtReady hi) {a : ℕ} (boundA : a < e.agents) (t : ℤ) :
    DependsBelow hi fun σ =>
      ∀ v < e.vertices, ∀ u < e.vertices, v ≠ u → ¬(e.At σ a v t ∧ e.At σ a u t) := by
  intro σ τ agree apart v boundV u boundU distinct
  rw [← At.congr ready agree boundA boundV, ← At.congr ready agree boundA boundU]
  exact apart v boundV u boundU distinct

/-- `CreateMove_NoDuplicates`: no agent is at two vertices at once. -/
theorem createMoveNoDuplicates_block (contract : AtMostContract lib.encodeAtMostK)
    (ready : e.AtReady hi) (pos : 1 ≤ hi) {lit : ℤ} (le : hi ≤ lit) :
    Block lit (e.createMoveNoDuplicates lib lit).2 (e.createMoveNoDuplicates lib lit).1
      (fun σ => ∀ a < e.agents, ∀ t, 0 ≤ t → t < e.maxTimestep →
        ∀ v < e.vertices, ∀ u < e.vertices, v ≠ u → ¬(e.At σ a v t ∧ e.At σ a u t)) := by
  refine (Block.mapState hi (fun s start a memA => ?_) (fun a memA => ?_) le).congr
    (Q := fun σ => ∀ a ∈ List.range e.agents, ∀ t ∈ Int.range 0 e.maxTimestep,
      ∀ v < e.vertices, ∀ u < e.vertices, v ≠ u → ¬(e.At σ a v t ∧ e.At σ a u t)) fun σ => ?_
  · rw [List.mem_range] at memA
    exact Block.mapState hi
      (fun s start t _ => noDuplicatesAt_block contract ready memA t (pos.trans start) start)
      (fun t _ => apart_depends ready memA t) start
  · rw [List.mem_range] at memA
    exact fun σ τ agree apart t memT => apart_depends ready memA t σ τ agree (apart t memT)
  · simp only [List.mem_range, Int.mem_range_iff, and_imp]

/-! ## Movement -/

theorem createMoveNextVertexAt_expresses (windows : e.Windows) (ready : e.AtReady hi) :
    Expresses hi e.createMoveNextVertexAt fun σ => ∀ a < e.agents, ∀ v < e.vertices, ∀ t,
      e.At σ a v t → (∃ dir u, e.inst.getNeighbor v dir = some u ∧ (e.atEntry a u).Covers (t + 1)) →
        ∃ dir u, e.inst.getNeighbor v dir = some u ∧ e.At σ a u (t + 1) := by
  refine (Expresses.flatMap fun a memA => .flatMap fun v memV => .skip fun someV =>
    .flatMap fun t memT => .skip fun _ => .guarded _ (ready.isVar a ?_ v ?_ t ?_) ?_).congr fun σ => ?_
  all_goals simp only [List.mem_range, Int.mem_range_iff, List.mem_filterMap, Grid.mem_neighbors_iff,
    Dir.mem_all, true_and, Option.ite_none_right_eq_some, Option.some.injEq,
    List.filterMap_eq_nil_iff] at *
  · exact memA
  · exact memV
  · exact ⟨someV, by omega, by omega⟩
  · rintro x ⟨p, next, covers, rfl⟩
    exact ready.isVar a memA p.2 (windows.neighbor_lt memV next) _ covers
  · refine forall₂_congr fun a boundA => forall₂_congr fun v boundV => ?_
    constructor
    · rintro all t ⟨covers, holds⟩ ⟨dir, u, next, coversU⟩
      have window := covers.2
      obtain ⟨x, ⟨⟨dir', u'⟩, next', covers', rfl⟩, holds'⟩ := all covers.1 t (by omega)
        (fun none => by simpa [coversU] using none (dir, u) next) holds
      exact ⟨dir', u', next', covers', holds'⟩
    · intro all someV t bounds present holds
      obtain ⟨p, next, covers⟩ : ∃ p : Dir × ℕ, e.inst.getNeighbor v p.1 = some p.2 ∧
          (e.atEntry a p.2).Covers (t + 1) := by
        by_contra none
        exact present fun p next => if_neg fun covers => none ⟨p, next, covers⟩
      obtain ⟨dir, u, next', covers', holds'⟩ :=
        all t ⟨⟨someV, by omega, by omega⟩, holds⟩ ⟨p.1, p.2, next, covers⟩
      exact ⟨_, ⟨(dir, u), next', covers', rfl⟩, holds'⟩

theorem createMoveEnterVertexPass_expresses (windows : e.Windows) {lo : ℤ}
    (readyAt : e.AtReady lo) (ready : e.PassReady hi) (le : lo ≤ hi) :
    Expresses hi e.createMoveEnterVertexPass fun σ => ∀ a < e.agents, ∀ v < e.vertices, ∀ dir u,
      e.inst.getNeighbor v dir = some u → ∀ t, e.Pass σ a v dir t → e.At σ a u (t + 1) := by
  have head {a v u : ℕ} {dir : Dir} {t : ℤ} (boundA : a < e.agents) (boundV : v < e.vertices)
      (next : e.inst.getNeighbor v dir = some u) (covers : (e.passEntry a v dir).Covers t) :
      (e.atEntry a u).Covers (t + 1) := by
    obtain ⟨u', next', -, arrives⟩ := (windows.pass_covers_iff readyAt ready boundA boundV).mp covers
    obtain rfl : u = u' := by rw [next] at next'; exact Option.some.inj next'
    exact arrives
  refine (Expresses.flatMap fun v memV => .flatMap fun p memP => .flatMap fun a memA =>
    .skip fun someA => .map fun t memT => .imp (ready.isVar a ?_ v ?_ p.1 t ?_)
      ((readyAt.isVar a ?_ p.2 ?_ (t + 1) ?_).mono le)).congr fun σ => ?_
  all_goals simp only [List.mem_range, Int.mem_range_iff, Grid.mem_neighbors_iff, Dir.mem_all,
    true_and] at *
  · exact memA
  · exact memV
  · exact ⟨someA, by omega, by omega⟩
  · exact memA
  · exact windows.neighbor_lt memV memP
  · exact head memA memV memP ⟨someA, by omega, by omega⟩
  · constructor
    · rintro all a boundA v boundV dir u next t ⟨covers, holds⟩
      have window := covers.2
      exact ⟨head boundA boundV next covers,
        all v boundV (dir, u) next a boundA covers.1 t (by dsimp only; omega) holds⟩
    · rintro all v boundV ⟨dir, u⟩ next a boundA someA t bounds holds
      dsimp only at bounds someA
      exact (all a boundA v boundV dir u next t ⟨⟨someA, by omega, by omega⟩, holds⟩).2

theorem createMoveNextEdgePass_expresses {lo : ℤ} (readyAt : e.AtReady lo) (ready : e.PassReady hi)
    (le : lo ≤ hi) :
    Expresses hi e.createMoveNextEdgePass fun σ => ∀ a < e.agents, ∀ v < e.vertices, ∀ t,
      e.At σ a v t → (∃ dir, (e.passEntry a v dir).Covers t) → ∃ dir, e.Pass σ a v dir t := by
  refine (Expresses.flatMap fun a memA => .flatMap fun v memV => .skip fun someV =>
    .flatMap fun t memT => .skip fun _ =>
    .guarded _ ((readyAt.isVar a ?_ v ?_ t ?_).mono le) ?_).congr fun σ => ?_
  all_goals simp only [List.mem_range, Int.mem_range_iff, List.mem_filterMap, Dir.mem_all, true_and,
    Option.ite_none_right_eq_some, Option.some.injEq, List.filterMap_eq_nil_iff] at *
  · exact memA
  · exact memV
  · exact ⟨someV, by omega, by omega⟩
  · rintro x ⟨dir, covers, rfl⟩
    exact ready.isVar a memA v memV dir t covers
  · refine forall₂_congr fun a boundA => forall₂_congr fun v boundV => ?_
    constructor
    · rintro all t ⟨covers, holds⟩ ⟨dir, coversDir⟩
      have window := covers.2
      obtain ⟨x, ⟨dir', covers', rfl⟩, holds'⟩ := all covers.1 t (by omega)
        (fun none => by simpa [coversDir] using none dir trivial) holds
      exact ⟨dir', covers', holds'⟩
    · intro all someV t bounds present holds
      have leaves : ∃ dir, (e.passEntry a v dir).Covers t := by
        by_contra none
        exact present fun dir _ => if_neg fun covers => none ⟨dir, covers⟩
      obtain ⟨dir, covers', holds'⟩ := all t ⟨⟨someV, by omega, by omega⟩, holds⟩ leaves
      exact ⟨_, ⟨dir, covers', rfl⟩, holds'⟩

/-! ## Shifts -/

/-- Two different shifts out of a vertex exclude each other, read off the list of its shifts. -/
private theorem pairwise_shifts_iff (target : Dir × ℕ → ℕ × Dir) {σ : Valuation} {v : ℕ} {t : ℤ} :
    ((e.inst.neighbors v Dir.all).filterMap fun p =>
        (e.shiftEntry (target p).1 (target p).2).var? t).Pairwise
      (fun x y => ¬(σ x = true ∧ σ y = true)) ↔
      ∀ dir u, e.inst.getNeighbor v dir = some u → ∀ dir' u', e.inst.getNeighbor v dir' = some u' →
        dir ≠ dir' → ¬(e.Shifts σ (target (dir, u)).1 (target (dir, u)).2 t ∧
          e.Shifts σ (target (dir', u')).1 (target (dir', u')).2 t) := by
  rw [List.pairwise_filterMap, pairwise_iff_of_nodup (Grid.nodup_neighbors v (by decide))
    fun p q apart y foundY x foundX both => apart x foundX y foundY both.symm]
  simp only [Grid.mem_neighbors_iff, Dir.mem_all, true_and]
  constructor
  · rintro apart dir u next dir' u' next' distinct ⟨⟨x, found, holds⟩, y, found', holds'⟩
    exact apart (dir, u) next (dir', u') next' (fun same => distinct (congrArg Prod.fst same))
      x found y found' ⟨holds, holds'⟩
  · rintro apart ⟨dir, u⟩ next ⟨dir', u'⟩ next' distinct x found y found' ⟨holds, holds'⟩
    refine apart dir u next dir' u' next' ?_ ⟨⟨x, found, holds⟩, y, found', holds'⟩
    rintro rfl
    rw [show u = u' from Option.some.inj (next.symm.trans next')] at distinct
    exact distinct rfl

theorem createMoveExactlyOneShift_expresses (ready : e.ShiftReady hi) :
    Expresses hi e.createMoveExactlyOneShift fun σ => ∀ v < e.vertices, ∀ dir dir', dir ≠ dir' →
      ∀ t, ¬(e.Shifts σ v dir t ∧ e.Shifts σ v dir' t) := by
  refine (Expresses.flatMap fun v memV => .skip fun someV => .flatMap fun t memT =>
    excludePairs_expresses fun x memX => ?_).congr fun σ => ?_
  · obtain ⟨p, -, found⟩ := List.mem_filterMap.mp memX
    exact ready.isVar v (List.mem_range.mp memV) p.1 t x found
  · simp only [List.mem_range, Int.mem_range_iff]
    refine forall₂_congr fun v boundV => ?_
    have pairs {t : ℤ} := @pairwise_shifts_iff e (fun p => (v, p.1)) σ v t
    constructor
    · rintro all dir dir' distinct t ⟨one, other⟩
      obtain ⟨x, found, holds⟩ := one
      obtain ⟨y, found', holds'⟩ := other
      have present : ((e.shiftEntry v dir).var? t).isSome := by simp [found]
      have present' : ((e.shiftEntry v dir').var? t).isSome := by simp [found']
      obtain ⟨u, next, -⟩ := (ready.exists_iff v boundV dir t).mp present
      obtain ⟨u', next', -⟩ := (ready.exists_iff v boundV dir' t).mp present'
      have span := ready.span v boundV dir t present
      exact pairs.mp (all span.1 t (by omega)) dir u next dir' u' next' distinct
        ⟨⟨x, found, holds⟩, y, found', holds'⟩
    · exact fun all _ t _ => pairs.mpr fun dir _ _ dir' _ _ distinct => all dir dir' distinct t

/-- The timesteps between which `CreateMove_ExactlyOneIncoming_Shift` looks for shifts into a
vertex. -/
def incomingSpan (e : Encoder) (v : ℕ) : ℤ × ℤ :=
  (e.inst.neighbors v Dir.all).foldl (fun span p => if e.timesStart p.2 = -1 then span
    else (min span.1 (e.timesStart p.2), max span.2 (e.timesEnd p.2))) (2147483647, -1)

private theorem foldl_span (ps : List (Dir × ℕ)) (start span : ℤ × ℤ)
    (last : span = ps.foldl (fun span p => if e.timesStart p.2 = -1 then span
      else (min span.1 (e.timesStart p.2), max span.2 (e.timesEnd p.2))) start) :
    (span.1 ≤ start.1 ∧ start.2 ≤ span.2) ∧ ∀ p ∈ ps, e.timesStart p.2 ≠ -1 →
      span.1 ≤ e.timesStart p.2 ∧ e.timesEnd p.2 ≤ span.2 := by
  induction ps generalizing start with
  | nil =>
    subst last
    simp
  | cons p ps ih =>
    obtain ⟨keep, later⟩ := ih (if e.timesStart p.2 = -1 then start
      else (min start.1 (e.timesStart p.2), max start.2 (e.timesEnd p.2))) last
    refine ⟨?_, fun q member present => ?_⟩
    · split_ifs at keep
      · exact keep
      · dsimp only at keep
        omega
    · rcases List.mem_cons.mp member with rfl | inside
      · rw [if_neg present] at keep
        dsimp only at keep
        omega
      · exact later q inside present

/-- The span over the neighbours contains the span of each of them. -/
theorem incomingSpan_contains {v u : ℕ} {dir : Dir} (next : e.inst.getNeighbor v dir = some u)
    (present : e.timesStart u ≠ -1) :
    (e.incomingSpan v).1 ≤ e.timesStart u ∧ e.timesEnd u ≤ (e.incomingSpan v).2 :=
  (foldl_span _ _ _ rfl).2 (dir, u) (Grid.mem_neighbors_iff.mpr ⟨Dir.mem_all dir, next⟩) present

/-- Every vertex is its own neighbour. -/
theorem neighbors_all_ne_nil (v : ℕ) : e.inst.neighbors v Dir.all ≠ [] := by
  apply List.ne_nil_of_mem (a := (Dir.wait, v))
  rw [Grid.mem_neighbors_iff]
  exact ⟨Dir.mem_all _, rfl⟩

theorem createMoveExactlyOneIncomingShift_expresses (windows : e.Windows)
    (ready : e.ShiftReady hi) :
    Expresses hi e.createMoveExactlyOneIncomingShift fun σ => ∀ v < e.vertices, ∀ dir u,
      e.inst.getNeighbor v dir = some u → ∀ dir' u', e.inst.getNeighbor v dir' = some u' →
        dir ≠ dir' → ∀ t, ¬(e.Shifts σ u (oppositeDir dir) t ∧
          e.Shifts σ u' (oppositeDir dir') t) := by
  refine (Expresses.flatMap fun v memV => .flatMap fun t memT =>
    excludeGrowing_expresses (f := fun p => (e.shiftEntry p.2 (oppositeDir p.1)).var? t)
      (neighbors_all_ne_nil v) (by simp) fun p memP x found => ?_).congr fun σ => ?_
  · rw [Grid.mem_neighbors_iff] at memP
    exact ready.isVar p.2 (windows.neighbor_lt (List.mem_range.mp memV) memP.2) _ t x found
  · simp only [List.mem_range, Int.mem_range_iff, List.nil_append]
    refine forall₂_congr fun v boundV => ?_
    have pairs {t : ℤ} := @pairwise_shifts_iff e (fun p => (p.2, oppositeDir p.1)) σ v t
    constructor
    · rintro all dir u next dir' u' next' distinct t ⟨one, other⟩
      obtain ⟨x, found, holds⟩ := one
      have present : ((e.shiftEntry u (oppositeDir dir)).var? t).isSome := by simp [found]
      have span := ready.span u (windows.neighbor_lt boundV next) (oppositeDir dir) t present
      have inside := incomingSpan_contains next span.1
      exact pairs.mp
        (all t ⟨inside.1.trans span.2.1, Int.lt_add_one_of_le (span.2.2.trans inside.2)⟩)
        dir u next dir' u' next' distinct ⟨⟨x, found, holds⟩, other⟩
    · exact fun all t _ => pairs.mpr fun dir u next dir' u' next' distinct =>
        all dir u next dir' u' next' distinct t

theorem createMoveNextVertexShift_expresses (windows : e.Windows) {lo : ℤ}
    (readyAt : e.AtReady lo) (ready : e.ShiftReady hi) (le : lo ≤ hi) :
    Expresses hi e.createMoveNextVertexShift fun σ => ∀ a < e.agents, ∀ v < e.vertices, ∀ dir u,
      e.inst.getNeighbor v dir = some u → ∀ t, e.At σ a v t → (e.atEntry a u).Covers (t + 1) →
        ((e.shiftEntry v dir).var? t).isSome → (e.Shifts σ v dir t ↔ e.At σ a u (t + 1)) := by
  refine (Expresses.flatMap fun a memA => .flatMap fun v memV => .skip fun someV =>
    .flatMap fun t memT => .flatMap fun p memP => .guard fun covers => .flatMap fun x memX =>
    .iff_of_guard ((readyAt.isVar a ?_ v ?_ t ?_).mono le) (ready.isVar v ?_ p.1 t x ?_)
      ((readyAt.isVar a ?_ p.2 ?_ (t + 1) covers).mono le)).congr fun σ => ?_
  all_goals simp only [List.mem_range, Int.mem_range_iff, Option.mem_toList, Grid.mem_neighbors_iff,
    Dir.mem_all, true_and] at *
  · exact memA
  · exact memV
  · exact ⟨someV, by omega, by omega⟩
  · exact memV
  · exact memX
  · exact memA
  · exact windows.neighbor_lt memV memP
  · refine forall₂_congr fun a boundA => forall₂_congr fun v boundV => ?_
    constructor
    · rintro all dir u next t ⟨covers, holds⟩ coversU present
      have window := covers.2
      obtain ⟨x, found⟩ := Option.isSome_iff_exists.mp present
      have same := all covers.1 t (by omega) (dir, u) next coversU x found holds
      rw [Shifts, found]
      exact ⟨fun ⟨y, isX, holds'⟩ => ⟨coversU, same.mp (by rwa [Option.some.inj isX])⟩,
        fun ⟨_, holds'⟩ => ⟨x, rfl, same.mpr holds'⟩⟩
    · rintro all someV t bounds ⟨dir, u⟩ next coversU x found holds
      have same := all dir u next t ⟨⟨someV, by omega, by omega⟩, holds⟩ coversU (by simp [found])
      rw [Shifts, found] at same
      exact ⟨fun holds' => (same.mp ⟨x, rfl, holds'⟩).2,
        fun holds' => by
          obtain ⟨y, isX, holdsY⟩ := same.mpr ⟨coversU, holds'⟩
          rwa [Option.some.inj isX]⟩

end Encoder

end MAPFEncodings

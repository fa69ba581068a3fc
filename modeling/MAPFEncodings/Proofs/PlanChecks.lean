import MAPFEncodings.Proofs.Extraction

/-! # `GenerateConflicts`, `VerifyPlan` and `NormalizePlan` as plan checks

Both checkers go over pairs of agents in one order and test both roles. Their guards differ, but a
position which the stricter guard leaves out is shared by the two agents, which is a conflict of
its own.
-/

namespace MAPFEncodings

open PathFinding

namespace Plan

variable {plan : Plan} {n : ℕ}

/-- All rows have the same length. -/
def Rectangular (plan : Plan) (n : ℕ) : Prop := ∀ row ∈ plan, row.length = n

instance : Decidable (plan.Rectangular n) :=
  inferInstanceAs (Decidable (∀ row ∈ plan, row.length = n))

/-- Two agents share a vertex. -/
def Meets (plan : Plan) (n : ℕ) : Prop := ∃ a b t, a ≠ b ∧ a < plan.length ∧ b < plan.length ∧
  t < n ∧ plan.entry a t = plan.entry b t

/-- Two agents swap along an edge. -/
def Swaps (plan : Plan) (n : ℕ) : Prop := ∃ a b t, a ≠ b ∧ a < plan.length ∧ b < plan.length ∧
  t + 1 < n ∧ (plan.entry a t = plan.entry b (t + 1) ∧ plan.entry a (t + 1) = plan.entry b t) ∧
    plan.entry a t ≠ plan.entry a (t + 1)

/-- An agent moves into a vertex which another agent occupied just before. -/
def Enters (plan : Plan) (n : ℕ) : Prop := ∃ a b t, a ≠ b ∧ a < plan.length ∧ b < plan.length ∧
  t + 1 < n ∧ plan.entry a (t + 1) = plan.entry b t ∧ plan.entry a t ≠ plan.entry a (t + 1)

variable (same : plan.Rectangular n)
include same

theorem Rectangular.length_getD {a : ℕ} (bound : a < plan.length) : (plan.getD a []).length = n := by
  rw [List.getD_eq_getElem _ _ bound]
  exact same _ (List.getElem_mem bound)

theorem Rectangular.mem_meetings {a b t : ℕ} :
    (a, b, t) ∈ plan.meetings ↔ a < b ∧ b < plan.length ∧ t < n := by
  simp only [meetings, List.mem_flatMap, List.mem_map, List.mem_range, List.Ico.mem,
    Prod.mk.injEq]
  constructor
  · rintro ⟨a, boundA, b, ⟨ordered, boundB⟩, t, inside, rfl, rfl, rfl⟩
    rw [same.length_getD boundA] at inside
    exact ⟨ordered, boundB, inside⟩
  · rintro ⟨ordered, boundB, inside⟩
    have boundA := ordered.trans boundB
    exact ⟨a, boundA, b, ⟨ordered, boundB⟩, t, same.length_getD boundA ▸ inside, rfl, rfl, rfl⟩

theorem Rectangular.hasNext_iff {a : ℕ} (bound : a < plan.length) {t : ℕ} :
    plan.hasNext a t = true ↔ t + 1 < n := by
  rw [hasNext, decide_eq_true_eq, same.length_getD bound]

end Plan

section Generate

variable {movement : Movement} {plan : Plan} {n : ℕ} (same : plan.Rectangular n)
include same

/-- Vertex conflicts are shared positions. -/
theorem mem_vertexConflicts_iff {c : VertexConflict} :
    c ∈ (generateConflicts movement plan).vertex ↔ ∃ a b t, a < b ∧ b < plan.length ∧ t < n ∧
      plan.entry a t = plan.entry b t ∧ c = ⟨a, b, plan.entry a t, t⟩ := by
  simp only [generateConflicts, List.mem_filterMap, Prod.exists, same.mem_meetings,
    Option.ite_none_right_eq_some, Option.some.injEq]
  refine exists₃_congr fun a b t => ?_
  constructor
  · rintro ⟨⟨ordered, bound, inside⟩, meets, rfl⟩
    exact ⟨ordered, bound, inside, meets, rfl⟩
  · rintro ⟨ordered, bound, inside, meets, rfl⟩
    exact ⟨⟨ordered, bound, inside⟩, meets, rfl⟩

/-- Swapping conflicts are exchanged positions. -/
theorem mem_swapConflicts_iff {c : EdgeConflict} :
    c ∈ (generateConflicts movement plan).swap ↔ ∃ a b t, a < b ∧ b < plan.length ∧ t + 1 < n ∧
      (plan.entry a t = plan.entry b (t + 1) ∧ plan.entry a (t + 1) = plan.entry b t) ∧
        plan.entry a t ≠ plan.entry a (t + 1) ∧
          c = ⟨a, b, plan.entry a t, plan.entry a (t + 1), t⟩ := by
  simp only [generateConflicts, List.mem_filterMap, Prod.exists, same.mem_meetings,
    Option.ite_none_right_eq_some, Option.some.injEq]
  refine exists₃_congr fun a b t => ?_
  constructor
  · rintro ⟨⟨ordered, bound, -⟩, ⟨later, first, second, away⟩, rfl⟩
    rw [same.hasNext_iff (ordered.trans bound)] at later
    exact ⟨ordered, bound, later, ⟨first, second⟩, second ▸ away, rfl⟩
  · rintro ⟨ordered, bound, later, ⟨first, second⟩, away, rfl⟩
    exact ⟨⟨ordered, bound, by omega⟩, ⟨(same.hasNext_iff (ordered.trans bound)).mpr later, first,
      second, second ▸ away⟩, rfl⟩

/-- Pebble conflicts are entered vertices which were occupied just before, by whichever agent. -/
theorem mem_pebbleConflicts_iff {c : EdgeConflict} :
    c ∈ (generateConflicts movement plan).pebble ↔ movement = .pebble ∧
      ∃ a b t, a ≠ b ∧ a < plan.length ∧ b < plan.length ∧ t + 1 < n ∧
        plan.entry a (t + 1) = plan.entry b t ∧ plan.entry a t ≠ plan.entry a (t + 1) ∧
          c = ⟨a, b, plan.entry a t, plan.entry a (t + 1), t + 1⟩ := by
  simp only [generateConflicts, List.mem_flatMap, Prod.exists, same.mem_meetings, List.mem_append,
    List.mem_ite_nil_right, List.mem_singleton]
  constructor
  · rintro ⟨a, b, t, ⟨ordered, bound, -⟩, ⟨⟨pebble, later, entered, moves⟩, rfl⟩ |
      ⟨⟨pebble, later, entered, moves⟩, rfl⟩⟩
    all_goals
      have boundA := ordered.trans bound
      rw [same.hasNext_iff boundA] at later
    · exact ⟨pebble, b, a, t, ordered.ne', bound, boundA, later, entered.symm, moves, rfl⟩
    · exact ⟨pebble, a, b, t, ordered.ne, boundA, bound, later, entered, moves, rfl⟩
  · rintro ⟨pebble, a, b, t, distinct, boundA, boundB, later, entered, moves, rfl⟩
    rcases distinct.lt_or_gt with ordered | ordered
    · exact ⟨a, b, t, ⟨ordered, boundB, by omega⟩,
        .inr ⟨⟨pebble, (same.hasNext_iff boundA).mpr later, entered, moves⟩, rfl⟩⟩
    · exact ⟨b, a, t, ⟨ordered, boundA, by omega⟩,
        .inl ⟨⟨pebble, (same.hasNext_iff boundB).mpr later, entered.symm, moves⟩, rfl⟩⟩

end Generate

/-- Something is recorded exactly if one of the lists is not empty. -/
theorem present_iff (conflicts : Conflicts) : conflicts.present = true ↔
    (∃ c, c ∈ conflicts.vertex) ∨ (∃ c, c ∈ conflicts.swap) ∨ ∃ c, c ∈ conflicts.pebble := by
  simp only [Conflicts.present, Bool.not_eq_true', Bool.and_eq_false_iff,
    List.isEmpty_eq_false_iff_exists_mem, or_assoc]

section Check

variable {movement : Movement} {plan : Plan} {n : ℕ} (same : plan.Rectangular n)
include same

private theorem exists_vertex_iff :
    (∃ c, c ∈ (generateConflicts movement plan).vertex) ↔ plan.Meets n := by
  simp only [mem_vertexConflicts_iff same]
  constructor
  · rintro ⟨-, a, b, t, ordered, bound, inside, meets, rfl⟩
    exact ⟨a, b, t, ordered.ne, ordered.trans bound, bound, inside, meets⟩
  · rintro ⟨a, b, t, distinct, boundA, boundB, inside, meets⟩
    rcases distinct.lt_or_gt with ordered | ordered
    · exact ⟨_, a, b, t, ordered, boundB, inside, meets, rfl⟩
    · exact ⟨_, b, a, t, ordered, boundA, inside, meets.symm, rfl⟩

private theorem exists_swap_iff :
    (∃ c, c ∈ (generateConflicts movement plan).swap) ↔ plan.Swaps n := by
  simp only [mem_swapConflicts_iff same]
  constructor
  · rintro ⟨-, a, b, t, ordered, bound, later, swap, away, rfl⟩
    exact ⟨a, b, t, ordered.ne, ordered.trans bound, bound, later, swap, away⟩
  · rintro ⟨a, b, t, distinct, boundA, boundB, later, swap, away⟩
    rcases distinct.lt_or_gt with ordered | ordered
    · exact ⟨_, a, b, t, ordered, boundB, later, swap, away, rfl⟩
    · refine ⟨_, b, a, t, ordered, boundA, later, ⟨swap.2.symm, swap.1.symm⟩, ?_, rfl⟩
      rw [← swap.1, ← swap.2]
      exact away.symm

private theorem exists_pebble_iff : (∃ c, c ∈ (generateConflicts movement plan).pebble) ↔
    movement = .pebble ∧ plan.Enters n := by
  simp only [mem_pebbleConflicts_iff same]
  constructor
  · rintro ⟨-, pebble, a, b, t, distinct, boundA, boundB, later, entered, moves, rfl⟩
    exact ⟨pebble, a, b, t, distinct, boundA, boundB, later, entered, moves⟩
  · rintro ⟨pebble, a, b, t, distinct, boundA, boundB, later, entered, moves⟩
    exact ⟨_, pebble, a, b, t, distinct, boundA, boundB, later, entered, moves, rfl⟩

/-- The tests of `VerifyPlan` on one pair of agents and one timestep. -/
private theorem verifyPlan_ne_nil_iff : verifyPlan movement plan ≠ [] ↔
    ∃ a b t, (a < b ∧ b < plan.length ∧ t < n) ∧ (plan.entry a t = plan.entry b t ∨
      (t + 1 < n ∧ plan.entry a t = plan.entry b (t + 1) ∧
        plan.entry a (t + 1) = plan.entry b t) ∨
      (movement = .pebble ∧ t + 1 < n ∧ plan.entry a t = plan.entry b (t + 1)) ∨
      movement = .pebble ∧ t + 1 < n ∧ plan.entry a (t + 1) = plan.entry b t) := by
  simp only [verifyPlan, ne_eq, List.flatMap_eq_nil_iff, Prod.forall, same.mem_meetings,
    List.append_eq_nil_iff, ite_eq_right_iff, reduceCtorEq, imp_false, not_forall, not_and,
    exists_prop]
  refine exists₃_congr fun a b t => and_congr_right fun ⟨ordered, bound, _⟩ => ?_
  rw [same.hasNext_iff (ordered.trans bound)]
  tauto

/-- Where `VerifyPlan` drops a guard of `GenerateConflicts`, it reports a shared vertex as well. -/
theorem verifyPlan_ne_nil_iff_conflict : verifyPlan movement plan ≠ [] ↔
    plan.Meets n ∨ plan.Swaps n ∨ (movement = .pebble ∧ plan.Enters n) := by
  rw [verifyPlan_ne_nil_iff same]
  constructor
  · rintro ⟨a, b, t, ⟨ordered, boundB, inside⟩, meets | ⟨later, first, second⟩ |
      ⟨pebble, later, entered⟩ | ⟨pebble, later, entered⟩⟩
    all_goals have boundA := ordered.trans boundB
    · exact .inl ⟨a, b, t, ordered.ne, boundA, boundB, inside, meets⟩
    · by_cases stays : plan.entry a t = plan.entry a (t + 1)
      · exact .inl ⟨a, b, t, ordered.ne, boundA, boundB, inside, stays.trans second⟩
      · exact .inr (.inl ⟨a, b, t, ordered.ne, boundA, boundB, later, ⟨first, second⟩, stays⟩)
    · by_cases stays : plan.entry b t = plan.entry b (t + 1)
      · exact .inl ⟨a, b, t, ordered.ne, boundA, boundB, inside, entered.trans stays.symm⟩
      · exact .inr (.inr ⟨pebble, b, a, t, ordered.ne', boundB, boundA, later, entered.symm, stays⟩)
    · by_cases stays : plan.entry a t = plan.entry a (t + 1)
      · exact .inl ⟨a, b, t, ordered.ne, boundA, boundB, inside, stays.trans entered⟩
      · exact .inr (.inr ⟨pebble, a, b, t, ordered.ne, boundA, boundB, later, entered, stays⟩)
  · rintro (⟨a, b, t, distinct, boundA, boundB, inside, meets⟩ |
      ⟨a, b, t, distinct, boundA, boundB, later, ⟨first, second⟩, -⟩ |
      ⟨pebble, a, b, t, distinct, boundA, boundB, later, entered, -⟩)
    all_goals rcases distinct.lt_or_gt with ordered | ordered
    · exact ⟨a, b, t, ⟨ordered, boundB, inside⟩, .inl meets⟩
    · exact ⟨b, a, t, ⟨ordered, boundA, inside⟩, .inl meets.symm⟩
    · exact ⟨a, b, t, ⟨ordered, boundB, by omega⟩, .inr (.inl ⟨later, first, second⟩)⟩
    · exact ⟨b, a, t, ⟨ordered, boundA, by omega⟩, .inr (.inl ⟨later, second.symm, first.symm⟩)⟩
    · exact ⟨a, b, t, ⟨ordered, boundB, by omega⟩, .inr (.inr (.inr ⟨pebble, later, entered⟩))⟩
    · exact ⟨b, a, t, ⟨ordered, boundA, by omega⟩,
        .inr (.inr (.inl ⟨pebble, later, entered.symm⟩))⟩

/-- `GenerateConflicts` records exactly the conflicts of a plan, and it records something exactly
if `VerifyPlan` prints something. -/
theorem generateConflicts_exact :
    ((generateConflicts movement plan).present = true ↔
      plan.Meets n ∨ plan.Swaps n ∨ (movement = .pebble ∧ plan.Enters n)) ∧
    ((generateConflicts movement plan).present = true ↔ verifyPlan movement plan ≠ []) ∧
    (∀ c, c ∈ (generateConflicts movement plan).vertex ↔
      ∃ a b t, a < b ∧ b < plan.length ∧ t < n ∧ plan.entry a t = plan.entry b t ∧
        c = ⟨a, b, plan.entry a t, t⟩) ∧
    (∀ c, c ∈ (generateConflicts movement plan).swap ↔
      ∃ a b t, a < b ∧ b < plan.length ∧ t + 1 < n ∧
        (plan.entry a t = plan.entry b (t + 1) ∧ plan.entry a (t + 1) = plan.entry b t) ∧
        plan.entry a t ≠ plan.entry a (t + 1) ∧
        c = ⟨a, b, plan.entry a t, plan.entry a (t + 1), t⟩) ∧
    ∀ c, c ∈ (generateConflicts movement plan).pebble ↔ movement = .pebble ∧
      ∃ mover stander t, mover ≠ stander ∧ mover < plan.length ∧ stander < plan.length ∧
        t + 1 < n ∧ plan.entry mover (t + 1) = plan.entry stander t ∧
        plan.entry mover t ≠ plan.entry mover (t + 1) ∧
        c = ⟨mover, stander, plan.entry mover t, plan.entry mover (t + 1), t + 1⟩ := by
  have present : (generateConflicts movement plan).present = true ↔
      plan.Meets n ∨ plan.Swaps n ∨ (movement = .pebble ∧ plan.Enters n) := by
    rw [present_iff, exists_vertex_iff same, exists_swap_iff same, exists_pebble_iff same]
  exact ⟨present, present.trans (verifyPlan_ne_nil_iff_conflict same).symm,
    fun _ => mem_vertexConflicts_iff same, fun _ => mem_swapConflicts_iff same,
    fun _ => mem_pebbleConflicts_iff same⟩

end Check

theorem generateConflicts_exact_swap :
    let plan : Plan := [[some 0, some 1], [some 1, some 0]]
    (generateConflicts .pebble plan).present = true ↔ verifyPlan .pebble plan ≠ [] :=
  (generateConflicts_exact (n := 2) (by decide : Plan.Rectangular _ 2)).2.1

/-! ## `NormalizePlan` -/

namespace Plan

variable (goalOf : ℕ → ℕ) (plan : Plan)

/-- The position of an agent, which is parked at its goal where its row shows nothing. -/
def position (a t : ℕ) : ℕ := (plan.entry a t).getD (goalOf a)

/-- The first time from which an agent stays at its goal. -/
noncomputable def arrival (a : ℕ) : ℕ := sInf (parkedFrom (plan.position goalOf a) (goalOf a))

noncomputable def sumOfCosts : ℕ := ∑ a ∈ Finset.range plan.length, (plan.arrival goalOf a + 1)

/-- The vertex conflicts at all times. -/
def vertexConflicts : Set VertexConflict := {c | ∃ a b t, a < b ∧ b < plan.length ∧
  plan.position goalOf a t = plan.position goalOf b t ∧
    c = ⟨a, b, some (plan.position goalOf a t), t⟩}

/-- The swapping conflicts at all times. -/
def swapConflicts : Set EdgeConflict := {c | ∃ a b t, a < b ∧ b < plan.length ∧
  (plan.position goalOf a t = plan.position goalOf b (t + 1) ∧
    plan.position goalOf a (t + 1) = plan.position goalOf b t) ∧
  plan.position goalOf a t ≠ plan.position goalOf b t ∧
    c = ⟨a, b, some (plan.position goalOf a t), some (plan.position goalOf a (t + 1)), t⟩}

/-- The pebble conflicts at all times. -/
def pebbleConflicts : Set EdgeConflict := {c | ∃ a b t, a ≠ b ∧ a < plan.length ∧ b < plan.length ∧
  plan.position goalOf a (t + 1) = plan.position goalOf b t ∧
  plan.position goalOf a t ≠ plan.position goalOf a (t + 1) ∧
    c = ⟨a, b, some (plan.position goalOf a t), some (plan.position goalOf a (t + 1)), t + 1⟩}

/-- A row shows a walk to the goal, followed by positions `-1`. -/
def ShowsWalk (row : List (Option ℕ)) (goal : ℕ) : Prop :=
  ∃ (walk : List ℕ) (k : ℕ), row = walk.map some ++ List.replicate k none ∧
    walk.getLast? = some goal

variable {goalOf plan} {a n : ℕ}

private theorem ShowsWalk.traced {walk : List ℕ} {k : ℕ}
    (row : plan.getD a [] = walk.map some ++ List.replicate k none) (size : walk.length + k = n) :
    Traced (plan.getD a []) n (plan.position goalOf a) (goalOf a) where
  length := by
    rw [row]
    simpa using size
  entry t inside := by
    rcases Nat.lt_or_ge t walk.length with early | late
    · have shown : (plan.getD a [])[t]? = some (some walk[t]) := by
        rw [row, List.getElem?_append_left (by simpa using early), List.getElem?_map,
          List.getElem?_eq_getElem early, Option.map_some]
      have here : plan.position goalOf a t = walk[t] := by
        rw [position, entry, List.getD_eq_getElem?_getD, shown]
        rfl
      exact .inl (here ▸ shown)
    · refine .inr ⟨?_, fun s later => ?_⟩
      · rw [row, List.getElem?_append_right (by simpa using late), List.getElem?_replicate,
          List.length_map, if_pos (by omega)]
      rw [position, entry, row, List.getD_eq_getElem?_getD,
        List.getElem?_append_right (by simpa using late.trans later), List.getElem?_replicate]
      split <;> rfl

private theorem ShowsWalk.parked {walk : List ℕ} {k : ℕ}
    (row : plan.getD a [] = walk.map some ++ List.replicate k none) (size : walk.length + k = n)
    (last : walk.getLast? = some (goalOf a)) :
    n - 1 ∈ parkedFrom (plan.position goalOf a) (goalOf a) := by
  intro t late
  rw [position, entry, row, List.getD_eq_getElem?_getD]
  rcases Nat.lt_or_ge t walk.length with early | after
  · obtain rfl : t = walk.length - 1 := by omega
    rw [List.getLast?_eq_getElem?] at last
    rw [List.getElem?_append_left (by simpa using early), List.getElem?_map, last]
    rfl
  · rw [List.getElem?_append_right (by simpa using after), List.getElem?_replicate]
    split <;> rfl

section Normal

variable (long : 1 ≤ n) (same : plan.Rectangular n)
  (rows : ∀ a < plan.length, ShowsWalk (plan.getD a []) (goalOf a))
include long same rows

/-- The plan which `NormalizePlan` leaves behind, and the length it returns. -/
private theorem normalize_spec : normalizeLength goalOf plan ≤ n ∧
    normalizeLength goalOf plan = (Finset.range plan.length).sup (plan.arrival goalOf) + 1 ∧
    normalizePlan goalOf plan =
      planOf plan.length (normalizeLength goalOf plan) (plan.position goalOf) ∧
    ∀ a < plan.length, ∀ t, normalizeLength goalOf plan ≤ t + 1 →
      plan.position goalOf a t = goalOf a := by
  have traced : ∀ a < plan.length,
      Traced (plan.getD a []) n (plan.position goalOf a) (goalOf a) := by
    intro a bound
    obtain ⟨walk, k, row, -⟩ := rows a bound
    have size := same.length_getD bound
    rw [row] at size
    exact ShowsWalk.traced row (by simpa using size)
  have parked : ∀ a < plan.length, n - 1 ∈ parkedFrom (plan.position goalOf a) (goalOf a) := by
    intro a bound
    obtain ⟨walk, k, row, last⟩ := rows a bound
    have size := same.length_getD bound
    rw [row] at size
    exact ShowsWalk.parked row (by simpa using size) last
  have least : ∀ a < plan.length,
      IsLeast (parkedFrom (plan.position goalOf a) (goalOf a)) (plan.arrival goalOf a) :=
    fun a bound => ⟨Nat.sInf_mem ⟨n - 1, parked a bound⟩, fun T early => Nat.sInf_le early⟩
  have listed : (List.range plan.length).map (fun a => plan.getD a []) = plan :=
    List.ext_getElem (by simp) fun a _ bound => by simp [bound]
  have length := normalizeLength_of_traced (by omega) traced parked least
  obtain ⟨len, -, fits, arrived, shows, rfl⟩ :=
    normalizePlan_of_traced (plan.arrival goalOf) (by omega) traced parked least
  rw [listed] at length shows
  rw [length]
  refine ⟨fits, rfl, shows, fun a bound t late => ?_⟩
  have early := arrived a bound
  exact (least a bound).1 t (by omega)

/-- The normalized plan shows the same positions. -/
private theorem position_normalizePlan :
    (normalizePlan goalOf plan).position goalOf = plan.position goalOf := by
  obtain ⟨-, -, shows, parked⟩ := normalize_spec long same rows
  funext a t
  have size : (planOf plan.length (normalizeLength goalOf plan) (plan.position goalOf)).length =
      plan.length := by simp [planOf]
  rcases Nat.lt_or_ge a plan.length with bound | outside
  · rw [position, shows, entry, planOf, List.getD_eq_getElem?_getD, List.getD_eq_getElem?_getD]
    rcases Nat.lt_or_ge t (normalizeLength goalOf plan) with inside | late
    · simp [bound, inside]
    · rw [parked a bound t (by omega)]
      simp [bound, late]
  · have gone : (planOf plan.length (normalizeLength goalOf plan)
        (plan.position goalOf)).getD a [] = [] := List.getD_eq_default _ _ (size.trans_le outside)
    rw [position, shows, entry, gone, position, entry, List.getD_eq_default plan _ outside]

end Normal

/-- `NormalizePlan` cuts all rows after the last arrival and changes no position, so that arrival
times, costs and conflicts stay the same. -/
theorem normalizePlan_preserves (long : 1 ≤ n) (same : plan.Rectangular n)
    (rows : ∀ a < plan.length, ShowsWalk (plan.getD a []) (goalOf a)) :
    let normal := normalizePlan goalOf plan
    let len := normalizeLength goalOf plan
    len = 1 + (Finset.range plan.length).sup (plan.arrival goalOf) ∧ len ≤ n ∧
      normal.length = plan.length ∧
      (∀ a < plan.length, (normal.getD a []).length = len ∧
        ∀ t < len, normal.entry a t = some (plan.position goalOf a t)) ∧
      normal.position goalOf = plan.position goalOf ∧
      (∀ a, normal.arrival goalOf a = plan.arrival goalOf a) ∧
      normal.sumOfCosts goalOf = plan.sumOfCosts goalOf ∧
      normal.vertexConflicts goalOf = plan.vertexConflicts goalOf ∧
      normal.swapConflicts goalOf = plan.swapConflicts goalOf ∧
      normal.pebbleConflicts goalOf = plan.pebbleConflicts goalOf := by
  intro normal len
  obtain ⟨fits, last, shows, -⟩ := normalize_spec long same rows
  have position : normal.position goalOf = plan.position goalOf :=
    position_normalizePlan long same rows
  have size : normal.length = plan.length := by
    change (normalizePlan goalOf plan).length = _
    simp [shows, planOf]
  have arrival (a : ℕ) : normal.arrival goalOf a = plan.arrival goalOf a := by
    rw [Plan.arrival, position, Plan.arrival]
  refine ⟨last.trans (Nat.add_comm _ _), fits, size, fun a bound => ⟨?_, fun t inside => ?_⟩,
    position, arrival, ?_, ?_, ?_, ?_⟩
  · change ((normalizePlan goalOf plan).getD a []).length = _
    simp [shows, planOf, List.getD_eq_getElem?_getD, bound, len]
  · change (normalizePlan goalOf plan).entry a t = _
    simp [shows, entry, planOf, List.getD_eq_getElem?_getD, bound,
      show t < normalizeLength _ _ from inside]
  · simp only [sumOfCosts, size, arrival]
  · rw [vertexConflicts, size, position, vertexConflicts]
  · rw [swapConflicts, size, position, swapConflicts]
  · rw [pebbleConflicts, size, position, pebbleConflicts]

end Plan

theorem Plan.normalizePlan_preserves_revisited :
    let plan : Plan := [[some 1, some 0, some 1, none], [some 2, none, none, none]]
    let goalOf : ℕ → ℕ := fun a => a + 1
    normalizeLength goalOf plan ≤ 4 ∧
      (normalizePlan goalOf plan).position goalOf = plan.position goalOf :=
  have shown : ∀ a < 2, Plan.ShowsWalk
      (([[some 1, some 0, some 1, none], [some 2, none, none, none]] : Plan).getD a []) (a + 1) := by
    intro a bound
    match a, bound with
    | 0, _ => exact ⟨[1, 0, 1], 1, rfl, rfl⟩
    | 1, _ => exact ⟨[2], 3, rfl, rfl⟩
  have preserves := Plan.normalizePlan_preserves (by decide : 1 ≤ 4)
    (by decide : Plan.Rectangular [[some 1, some 0, some 1, none], [some 2, none, none, none]] 4) shown
  ⟨preserves.2.1, preserves.2.2.2.2.1⟩

end MAPFEncodings

import MAPFEncodings.Model.Extraction
import MAPFEncodings.PathFinding.Plan

/-! # Extracted plans

The extraction loop writes down a walk for as long as there are variables for it, and
`NormalizePlan` turns the rest of each row into waiting at the goal and cuts all rows to the time
when the last agent arrives. In both cases the rows show the first timesteps of an infinite plan in
which nobody moves any more afterwards.
-/

namespace MAPFEncodings

open PathFinding

/-- The table of the positions of `n` agents in the first `len` timesteps. -/
def planOf (n len : ℕ) (pos : ℕ → ℕ → ℕ) : Plan :=
  (List.range n).map fun a => (List.range len).map fun t => some (pos a t)

/-- A plan shows positions for some timesteps, after which all agents stay at their goals. -/
def Plan.Shows (plan : Plan) (n : ℕ) (goalOf : ℕ → ℕ) (pos : ℕ → ℕ → ℕ) : Prop :=
  ∃ len, 0 < len ∧ plan = planOf n len pos ∧ ∀ a < n, ∀ t, len ≤ t + 1 → pos a t = goalOf a

/-- A plan shows each agent at one place. -/
theorem Plan.Shows.unique {plan : Plan} {n : ℕ} {goalOf : ℕ → ℕ} {pos pos' : ℕ → ℕ → ℕ}
    (shows_ : plan.Shows n goalOf pos) (shows' : plan.Shows n goalOf pos') {a : ℕ} (bound : a < n)
    (t : ℕ) : pos a t = pos' a t := by
  obtain ⟨len, -, same, parked⟩ := shows_
  obtain ⟨len', -, same', parked'⟩ := shows'
  have row := congrArg (fun plan : Plan => plan[a]?) (same.symm.trans same')
  simp only [planOf, List.getElem?_map, List.getElem?_range bound, Option.map_some,
    Option.some.injEq] at row
  have size := congrArg List.length row
  simp only [List.length_map, List.length_range] at size
  subst size
  rcases Nat.lt_or_ge t len with inside | outside
  · have entry := congrArg (fun row : List (Option ℕ) => row[t]?) row
    simpa [List.getElem?_range inside] using entry
  · rw [parked a bound t (by omega), parked' a bound t (by omega)]

section Normalize

variable {n : ℕ} {w : ℕ → ℕ} {goal arr : ℕ}

/-- The times from which a walk stays at the goal. -/
def parkedFrom (w : ℕ → ℕ) (goal : ℕ) : Set ℕ := {T | ∀ t, T ≤ t → w t = goal}

/-- A row shows a walk, up to entries which are missing after the arrival at the goal. -/
structure Traced (row : List (Option ℕ)) (n : ℕ) (w : ℕ → ℕ) (goal : ℕ) : Prop where
  length : row.length = n
  entry : ∀ t < n, row[t]? = some (some (w t)) ∨
    (row[t]? = some none ∧ ∀ s, t ≤ s → w s = goal)

private theorem Traced.eq_map {row : List (Option ℕ)} (traced : Traced row n w goal)
    (full : ∀ t < n, row[t]? ≠ some none) : row = (List.range n).map fun t => some (w t) := by
  apply List.ext_getElem?
  intro t
  by_cases inside : t < n
  · rcases traced.entry t inside with shown | missing
    · simp [shown, inside]
    · exact absurd missing.1 (full t inside)
  · rw [List.getElem?_eq_none (by rw [traced.length]; omega),
      List.getElem?_eq_none (by simp; omega)]

/-- Filling a missing entry keeps the row traced. -/
private theorem Traced.fill {row : List (Option ℕ)} (traced : Traced row n w goal) {k : ℕ}
    (inside : k < n) (parked : w k = goal) : Traced (row.set k (some goal)) n w goal where
  length := by rw [List.length_set, traced.length]
  entry t bound := by
    rw [List.getElem?_set, traced.length]
    by_cases same : k = t
    · subst same
      exact .inl (by simp [inside, parked])
    · simpa [same] using traced.entry t bound

private theorem normalizeRow_shown {row : List (Option ℕ)} {k v : ℕ} (m : ℕ)
    (shown : row.getD k none = some v) : normalizeRow goal (k + 1) (row, m) =
      if v ≠ goal then (row, max m (k + 2)) else normalizeRow goal k (row, m) := by
  rw [List.getD_eq_getElem?_getD] at shown
  simp [normalizeRow, shown]

private theorem normalizeRow_missing {row : List (Option ℕ)} {k : ℕ} (m : ℕ)
    (inside : k < row.length) (missing : row.getD k none = none) :
    normalizeRow goal (k + 1) (row, m) = normalizeRow goal k (row.set k (some goal), m) := by
  rw [List.getD_eq_getElem _ _ inside] at missing
  simp [normalizeRow, missing, inside]

/-- Normalizing a row keeps the positions which it shows and fills in goals. -/
private theorem normalizeRow_entry {k : ℕ} (m : ℕ) {row : List (Option ℕ)} (bound : k ≤ row.length) :
    (normalizeRow goal k (row, m)).1.length = row.length ∧
      ∀ t : ℕ, (normalizeRow goal k (row, m)).1.getD t none = row.getD t none ∨
        (row.getD t none = none ∧ (normalizeRow goal k (row, m)).1.getD t none = some goal) := by
  induction k generalizing row with
  | zero => exact ⟨rfl, fun t => .inl rfl⟩
  | succ k ih =>
    cases shown : row.getD k none with
    | some v =>
      rw [normalizeRow_shown m shown]
      split
      · exact ⟨rfl, fun t => .inl rfl⟩
      · exact ih (Nat.le_of_succ_le bound)
    | none =>
      rw [normalizeRow_missing m bound shown]
      obtain ⟨length, entry⟩ := @ih (row.set k (some goal)) (by rw [List.length_set]; omega)
      refine ⟨length.trans List.length_set, fun t => ?_⟩
      have filled : (row.set k (some goal)).getD t none =
          if k = t then some goal else row.getD t none := by
        rw [List.getD_eq_getElem?_getD, List.getElem?_set]
        by_cases same : k = t
        · subst same
          simp [Nat.lt_of_succ_le bound]
        · simp [same]
      rcases entry t with kept | ⟨missing, home⟩
      · by_cases same : k = t
        · exact .inr ⟨same ▸ shown, by rw [kept, filled, if_pos same]⟩
        · exact .inl (by rw [kept, filled, if_neg same])
      · rw [filled] at missing
        split at missing
        · cases missing
        · exact .inr ⟨missing, home⟩

private theorem getD_takeD {α : Type*} {row : List (Option α)} {t : ℕ} (n : ℕ) {x : Option α}
    (inside : t < row.length) :
    (row.takeD n x).getD t none = if t < n then row.getD t none else none := by
  induction n generalizing row t with
  | zero => rfl
  | succ n ih =>
    cases row with
    | nil => exact absurd inside (Nat.not_lt_zero t)
    | cons first rest =>
      cases t with
      | zero => simp
      | succ t => simpa using ih (Nat.lt_of_succ_lt_succ inside)

/-- Inside its rows a normalized plan shows the positions of the plan, or goals. -/
theorem normalizePlan_entry {goalOf : ℕ → ℕ} {plan : Plan} {a t v : ℕ}
    (inside : t < (plan.getD a []).length)
    (shown : (normalizePlan goalOf plan).entry a t = some v) :
    plan.entry a t = some v ∨ (plan.entry a t = none ∧ v = goalOf a) := by
  have bound : a < plan.length := by
    by_contra outside
    rw [List.getD_eq_default _ _ (by omega)] at inside
    exact absurd inside (Nat.not_lt_zero t)
  obtain ⟨m, row⟩ : ∃ m, (normalizePlan goalOf plan).getD a [] =
      (normalizeRow (goalOf a) (plan.getD a []).length (plan.getD a [], m)).1.takeD
        (normalizeLength goalOf plan) (some 0) := by
    refine ⟨(List.mapState (fun maxT (row : List (Option ℕ) × ℕ) =>
      normalizeRow (goalOf row.2) row.1.length (row.1, maxT)) 1 (plan.zipIdx.take a)).2, ?_⟩
    rw [normalizePlan, List.getD_eq_getElem?_getD, List.getElem?_map, List.getElem?_mapState,
      List.getElem?_zipIdx, List.getElem?_eq_getElem bound, List.getD_eq_getElem _ _ bound]
    simp only [Option.map_some, Option.getD_some, Nat.zero_add]
    rfl
  obtain ⟨length, entry⟩ := @normalizeRow_entry (goalOf a) _ m (plan.getD a []) le_rfl
  rw [Plan.entry, row, getD_takeD _ (inside.trans_eq length.symm)] at shown
  split at shown
  · rcases entry t with kept | ⟨missing, home⟩
    · exact .inl (kept.symm.trans shown)
    · exact .inr ⟨missing, Option.some.inj (shown.symm.trans home)⟩
  · cases shown

theorem normalizeRow_of_traced (least : IsLeast (parkedFrom w goal) arr) {row : List (Option ℕ)}
    {k m : ℕ} (traced : Traced row n w goal) (bound : k ≤ n) (start : 1 ≤ m)
    (parked : k ∈ parkedFrom w goal) (full : ∀ t, k ≤ t → t < n → row[t]? ≠ some none) :
    normalizeRow goal k (row, m) = ((List.range n).map fun t => some (w t), max m (arr + 1)) := by
  induction k generalizing row with
  | zero =>
    have : arr ≤ 0 := least.2 parked
    rw [normalizeRow, traced.eq_map fun t inside => full t (Nat.zero_le t) inside]
    exact Prod.ext rfl (by simp only; omega)
  | succ k ih =>
    have inside : k < n := bound
    rcases traced.entry k inside with shown | ⟨missing, stays⟩
    · have value : row.getD k none = some (w k) := by
        rw [List.getD_eq_getElem?_getD, shown]
        rfl
      rw [normalizeRow_shown m value]
      by_cases home : w k = goal
      · rw [if_neg (by simp [home])]
        refine ih traced inside.le (fun t le => ?_) fun t le lt => ?_
        · rcases le.eq_or_lt with rfl | later
          · exact home
          · exact parked t later
        · rcases le.eq_or_lt with rfl | later
          · rw [shown]
            simp
          · exact full t later lt
      · -- this is the last position away from the goal
        have arrival : arr = k + 1 := by
          have le := least.2 parked
          by_contra early
          exact home (least.1 k (by omega))
        rw [if_pos home, arrival]
        have complete : ∀ t < n, row[t]? ≠ some none := by
          intro t lt missing
          rcases traced.entry t lt with shown' | ⟨-, stays⟩
          · rw [shown'] at missing
            simp at missing
          · rcases Nat.lt_or_ge k t with later | earlier
            · exact full t later lt missing
            · exact home (stays k earlier)
        rw [traced.eq_map complete]
    · have home : w k = goal := stays k le_rfl
      have unknown : row.getD k none = none := by
        rw [List.getD_eq_getElem?_getD, missing]
        rfl
      rw [normalizeRow_missing m (traced.length ▸ inside) unknown]
      refine ih (traced.fill inside home) inside.le stays fun t le lt => ?_
      rw [List.getElem?_set, traced.length]
      by_cases same : k = t
      · simp [same, lt]
      · simpa [same] using full t (by omega) lt

end Normalize

section Rows

variable {n count : ℕ} {pos : ℕ → ℕ → ℕ} {goalOf arr : ℕ → ℕ} {rowOf : ℕ → List (Option ℕ)}

/-- The rows of `NormalizePlan` before they are resized, and their new length. -/
private theorem normalizeRows_of_traced (long : 0 < n)
    (traced : ∀ a < count, Traced (rowOf a) n (pos a) (goalOf a))
    (parked : ∀ a < count, n - 1 ∈ parkedFrom (pos a) (goalOf a))
    (least : ∀ a < count, IsLeast (parkedFrom (pos a) (goalOf a)) (arr a)) :
    List.mapState (fun maxT (row : List (Option ℕ) × ℕ) =>
        normalizeRow (goalOf row.2) row.1.length (row.1, maxT)) 1
        ((List.range count).map rowOf).zipIdx =
      ((List.range count).map fun a => (List.range n).map fun t => some (pos a t),
        (Finset.range count).sup arr + 1) := by
  let body := fun (maxT : ℕ) (row : List (Option ℕ) × ℕ) =>
    normalizeRow (goalOf row.2) row.1.length (row.1, maxT)
  have loop : ∀ c ≤ count, List.mapState body 1 ((List.range c).map fun a => (rowOf a, a)) =
      ((List.range c).map fun a => (List.range n).map fun t => some (pos a t),
        (Finset.range c).sup arr + 1) := by
    intro c
    induction c with
    | zero => exact fun _ => rfl
    | succ c ih =>
      intro bound
      have row : body ((Finset.range c).sup arr + 1) (rowOf c, c) =
          ((List.range n).map fun t => some (pos c t),
            max ((Finset.range c).sup arr + 1) (arr c + 1)) := by
        have size := (traced c bound).length
        change normalizeRow (goalOf c) (rowOf c).length (rowOf c, _) = _
        rw [size]
        refine normalizeRow_of_traced (least c bound) (traced c bound) le_rfl (by omega)
          (fun t late => parked c bound t (by omega)) fun t late inside => by omega
      have grown : (Finset.range (c + 1)).sup arr + 1 =
          max ((Finset.range c).sup arr + 1) (arr c + 1) := by
        rw [Finset.range_add_one, Finset.sup_insert, max_add_add_right, sup_comm]
      rw [List.range_succ, List.map_append, List.mapState_append, ih (by omega), List.map_append,
        grown]
      simp only [List.map_cons, List.map_nil, List.mapState_cons, List.mapState_nil, row]
  have indexed : ((List.range count).map rowOf).zipIdx =
      (List.range count).map fun a => (rowOf a, a) := by
    apply List.ext_getElem?
    intro a
    rcases Nat.lt_or_ge a count with inside | outside
    · simp [inside]
    · rw [List.getElem?_eq_none (by simpa using outside),
        List.getElem?_eq_none (by simpa using outside)]
  rw [indexed]
  exact loop count le_rfl

/-- `NormalizePlan` on traced rows returns the number of timesteps until the last arrival. -/
theorem normalizeLength_of_traced (long : 0 < n)
    (traced : ∀ a < count, Traced (rowOf a) n (pos a) (goalOf a))
    (parked : ∀ a < count, n - 1 ∈ parkedFrom (pos a) (goalOf a))
    (least : ∀ a < count, IsLeast (parkedFrom (pos a) (goalOf a)) (arr a)) :
    normalizeLength goalOf ((List.range count).map rowOf) = (Finset.range count).sup arr + 1 := by
  rw [normalizeLength, normalizeRows_of_traced long traced parked least]

/-- `NormalizePlan` on traced rows shows the same walks until the last arrival. -/
theorem normalizePlan_of_traced (arr : ℕ → ℕ) (long : 0 < n)
    (traced : ∀ a < count, Traced (rowOf a) n (pos a) (goalOf a))
    (parked : ∀ a < count, n - 1 ∈ parkedFrom (pos a) (goalOf a))
    (least : ∀ a < count, IsLeast (parkedFrom (pos a) (goalOf a)) (arr a)) :
    ∃ len, 0 < len ∧ len ≤ n ∧ (∀ a < count, arr a + 1 ≤ len) ∧
      normalizePlan goalOf ((List.range count).map rowOf) = planOf count len pos ∧
      len = (Finset.range count).sup arr + 1 := by
  have fits : (Finset.range count).sup arr + 1 ≤ n := by
    have early : (Finset.range count).sup arr ≤ n - 1 := Finset.sup_le fun a member =>
      (least a (Finset.mem_range.mp member)).2 (parked a (Finset.mem_range.mp member))
    omega
  refine ⟨(Finset.range count).sup arr + 1, by omega, fits, fun a bound => ?_, ?_, rfl⟩
  · exact Nat.succ_le_succ (Finset.le_sup (f := arr) (Finset.mem_range.mpr bound))
  rw [normalizePlan, normalizeRows_of_traced long traced parked least, List.map_map]
  refine List.map_congr_left fun a _ => ?_
  rw [Function.comp_apply, List.takeD_eq_take _ (by simpa using fits), ← List.map_take,
    List.take_range, Nat.min_eq_left fits]

end Rows

namespace Encoder

variable {e : Encoder} {next : ℕ → ℕ → ℕ → Option ℕ} {L : ℕ → ℕ} {pos : ℕ → ℕ → ℕ}

/-- A choice of next vertices leads every agent to its goal at its deadline and no further. -/
structure Extracts (e : Encoder) (next : ℕ → ℕ → ℕ → Option ℕ) (L : ℕ → ℕ) (pos : ℕ → ℕ → ℕ) :
    Prop where
  follows : ∀ a < e.agents, ∀ t, t ≤ L a → follow (next a) (e.inst.startOf a) t = some (pos a t)
  stops : ∀ a < e.agents, ∀ t, L a < t → follow (next a) (e.inst.startOf a) t = none
  parks : ∀ a < e.agents, ∀ t, L a ≤ t → pos a t = e.inst.goalOf a

/-- The walks of agents which are considered parked where the choice of next vertices ends. -/
structure Trails (e : Encoder) (next : ℕ → ℕ → ℕ → Option ℕ) (L : ℕ → ℕ) (pos : ℕ → ℕ → ℕ) :
    Prop where
  entry : ∀ a < e.agents, ∀ t, follow (next a) (e.inst.startOf a) t = some (pos a t) ∨
    (follow (next a) (e.inst.startOf a) t = none ∧ ∀ s, t ≤ s → pos a s = e.inst.goalOf a)
  parks : ∀ a < e.agents, ∀ t, L a ≤ t → pos a t = e.inst.goalOf a

theorem Extracts.trails (extracts : e.Extracts next L pos) : e.Trails next L pos where
  entry a bound t := by
    rcases Nat.lt_or_ge (L a) t with late | early
    · exact .inr ⟨extracts.stops a bound t late,
        fun s after => extracts.parks a bound s (by omega)⟩
    · exact .inl (extracts.follows a bound t early)
  parks := extracts.parks

private theorem Trails.traced (trails : e.Trails next L pos) {a : ℕ} (bound : a < e.agents)
    (n : ℕ) : Traced ((List.range n).map (follow (next a) (e.inst.startOf a))) n (pos a)
      (e.inst.goalOf a) where
  length := by simp
  entry t inside := by
    rw [List.getElem?_map, List.getElem?_range inside, Option.map_some]
    rcases trails.entry a bound t with shown | ⟨stopped, parked⟩
    · exact .inl (by rw [shown])
    · exact .inr ⟨by rw [stopped], parked⟩

theorem entry_extractRows {a t : ℕ} (bound : a < e.agents) (inside : t < e.maxTimestep.toNat) :
    (e.extractRows next).entry a t = follow (next a) (e.inst.startOf a) t := by
  simp [Plan.entry, extractRows, List.getElem?_range bound, List.getElem?_range inside]

/-- An extracted plan shows the positions which were followed, or parks an agent which has got no
further at its goal. -/
theorem entry_extractPlan {a t v : ℕ} (bound : a < e.agents) (inside : t < e.maxTimestep.toNat)
    (shown : (e.extractPlan next).entry a t = some v) :
    follow (next a) (e.inst.startOf a) t = some v ∨
      (follow (next a) (e.inst.startOf a) t = none ∧ v = e.inst.goalOf a) := by
  unfold extractPlan at shown
  rw [← entry_extractRows bound inside]
  split at shown
  · exact .inl shown
  · refine normalizePlan_entry ?_ shown
    simp [extractRows, List.getElem?_range bound, inside]

private theorem extractPlan_of_no_agents (none : e.agents = 0) :
    (e.extractPlan next).Shows e.agents e.inst.goalOf pos := by
  refine ⟨1, Nat.one_pos, ?_, by omega⟩
  unfold extractPlan extractRows planOf
  rw [none]
  cases e.config.costFunction <;> rfl

/-- For the sum of costs the normalized plan shows agents as parked where their trails end. -/
theorem Trails.shows (trails : e.Trails next L pos) (soc : e.config.costFunction = .soc)
    (fits : ∀ a < e.agents, (L a : ℤ) < e.maxTimestep) :
    (e.extractPlan next).Shows e.agents e.inst.goalOf pos := by
  rcases Nat.eq_zero_or_pos e.agents with none | some
  · exact extractPlan_of_no_agents none
  · have long : 0 < e.maxTimestep.toNat := by
      have := fits 0 some
      omega
    have parked (a : ℕ) (bound : a < e.agents) :
        L a ∈ parkedFrom (pos a) (e.inst.goalOf a) := trails.parks a bound
    obtain ⟨len, start, -, arrived, same, -⟩ := normalizePlan_of_traced
      (fun a => sInf (parkedFrom (pos a) (e.inst.goalOf a))) long
      (fun a bound => trails.traced bound _)
      (fun a bound t late => trails.parks a bound t (by have := fits a bound; omega))
      fun a bound => ⟨Nat.sInf_mem ⟨L a, parked a bound⟩, fun T early => Nat.sInf_le early⟩
    refine ⟨len, start, ?_, fun a bound t late => ?_⟩
    · rw [extractPlan, soc]
      exact same
    · have := arrived a bound
      exact Nat.sInf_mem ⟨L a, parked a bound⟩ t (by omega)

/-- The rows of agents which are followed to the last timestep. -/
theorem extractRows_eq_planOf (follows : ∀ a < e.agents, ∀ t < e.maxTimestep.toNat,
    follow (next a) (e.inst.startOf a) t = some (pos a t)) :
    e.extractRows next = planOf e.agents e.maxTimestep.toNat pos := by
  refine List.map_congr_left fun a memA => List.map_congr_left fun t memT => ?_
  exact follows a (List.mem_range.mp memA) t (List.mem_range.mp memT)

/-- For the makespan the plan shows the walks of agents which are followed to the last timestep. -/
theorem shows_of_follow (mks : e.config.costFunction = .mks)
    (together : ∀ a < e.agents, (L a : ℤ) + 1 = e.maxTimestep)
    (follows : ∀ a < e.agents, ∀ t, t ≤ L a →
      follow (next a) (e.inst.startOf a) t = some (pos a t))
    (parks : ∀ a < e.agents, ∀ t, L a ≤ t → pos a t = e.inst.goalOf a) :
    (e.extractPlan next).Shows e.agents e.inst.goalOf pos := by
  rcases Nat.eq_zero_or_pos e.agents with none | some
  · exact extractPlan_of_no_agents none
  · have long : 0 < e.maxTimestep.toNat := by
      have := together 0 some
      omega
    refine ⟨e.maxTimestep.toNat, long, ?_, fun a bound t late => ?_⟩
    · rw [extractPlan, mks]
      refine extractRows_eq_planOf fun a bound t inside => ?_
      have last := together a bound
      exact follows a bound t (by omega)
    · have last := together a bound
      exact parks a bound t (by omega)

/-- The extracted plan shows the walks which were followed. -/
theorem Extracts.shows (extracts : e.Extracts next L pos)
    (fits : ∀ a < e.agents, (L a : ℤ) < e.maxTimestep)
    (together : e.config.costFunction = .mks → ∀ a < e.agents, (L a : ℤ) + 1 = e.maxTimestep) :
    (e.extractPlan next).Shows e.agents e.inst.goalOf pos := by
  cases kind : e.config.costFunction with
  | mks => exact shows_of_follow kind (together kind) extracts.follows extracts.parks
  | soc => exact extracts.trails.shows kind fits

end Encoder

end MAPFEncodings

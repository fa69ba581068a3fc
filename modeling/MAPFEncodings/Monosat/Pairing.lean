import MAPFEncodings.Monosat.Shift
import MAPFEncodings.Proofs.Coherence

/-! # The pairing function in 32-bit arithmetic

`CreateMove_Graph_MonosatShift` evaluates the pairing function of a vertex and a timestep in `int`.
The product under the fraction overflows as soon as their sum exceeds 46340, which is the case on
large maps. Below that bound the nodes of the graph are as distinct as the pairs.
-/

namespace MAPFEncodings

/-! ## Evaluation in `int` -/

/-- A result of signed arithmetic, which is undefined outside the range of `int`. -/
def int32? (x : ℤ) : Option ℤ := if -2 ^ 31 ≤ x ∧ x < 2 ^ 31 then some x else none

/-- `((v+t)*(v+t+1)/2) + t` in `int`. -/
def pairing32 (v t : ℤ) : Option ℤ :=
  (int32? (v + t)).bind fun sum => (int32? (sum + 1)).bind fun next =>
    (int32? (sum * next)).bind fun product => int32? (product.tdiv 2 + t)

/-- `((u+t+1)*(u+t+2)/2)+t+1` in `int`. -/
def pairingNext32 (u t : ℤ) : Option ℤ :=
  (int32? (u + t)).bind fun sum => (int32? (sum + 1)).bind fun left =>
    (int32? (sum + 2)).bind fun right => (int32? (left * right)).bind fun product =>
      (int32? (product.tdiv 2 + t)).bind fun id => int32? (id + 1)

theorem int32?_of_range {x : ℤ} (low : 0 ≤ x) (high : x < 2 ^ 31) : int32? x = some x :=
  if_pos ⟨by omega, high⟩

theorem int32?_of_large {x : ℤ} (large : 2 ^ 31 ≤ x) : int32? x = none :=
  if_neg fun range => absurd range.2 (by omega)

/-- The product of consecutive numbers fits up to 46340. -/
theorem mul_succ_lt_iff {n : ℤ} (nonneg : 0 ≤ n) : n * (n + 1) < 2 ^ 31 ↔ n ≤ 46340 := by
  constructor
  · intro fits
    by_contra large
    nlinarith
  · intro small
    nlinarith

/-- Without overflow `int` arithmetic computes the pairing function. -/
theorem pairing32_eq {v t : ℤ} (nonnegV : 0 ≤ v) (nonnegT : 0 ≤ t) (small : v + t ≤ 46340) :
    pairing32 v t = some (cantor v t) := by
  have product := (mul_succ_lt_iff (n := v + t) (by omega)).mpr small
  have nonneg : 0 ≤ (v + t) * (v + t + 1) := by positivity
  unfold pairing32 cantor
  rw [int32?_of_range (by omega) (by omega), Option.bind_some,
    int32?_of_range (by omega) (by omega), Option.bind_some, int32?_of_range nonneg product,
    Option.bind_some, Int.tdiv_eq_ediv_of_nonneg nonneg]
  have half : (v + t) * (v + t + 1) / 2 ≤ 46340 * 46341 / 2 :=
    Int.ediv_le_ediv (by decide) (by nlinarith)
  exact int32?_of_range (by omega) (by omega)

/-- With a larger sum the product overflows. -/
theorem pairing32_eq_none {v t : ℤ} (large : 46340 < v + t) : pairing32 v t = none := by
  have product : 2 ^ 31 ≤ (v + t) * (v + t + 1) := by nlinarith
  unfold pairing32
  by_cases sum : v + t + 1 < 2 ^ 31
  · rw [int32?_of_range (by omega) (by omega), Option.bind_some, int32?_of_range (by omega) sum,
      Option.bind_some, int32?_of_large product, Option.bind_none]
  · cases first : int32? (v + t) with
    | none => rfl
    | some s =>
      have same : v + t = s := by
        unfold int32? at first
        split at first
        · exact Option.some.inj first
        · cases first
      rw [Option.bind_some, ← same, int32?_of_large (by omega), Option.bind_none]

theorem isSome_pairing32_iff {v t : ℤ} (nonnegV : 0 ≤ v) (nonnegT : 0 ≤ t) :
    (pairing32 v t).isSome ↔ v + t ≤ 46340 := by
  constructor
  · intro present
    by_contra large
    rw [pairing32_eq_none (by omega)] at present
    cases present
  · intro small
    rw [pairing32_eq nonnegV nonnegT small]
    rfl

/-- The second form is the first one for the next timestep. -/
theorem pairingNext32_eq {u t : ℤ} (nonnegU : 0 ≤ u) (nonnegT : 0 ≤ t)
    (small : u + (t + 1) ≤ 46340) : pairingNext32 u t = some (cantor u (t + 1)) := by
  have product := (mul_succ_lt_iff (n := u + (t + 1)) (by omega)).mpr small
  have nonneg : 0 ≤ (u + (t + 1)) * (u + (t + 1) + 1) := by positivity
  have half : (u + (t + 1)) * (u + (t + 1) + 1) / 2 ≤ 46340 * 46341 / 2 :=
    Int.ediv_le_ediv (by decide) (by nlinarith)
  have factors : (u + t + 1) * (u + t + 2) = (u + (t + 1)) * (u + (t + 1) + 1) := by ring
  unfold pairingNext32 cantor
  rw [int32?_of_range (by omega) (by omega), Option.bind_some,
    int32?_of_range (by omega) (by omega), Option.bind_some,
    int32?_of_range (by omega) (by omega), Option.bind_some, factors, int32?_of_range nonneg product,
    Option.bind_some, Int.tdiv_eq_ediv_of_nonneg nonneg, int32?_of_range (by omega) (by omega),
    Option.bind_some, int32?_of_range (by omega) (by omega), add_assoc]

/-! ## Nodes -/

/-- The node numbers which a sequence of calls of `VarToID` with a shared dictionary returns. -/
def nodeNumbers (numbering : Numbering) (ids : List ℤ) : List ℕ :=
  (List.mapState (fun numbering id => varToID numbering id false) numbering ids).1

/-- The calls return the numbers which their arguments have at last. -/
private theorem nodeNumbers_spec {numbering : Numbering} (proper : numbering.Proper) (ids : List ℤ) :
    ∃ last : Numbering, last.Proper ∧ FirstUse.Keeps numbering.dict last.dict ∧
      ∀ (i : ℕ) n, (nodeNumbers numbering ids)[i]? = some n →
        ∃ id, ids[i]? = some id ∧ last.id? (id, false) = some n := by
  induction ids generalizing numbering with
  | nil => exact ⟨numbering, proper, fun known => known, fun i n found => by simp [nodeNumbers] at found⟩
  | cons id ids ih =>
    obtain ⟨proper', kept, here⟩ := varToID_proper proper id false
    obtain ⟨last, properLast, kept', later⟩ := ih proper'
    refine ⟨last, properLast, kept.trans kept', fun i n found => ?_⟩
    rcases i with - | i
    · obtain rfl : (varToID numbering id false).1 = n := by simpa [nodeNumbers] using found
      exact ⟨id, rfl, kept' here⟩
    · exact later i n found

/-- Two calls return the same number exactly if they have the same argument. -/
theorem nodeNumbers_eq_iff {ids : List ℤ} {i j m n : ℕ} {id id' : ℤ} (atI : ids[i]? = some id)
    (atJ : ids[j]? = some id') (first : (nodeNumbers .empty ids)[i]? = some m)
    (second : (nodeNumbers .empty ids)[j]? = some n) : m = n ↔ id = id' := by
  obtain ⟨last, proper, -, numbers⟩ := nodeNumbers_spec Numbering.Proper.empty ids
  obtain ⟨_, atI', foundM⟩ := numbers i m first
  obtain ⟨_, atJ', foundN⟩ := numbers j n second
  obtain rfl := Option.some.inj (atI.symm.trans atI')
  obtain rfl := Option.some.inj (atJ.symm.trans atJ')
  constructor
  · rintro rfl
    exact proper.inj foundM foundN
  · rintro rfl
    exact Option.some.inj (foundM.symm.trans foundN)

/-- On a map and for timesteps up to `maxTimestep` no evaluation of the pairing function overflows,
and `VarToID` returns one number for two pairs exactly if they are equal. -/
structure Grid.PairsDistinctly (g : Grid) (maxTimestep : ℕ) : Prop where
  pairing : ∀ v < g.numberOfVertices, ∀ t : ℕ, t ≤ maxTimestep → (pairing32 v t).isSome
  next : ∀ u < g.numberOfVertices, ∀ t : ℕ, t + 1 ≤ maxTimestep →
    ∃ id, pairingNext32 u t = some id ∧ pairing32 u (t + 1 : ℕ) = some id
  distinct : ∀ (pairs : List (ℕ × ℕ)) (ids : List ℤ),
    (∀ pair ∈ pairs, pair.1 < g.numberOfVertices ∧ pair.2 ≤ maxTimestep) →
    (pairs.map fun pair => pairing32 pair.1 pair.2) = ids.map some →
    ∀ (i j : ℕ) pair pair' m n, pairs[i]? = some pair → pairs[j]? = some pair' →
      (nodeNumbers .empty ids)[i]? = some m → (nodeNumbers .empty ids)[j]? = some n →
      (m = n ↔ pair = pair')

/-- The argument of a call is the pairing function of its pair. -/
private theorem getElem?_ids {pairs : List (ℕ × ℕ)} {ids : List ℤ}
    (same : (pairs.map fun pair => pairing32 pair.1 pair.2) = ids.map some) {i : ℕ} {pair : ℕ × ℕ}
    (atI : pairs[i]? = some pair) (small : pair.1 + pair.2 ≤ 46340) :
    ids[i]? = some (cantor pair.1 pair.2) := by
  have entry := congrArg (·[i]?) same
  simp only [List.getElem?_map, atI, Option.map_some] at entry
  rw [pairing32_eq (by omega) (by omega) (by omega)] at entry
  cases found : ids[i]? with
  | none => simp [found] at entry
  | some id =>
    rw [found, Option.map_some, Option.some.injEq, Option.some.injEq] at entry
    rw [entry]

/-- Small maps and few timesteps keep the pairs apart. -/
theorem Grid.pairsDistinctly_of_small {g : Grid} {maxTimestep : ℕ}
    (small : g.numberOfVertices = 0 ∨ g.numberOfVertices + maxTimestep ≤ 46341) :
    g.PairsDistinctly maxTimestep := by
  constructor
  · intro v cell t time
    rw [isSome_pairing32_iff (by omega) (by omega)]
    omega
  · intro u cell t time
    refine ⟨_, pairingNext32_eq (by omega) (by omega) (by omega), ?_⟩
    push_cast
    exact pairing32_eq (by omega) (by omega) (by omega)
  · intro pairs ids bounds same i j pair pair' m n atI atJ first second
    have inside := bounds pair (List.mem_of_getElem? atI)
    have inside' := bounds pair' (List.mem_of_getElem? atJ)
    rw [nodeNumbers_eq_iff (getElem?_ids same atI (by omega)) (getElem?_ids same atJ (by omega)) first
      second]
    constructor
    · intro equal
      have both := cantor_inj (by omega) (by omega) equal
      exact Prod.ext both.1 (by omega)
    · rintro rfl
      rfl

/-- On a map with a vertex whose sum with the last timestep is too large the product overflows. -/
theorem Grid.not_pairsDistinctly_of_large {g : Grid} {maxTimestep : ℕ}
    (some : g.numberOfVertices ≠ 0) (large : 46341 < g.numberOfVertices + maxTimestep) :
    ¬g.PairsDistinctly maxTimestep := by
  intro distinctly
  have overflow := distinctly.pairing (g.numberOfVertices - 1) (by omega) maxTimestep le_rfl
  rw [pairing32_eq_none (by omega)] at overflow
  cases overflow

/-- The nodes of the shared graph are as distinct as the pairs exactly on maps and for numbers of
timesteps whose sum does not exceed 46341. -/
theorem pairsDistinctly_iff (input : MapInput) (maxTimestep : ℕ) :
    input.load.PairsDistinctly maxTimestep ↔ input.load.numberOfVertices = 0 ∨
      input.load.numberOfVertices + maxTimestep ≤ 46341 := by
  constructor
  · intro distinctly
    by_contra large
    exact Grid.not_pairsDistinctly_of_large (by omega) (by omega) distinctly
  · exact Grid.pairsDistinctly_of_small

/-! ## A corridor which is too long -/

/-- A map with a single row of free cells. -/
def MapInput.hall (length : ℕ) : MapInput := .data [List.replicate length 0]

theorem MapInput.rectangular_hall (length : ℕ) : (hall length).Rectangular :=
  ⟨List.cons_ne_nil _ _, fun _ member => congrArg List.length (List.mem_singleton.mp member)⟩

theorem MapInput.le_numberOfVertices_hall (length : ℕ) :
    length ≤ (hall length).load.numberOfVertices := by
  have numbered := (hall length).numbered_load
  have free (j : ℕ) (inside : j < length) : (hall length).IsFree ⟨0, j⟩ :=
    ⟨List.replicate length 0, rfl, 0, by simp [inside], by decide⟩
  have cells : (List.range length).map (Vertex.mk 0) ⊆ (hall length).load.coordList := by
    intro v member
    obtain ⟨j, inside, rfl⟩ := List.mem_map.mp member
    have numbers := (isSome_mapAt_load_iff (rectangular_hall length) _).mpr
      (free j (List.mem_range.mp inside))
    obtain ⟨k, atV⟩ := Option.isSome_iff_exists.mp numbers
    exact List.mem_of_getElem? ((numbered.mapAt_iff _ _).mp atV)
  have nodup : ((List.range length).map (Vertex.mk 0)).Nodup :=
    List.nodup_range.map fun i j same => (Vertex.mk.inj same).2
  rw [numbered.count]
  simpa using (nodup.subperm cells).length_le

/-- In a hall of 46342 cells the last cell overflows at timestep zero already. -/
theorem hall_not_pairsDistinctly : ¬(MapInput.hall 46342).load.PairsDistinctly 1 := by
  have long := MapInput.le_numberOfVertices_hall 46342
  exact Grid.not_pairsDistinctly_of_large (by omega) (by omega)

end MAPFEncodings

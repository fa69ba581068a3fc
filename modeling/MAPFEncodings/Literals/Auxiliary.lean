import MAPFEncodings.Literals.Movement

/-! # Which objects the clauses with auxiliary variables are about

The late variables are numbered without gaps, and every call of the cardinality encoder gets the
variables from the first free one. So the clauses which it returns are about the given variables and
about auxiliary ones of this call.
-/

theorem Int.take_range {n : ℕ} {m : ℤ} (le : (n : ℤ) ≤ m) :
    (Int.range 0 m).take n = Int.range 0 n := by
  rw [Int.range, Int.range, ← List.map_take, List.take_range, Nat.min_eq_left (by omega)]
  rfl

theorem Int.getElem?_range {n : ℕ} {m : ℤ} (lt : (n : ℤ) < m) :
    (Int.range 0 m)[n]? = some (n : ℤ) := by
  rw [Int.range, List.getElem?_map, List.getElem?_range (by omega)]
  simp

namespace MAPFEncodings

open Cnf

/-! ## Duplicates -/

namespace Encoder

variable {e : Encoder} {lib : Externals} {hi : ℤ}

theorem positionsAt_below (ready : e.AtReady hi) {a : ℕ} (agent : a < e.agents) {lit t : ℤ}
    (le : hi ≤ lit) : ∀ x ∈ e.positionsAt a t, x ≠ 0 ∧ |x| < lit := by
  intro x member
  obtain ⟨v, vertex, covers, rfl⟩ := mem_positionsAt_iff.mp member
  have isVar := (ready.isVar a agent v vertex t covers).mono le
  exact lit_below isVar.1 isVar.2

theorem le_duplicateStep (consecutive : Consecutive lib.encodeAtMostK) (ready : e.AtReady hi)
    (pos : 1 ≤ hi) {a : ℕ} (agent : a < e.agents) {lit : ℤ} (t : ℤ) (le : hi ≤ lit) :
    lit ≤ (e.duplicateStep lib a lit t).2 := by
  unfold duplicateStep
  split
  · exact (consecutive _ 1 lit zero_le_one (pos.trans le) (positionsAt_below ready agent le)).1
  · exact le_rfl

theorem le_duplicateRow (consecutive : Consecutive lib.encodeAtMostK) (ready : e.AtReady hi)
    (pos : 1 ≤ hi) {a : ℕ} (agent : a < e.agents) {lit : ℤ} (le : hi ≤ lit) (times : List ℤ) :
    lit ≤ (List.mapState (e.duplicateStep lib a) lit times).2 :=
  List.mapState_invariant _ (lit ≤ ·) (fun _ above t _ =>
    above.trans (le_duplicateStep consecutive ready pos agent t (le.trans above))) le_rfl

theorem le_duplicateCall (consecutive : Consecutive lib.encodeAtMostK) (ready : e.AtReady hi)
    (pos : 1 ≤ hi) {lit : ℤ} (le : hi ≤ lit) {a : ℕ} (agent : a < e.agents) (t : ℕ) :
    lit ≤ e.duplicateCall lib lit a t := by
  have rows : lit ≤ (List.mapState (e.duplicateRow lib) lit (List.range a)).2 :=
    List.mapState_invariant (e.duplicateRow lib) (lit ≤ ·) (fun s above b member =>
      above.trans (le_duplicateRow consecutive ready pos ((List.mem_range.mp member).trans agent)
        (le.trans above) (Int.range 0 e.maxTimestep))) le_rfl
  exact rows.trans (le_duplicateRow consecutive ready pos agent (le.trans rows) _)

/-- Distinct calls of the cardinality encoder have distinct auxiliary variables. -/
theorem allocates_createMoveNoDuplicates (consecutive : Consecutive lib.encodeAtMostK)
    (ready : e.AtReady hi) (pos : 1 ≤ hi) {lit : ℤ} (le : hi ≤ lit) :
    Allocates (e.HasDuplicate lib lit) lit (e.createMoveNoDuplicates lib lit).2 := by
  have rows := Allocates.mapState_before (e.duplicateRow lib)
    (fun s a (key : ℕ × ℕ) x => ∃ t, (Int.range 0 e.maxTimestep)[key.1]? = some t ∧
      ((List.mapState (e.duplicateStep lib a) s ((Int.range 0 e.maxTimestep).take key.1)).2 +
        key.2 = x ∧ x < (e.duplicateStep lib a
          (List.mapState (e.duplicateStep lib a) s ((Int.range 0 e.maxTimestep).take key.1)).2 t).2))
    (List.range e.agents) (fun s start a member => ?_) le
  · apply rows.comap id Function.injective_id
    rintro ⟨a, t, i⟩ x ⟨⟨agent, time⟩, same, lt⟩
    refine ⟨a, List.getElem?_range agent, t, Int.getElem?_range time, ?_⟩
    change _ + (i : ℤ) = x ∧ x < _
    dsimp only [id]
    rw [List.take_range, Nat.min_eq_left (le_of_lt agent), Int.take_range (le_of_lt time)]
    exact ⟨same, lt⟩
  · have agent := List.mem_range.mp member
    exact Allocates.mapState_before (e.duplicateStep lib a)
      (fun s t (i : ℕ) x => s + i = x ∧ x < (e.duplicateStep lib a s t).2) _
      (fun s start t _ => .interval (le_duplicateStep consecutive ready pos agent t start)) start

/-- A clause of `CreateMove_NoDuplicates` comes from the call for one agent and timestep. -/
theorem mem_createMoveNoDuplicates_iff {lit : ℤ} {c : Clause} :
    c ∈ (e.createMoveNoDuplicates lib lit).1 ↔ ∃ a < e.agents, ∃ t : ℕ, (t : ℤ) < e.maxTimestep ∧
      c ∈ (e.duplicateStep lib a (e.duplicateCall lib lit a t) t).1 := by
  rw [createMoveNoDuplicates_eq, List.mem_flatten]
  constructor
  · rintro ⟨F, row, member⟩
    obtain ⟨i, a, atI, rfl⟩ := List.mem_mapState_iff.mp row
    obtain ⟨lt, rfl⟩ := List.getElem?_eq_some_iff.mp atI
    rw [List.length_range] at lt
    obtain ⟨G, step, member⟩ := List.mem_flatten.mp member
    obtain ⟨j, t, atJ, rfl⟩ := List.mem_mapState_iff.mp step
    obtain ⟨lt', rfl⟩ := List.getElem?_eq_some_iff.mp atJ
    have time : (j : ℤ) < e.maxTimestep := by
      rw [Int.range, List.length_map, List.length_range] at lt'
      omega
    have value : (Int.range 0 e.maxTimestep)[j] = (j : ℤ) :=
      Option.some.inj ((List.getElem?_eq_getElem lt').symm.trans (Int.getElem?_range time))
    refine ⟨i, lt, j, time, ?_⟩
    simp only [List.getElem_range, value, List.take_range, Nat.min_eq_left lt.le,
      Int.take_range time.le] at member
    exact member
  · rintro ⟨a, agent, t, time, member⟩
    refine ⟨_, List.mem_mapState_iff.mpr ⟨a, a, List.getElem?_range agent, rfl⟩, ?_⟩
    refine List.mem_flatten.mpr
      ⟨_, List.mem_mapState_iff.mpr ⟨t, t, Int.getElem?_range time, rfl⟩, ?_⟩
    rwa [List.take_range, Nat.min_eq_left agent.le, Int.take_range time.le]

end Encoder

namespace Layout

variable {l : Layout}

/-- A clause says a sentence about objects which have variables. A clause of the cardinality encoder
comes from the call for the objects of the sentence, with auxiliary variables from the first of them
on. -/
inductive SaysClause (l : Layout) : Sentence → Clause → Prop
  | clause (s : List (Literal Object)) (owned : ∀ k ∈ s, l.Owned k.name) :
    SaysClause l (.clause s) (numbered l.number s)
  | atMost {xs : List Object} {k : ℕ} {aux : ℕ → Object} (s : List (Literal Object))
    (about : ∀ m ∈ s, m.name ∈ xs ∨ ∃ i, m.name = aux i) (given : ∀ x ∈ xs, l.Owned x)
    (owned : ∀ m ∈ s, l.Owned m.name)
    (returned : numbered l.number s ∈
      (l.lib.encodeAtMostK (xs.map l.number) k (l.number (aux 0))).2) :
    SaysClause l (.atMost xs k aux) (numbered l.number s)

/-- A clause is an intended one. -/
def Asserts (l : Layout) (g : Generator) (c : Clause) : Prop :=
  ∃ s, Intends l.encoder.outline g s ∧ l.SaysClause s c

theorem Speaks.asserts {S : List (Literal Object) → Prop} {F : List Clause} (speaks : l.Speaks S F)
    {g : Generator} (intends : ∀ s, S s → Intends l.encoder.outline g (.clause s)) :
    ∀ c ∈ F, l.Asserts g c := by
  intro c member
  obtain ⟨s, holds, rfl⟩ := (speaks.writes c).mp member
  exact ⟨_, intends s holds, .clause s (speaks.owned s holds)⟩

/-- The clauses of a call of the cardinality encoder for objects with variables. -/
theorem said_atMost (consecutive : Consecutive l.lib.encodeAtMostK) {xs : List Object} {k : ℕ}
    {aux : ℕ → Object} {fresh : ℤ} (pos : 1 ≤ fresh)
    (below : ∀ x ∈ xs, l.Owned x ∧ IsVar fresh (l.number x))
    (auxiliary : ∀ i, l.number (aux i) = fresh + i)
    (drawn : ∀ i, l.number (aux i) < (l.lib.encodeAtMostK (xs.map l.number) k fresh).1 + 1 →
      l.Owned (aux i)) {c : Clause}
    (member : c ∈ (l.lib.encodeAtMostK (xs.map l.number) k fresh).2) :
    l.SaysClause (.atMost xs k aux) c := by
  obtain ⟨s, about, rfl⟩ := consecutive.exists_numbered (Int.natCast_nonneg k) pos
    (fun y given => by
      obtain ⟨x, inside, rfl⟩ := List.mem_map.mp given
      have isVar := (below x inside).2
      exact lit_below isVar.1 isVar.2)
    l.number (· ∈ xs) aux (fun y given => List.mem_map.mp given) auxiliary member
  have first : l.number (aux 0) = fresh := by simpa using auxiliary 0
  refine .atMost s (fun m inside => ?_) (fun x inside => (below x inside).1) (fun m inside => ?_) ?_
  · exact (about m inside).imp id fun ⟨i, same, _⟩ => ⟨i, same⟩
  · obtain given | ⟨i, same, lt⟩ := about m inside
    · exact (below _ given).1
    · exact same ▸ drawn i lt
  · rwa [first]

open Classical in
/-- The variables which are handed to the cardinality encoder. -/
theorem DrawsPositions.positionsAt_eq (draws : l.DrawsPositions) {a : ℕ}
    (agent : a < l.encoder.agents) (t : ℤ) : l.encoder.positionsAt a t =
      ((l.encoder.outline.present a t).map fun v => .position a v t).map l.number := by
  rw [Encoder.positionsAt, filterMap_ite _ _ (fun v => l.encoder.outline.Position a v t),
    List.map_map]
  · rfl
  · intro v vertex
    rw [draws.position_iff]
    exact ⟨fun covers => ⟨agent, List.mem_range.mp vertex, covers⟩, fun here => here.2.2⟩

theorem createMoveNoDuplicates_asserts (draws : l.DrawsPositions)
    (consecutive : Consecutive l.lib.encodeAtMostK) (pos : 1 ≤ l.positions)
    (le : l.positions ≤ l.reaches)
    (ends : l.duplicates = (l.encoder.createMoveNoDuplicates l.lib l.reaches).2) :
    ∀ c ∈ (l.encoder.createMoveNoDuplicates l.lib l.reaches).1,
      l.Asserts .createMoveNoDuplicates c := by
  intro c member
  obtain ⟨a, agent, t, time, member⟩ := Encoder.mem_createMoveNoDuplicates_iff.mp member
  have start := le.trans (Encoder.le_duplicateCall consecutive draws.ready pos le agent t)
  have given := draws.positionsAt_eq agent t
  unfold Encoder.duplicateStep at member
  split at member
  · next many =>
    have some_ : 1 < (l.encoder.outline.present a t).length := by simpa [given] using many
    refine ⟨_, .noDuplicates agent time some_, said_atMost consecutive (pos.trans start) ?_
      (fun i => rfl) (fun i lt => ?_) (given ▸ member)⟩
    · intro x inside
      obtain ⟨v, present, rfl⟩ := List.mem_map.mp inside
      have here := Outline.position_of_mem_present present
      exact ⟨draws.owned here, (draws.ready.isVar a agent v here.2.1 t (draws.covers here)).mono start⟩
    · have has : l.encoder.HasDuplicate l.lib l.reaches (a, t, i) (l.number (.duplicate a t i)) := by
        refine ⟨⟨agent, time⟩, rfl, ?_⟩
        rw [Encoder.duplicateStep, if_pos many, given]
        exact lt
      have alloc := Encoder.allocates_createMoveNoDuplicates consecutive draws.ready pos le
      rw [← ends] at alloc
      exact ⟨has, alloc.bounds has⟩
  · exact absurd member List.not_mem_nil

/-! ## Cost -/

/-- The late variables have been drawn. -/
def DrawsLate (l : Layout) : Prop :=
  l.lates = l.duplicates + (l.encoder.agents : ℤ) * l.encoder.delta

theorem DrawsLate.owned (draws : l.DrawsLate) {a d : ℕ} (agent : a < l.encoder.agents)
    (delay : d < l.encoder.delta) : l.Owned (.late a d) := by
  have alloc := Encoder.allocates_lateVar l.encoder l.duplicates
  rw [← show l.lates = _ from draws] at alloc
  exact ⟨⟨agent, delay, rfl⟩, alloc.bounds (k := (a, d)) ⟨agent, delay, rfl⟩⟩

open Literal in
/-- The clauses about lateness, given what makes an agent late. -/
def LateClause (l : Layout) (T : ℕ → ℕ → List (Literal Object) → Prop)
    (s : List (Literal Object)) : Prop :=
  ∃ a < l.encoder.agents, ∃ d < l.encoder.delta, T a d s ∨
    d + 1 < l.encoder.delta ∧ s = [pos (.late a d), neg (.late a (d + 1))]

/-- The part of a cost constraint without the bound on the number of late variables. -/
def lateClauses (l : Layout) (triggers : ℕ → ℕ → ℤ → List Clause) : List Clause :=
  (List.range l.encoder.agents).flatMap fun a => (List.range l.encoder.delta).flatMap fun d =>
    triggers a d (l.encoder.lateVar l.duplicates a d) ++
      if (d : ℤ) < l.encoder.delta - 1 then
        [[l.encoder.lateVar l.duplicates a d, -(l.encoder.lateVar l.duplicates a d + 1)]] else []

theorem lateClauses_speaks {triggers : ℕ → ℕ → ℤ → List Clause}
    {T : ℕ → ℕ → List (Literal Object) → Prop} (draws : l.DrawsLate)
    (each : ∀ a < l.encoder.agents, ∀ d < l.encoder.delta,
      l.Speaks (T a d) (triggers a d (l.encoder.lateVar l.duplicates a d))) :
    l.Speaks (l.LateClause T) (l.lateClauses triggers) where
  writes c := by
    have succ (a d : ℕ) : l.encoder.lateVar l.duplicates a d + 1 =
        l.encoder.lateVar l.duplicates a (d + 1) := by
      unfold Encoder.lateVar
      push_cast
      ring
    simp only [lateClauses, List.mem_flatMap, List.mem_range, List.mem_append,
      List.mem_ite_nil_right, List.mem_singleton, succ]
    constructor
    · rintro ⟨a, agent, d, delay, trigger | ⟨more, rfl⟩⟩
      · obtain ⟨s, holds, rfl⟩ := ((each a agent d delay).writes c).mp trigger
        exact ⟨s, ⟨a, agent, d, delay, .inl holds⟩, rfl⟩
      · exact ⟨_, ⟨a, agent, d, delay, .inr ⟨by omega, rfl⟩⟩, rfl⟩
    · rintro ⟨s, ⟨a, agent, d, delay, holds | ⟨more, rfl⟩⟩, rfl⟩
      · exact ⟨a, agent, d, delay, .inl (((each a agent d delay).writes _).mpr ⟨s, holds, rfl⟩)⟩
      · exact ⟨a, agent, d, delay, .inr ⟨by omega, rfl⟩⟩
  owned s holds := by
    obtain ⟨a, agent, d, delay, holds | ⟨more, rfl⟩⟩ := holds
    · exact (each a agent d delay).owned s holds
    · simp [draws.owned agent delay, draws.owned agent more]

theorem limitLate_asserts {g : Generator} {triggers : ℕ → ℕ → ℤ → List Clause}
    {T : ℕ → ℕ → List (Literal Object) → Prop} (draws : l.DrawsLate)
    (consecutive : Consecutive l.lib.encodeAtMostK) (pos : 1 ≤ l.duplicates)
    (ends : l.bounds = (l.encoder.limitLate l.lib triggers l.duplicates).2)
    (each : ∀ a < l.encoder.agents, ∀ d < l.encoder.delta,
      l.Speaks (T a d) (triggers a d (l.encoder.lateVar l.duplicates a d)))
    (triggered : ∀ a < l.encoder.agents, ∀ d < l.encoder.delta, ∀ s, T a d s →
      Intends l.encoder.outline g (.clause s))
    (limits : ∀ s, LimitsLate l.encoder.outline s → Intends l.encoder.outline g s) :
    ∀ c ∈ (l.encoder.limitLate l.lib triggers l.duplicates).1, l.Asserts g c := by
  intro c member
  have alloc := Encoder.allocates_lateVar l.encoder l.duplicates
  rw [Encoder.limitLate_eq] at member ends
  rw [← show l.lates = _ from draws] at member ends alloc
  rcases List.mem_append.mp member with chain | bound
  · refine (lateClauses_speaks draws each).asserts (fun s holds => ?_) c chain
    obtain ⟨a, agent, d, delay, holds | ⟨more, rfl⟩⟩ := holds
    · exact triggered a agent d delay s holds
    · exact limits _ (.chain agent more)
  · have given : l.encoder.lateVars l.duplicates = l.encoder.outline.lates.map l.number := by
      simp only [Encoder.lateVars, Outline.lates, List.map_flatMap, List.map_map]
      rfl
    rw [given] at bound ends
    have drawn (i : ℕ) (lt : l.number (.bound i) < l.bounds) : l.Owned (.bound i) := ⟨rfl, lt⟩
    refine ⟨_, limits _ .bound, said_atMost consecutive (pos.trans alloc.le) ?_ (fun i => rfl)
      (fun i lt => drawn i (lt.trans_eq ends.symm)) bound⟩
    intro x inside
    obtain ⟨a, agent, inside⟩ := List.mem_flatMap.mp inside
    obtain ⟨d, delay, rfl⟩ := List.mem_map.mp inside
    have owned := draws.owned (List.mem_range.mp agent) (List.mem_range.mp delay)
    have bounds := alloc.bounds (k := (a, d)) ⟨List.mem_range.mp agent, List.mem_range.mp delay, rfl⟩
    exact ⟨owned, zero_lt_one.trans_le (pos.trans bounds.1), bounds.2⟩

open Literal in
/-- The clause which makes an agent late while it is not at its goal. -/
def LateAway (l : Layout) (a d : ℕ) (s : List (Literal Object)) : Prop :=
  s = [pos (.position a (l.encoder.inst.goalOf a) (l.encoder.afterShortest a d)), pos (.late a d)]

open Literal in
/-- The clauses which make an agent late while it is somewhere else. -/
def LateElsewhere (l : Layout) (a d : ℕ) (s : List (Literal Object)) : Prop :=
  ∃ v, v ≠ l.encoder.inst.goalOf a ∧
    l.encoder.outline.Position a v (l.encoder.afterShortest a d) ∧
      s = [neg (.position a v (l.encoder.afterShortest a d)), pos (.late a d)]

open Literal in
/-- The clauses which make an agent late while its goal is entered. -/
def LateEntering (l : Layout) (a d : ℕ) (s : List (Literal Object)) : Prop :=
  ∃ dir ∈ Dir.moves, ∃ u, l.encoder.inst.getNeighbor (l.encoder.inst.goalOf a) dir = some u ∧
    l.encoder.outline.Shift u (oppositeDir dir) (l.encoder.afterShortest a d) ∧
      s = [neg (.shift u (oppositeDir dir) (l.encoder.afterShortest a d)), pos (.late a d)]

theorem limitSoc_speaks (draws : l.DrawsPositions) (drawsLate : l.DrawsLate)
    (windows : l.encoder.Windows) (slack : l.encoder.Slack) {a d : ℕ} (agent : a < l.encoder.agents)
    (delay : d < l.encoder.delta) : l.Speaks (l.LateAway a d)
      [[(l.encoder.atEntry a (l.encoder.inst.goalOf a)).firstVariable + d,
        l.encoder.lateVar l.duplicates a d]] where
  writes c := by
    have var : (l.encoder.atEntry a (l.encoder.inst.goalOf a)).firstVariable + d =
        (l.encoder.atEntry a (l.encoder.inst.goalOf a)).var (l.encoder.afterShortest a d) := by
      rw [TEGAgent.var, Encoder.goal_entry windows draws.ready agent, Encoder.afterShortest]
      omega
    simp only [var, List.mem_singleton, LateAway, exists_eq_left]
    exact eq_comm
  owned s holds := by
    obtain rfl : s = _ := holds
    have there := draws.position_iff.mpr ⟨agent, windows.goalCell a agent,
      Encoder.afterShortest_covers windows slack draws.ready agent delay⟩
    simp [draws.owned there, drawsLate.owned agent delay]

theorem limitSocAllAt_speaks (draws : l.DrawsPositions) (drawsLate : l.DrawsLate)
    (windows : l.encoder.Windows) {a d : ℕ} (agent : a < l.encoder.agents)
    (delay : d < l.encoder.delta) : l.Speaks (l.LateElsewhere a d)
      (let t := (l.encoder.atEntry a (l.encoder.inst.goalOf a)).firstTimestep + d
      (List.range l.encoder.vertices).flatMap fun v => if v = l.encoder.inst.goalOf a then []
        else if (l.encoder.atEntry a v).Covers t then
          [[-(l.encoder.atEntry a v).var t, l.encoder.lateVar l.duplicates a d]] else []) where
  writes c := by
    dsimp only
    rw [Encoder.goal_entry windows draws.ready agent]
    simp only [List.mem_flatMap, List.mem_range, List.mem_ite_nil_left, List.mem_ite_nil_right,
      List.mem_singleton]
    constructor
    · rintro ⟨v, vertex, away, covers, rfl⟩
      exact ⟨_, ⟨v, away, draws.position_iff.mpr ⟨agent, vertex, covers⟩, rfl⟩, rfl⟩
    · rintro ⟨s, ⟨v, away, here, rfl⟩, rfl⟩
      exact ⟨v, here.2.1, away, draws.covers here, rfl⟩
  owned s holds := by
    obtain ⟨v, away, here, rfl⟩ := holds
    simp [draws.owned here, drawsLate.owned agent delay]

theorem limitSocShift_speaks (draws : l.DrawsShifts) (drawsLate : l.DrawsLate)
    (windows : l.encoder.Windows) {a d : ℕ} (agent : a < l.encoder.agents)
    (delay : d < l.encoder.delta) : l.Speaks (l.LateEntering a d)
      (let t := l.encoder.inst.firstTimestep a (l.encoder.inst.goalOf a) + d
      (l.encoder.inst.neighbors (l.encoder.inst.goalOf a) Dir.moves).flatMap fun (dir, u) =>
        ((l.encoder.shiftEntry u (oppositeDir dir)).var? t).toList.map fun shiftVar =>
          [-shiftVar, l.encoder.lateVar l.duplicates a d]) where
  writes c := by
    simp only [List.mem_flatMap, List.mem_map, Prod.exists, Grid.mem_neighbors_iff,
      Option.mem_toList]
    constructor
    · rintro ⟨dir, u, ⟨moves, next⟩, x, found, rfl⟩
      obtain ⟨into, rfl⟩ :=
        draws.of_found (windows.neighbor_lt (windows.goalCell a agent) next) found
      exact ⟨_, ⟨dir, moves, u, next, into, rfl⟩, rfl⟩
    · rintro ⟨s, ⟨dir, moves, u, next, into, rfl⟩, rfl⟩
      exact ⟨dir, u, ⟨moves, next⟩, _, draws.found into, rfl⟩
  owned s holds := by
    obtain ⟨dir, moves, u, next, into, rfl⟩ := holds
    simp [draws.owned into, drawsLate.owned agent delay]

end Layout

end MAPFEncodings

import MAPFEncodings.Proofs.Coherence
import MAPFEncodings.Proofs.Distances

/-! # `BFS` terminates, stays inside its arrays, and computes shortest paths

The loop is translated once more with every subscript checked: reading or writing outside `map` or
`length_from`, or with the marker `-1` as an index, stops the computation without a result, and so
does a queue which is not empty when the iterations run out. On a loaded map this never happens.
-/

namespace MAPFEncodings

open Distance

namespace Grid

variable (g : Grid)

/-- `map[v.x][v.y]` with both subscripts checked; a free cell has a number and an obstacle `-1`. -/
def cell? (v : Vertex) : Option (Option ℕ) := g.map[v.x]?.bind (·[v.y]?)

/-- `length_from[map[v.x][v.y]]` with all subscripts checked. -/
def length? (lengthFrom : List ℤ) (v : Vertex) : Option ℤ :=
  (g.cell? v).bind fun cell => cell.bind (lengthFrom[·]?)

/-- One of the four tests of `BFS` with all subscripts checked. The first conjunct of
`HasNeighbor` is the border test, the second one reads the map. -/
def bfsVisitChecked (v : Vertex) (state : List ℤ × List Vertex) (dir : Dir) :
    Option (List ℤ × List Vertex) :=
  match g.stepFrom v dir with
  | none => some state
  | some u => (g.cell? u).bind fun cell => match cell with
    | none => some state
    | some k => (g.length? state.1 u).bind fun length =>
      if length = -1 then
        (g.length? state.1 v).bind fun here => some (state.1.set k (here + 1), state.2 ++ [u])
      else some state

/-- The loop `while(!que.empty())` with all subscripts checked. -/
def bfsLoopChecked : ℕ → List ℤ × List Vertex → Option (List ℤ)
  | _, (lengthFrom, []) => some lengthFrom
  | 0, (_, _ :: _) => none
  | iterations + 1, (lengthFrom, v :: que) =>
    (Dir.moves.foldlM (g.bfsVisitChecked v) (lengthFrom, que)).bind (bfsLoopChecked iterations)

/-- `BFS` with all subscripts checked and a bound on the iterations of its loop. -/
def bfsChecked (iterations : ℕ) (lengthFrom : List ℤ) (start : Vertex) : Option (List ℤ) :=
  (g.cell? start).bind fun cell => cell.bind fun k =>
    if k < lengthFrom.length then g.bfsLoopChecked iterations (lengthFrom.set k 0, [start])
    else none

variable {g}

/-- What keeps every subscript inside: the table has one entry for each vertex and the queue holds
free cells. -/
private structure Fits (g : Grid) (state : List ℤ × List Vertex) : Prop where
  size : state.1.length = g.numberOfVertices
  free : ∀ q ∈ state.2, (g.mapAt q).isSome

/-- The rows of a loaded map fill its rectangle. -/
structure Filled (g : Grid) : Prop where
  rows : g.map.length = g.height
  row : ∀ row ∈ g.map, row.length = g.width

theorem Filled.cell?_eq (filled : g.Filled) {v : Vertex} (row : v.x < g.height)
    (col : v.y < g.width) : g.cell? v = some (g.mapAt v) := by
  rw [← filled.rows] at row
  have inside := filled.row _ (List.getElem_mem row) ▸ col
  rw [cell?, mapAt, List.getD_eq_getElem _ _ row, List.getD_eq_getElem _ _ inside,
    List.getElem?_eq_getElem row, Option.bind_some, List.getElem?_eq_getElem inside]

/-- The border tests keep a step inside the map. -/
theorem stepFrom_inside {v u : Vertex} (row : v.x < g.height) (col : v.y < g.width) {dir : Dir}
    (next : g.stepFrom v dir = some u) : u.x < g.height ∧ u.y < g.width := by
  rcases v with ⟨x, y⟩
  dsimp only at row col
  cases dir <;> simp only [stepFrom, Option.ite_none_right_eq_some, Option.some.injEq] at next
  · subst next
    exact ⟨row, col⟩
  all_goals
    obtain ⟨inside, rfl⟩ := next
    dsimp only at inside ⊢
    omega

theorem Filled.length?_eq (filled : g.Filled) (numbered : g.Numbered) {table : List ℤ}
    (size : table.length = g.numberOfVertices) {v : Vertex} (free : (g.mapAt v).isSome) :
    g.length? table v = some (table.getD (g.vertexId v) 0) := by
  have inside := numbered.inside v free
  have atV := mapAt_vertexId free
  have bound : g.vertexId v < table.length := size ▸ numbered.lt_of_mapAt atV
  rw [length?, filled.cell?_eq inside.1 inside.2, atV, Option.bind_some, Option.bind_some,
    List.getElem?_eq_getElem bound, List.getD_eq_getElem _ _ bound]

/-- A test reads and writes inside its arrays and does what the unchecked one does. -/
private theorem Fits.visit (filled : g.Filled) (numbered : g.Numbered) {v : Vertex}
    (freeV : (g.mapAt v).isSome) {dir : Dir} (moves : dir ≠ .wait) {state : List ℤ × List Vertex}
    (fits : Fits g state) :
    g.bfsVisitChecked v state dir = some (g.bfsVisit v state dir) ∧
      Fits g (g.bfsVisit v state dir) := by
  unfold bfsVisitChecked bfsVisit
  cases next : g.stepFrom v dir with
  | none => exact ⟨rfl, fits⟩
  | some u =>
    have insideV := numbered.inside v freeV
    have insideU := stepFrom_inside insideV.1 insideV.2 next
    dsimp only
    rw [filled.cell?_eq insideU.1 insideU.2, hasNeighborAt, next, Option.bind_some,
      Option.bind_some]
    cases atU : g.mapAt u with
    | none => simpa [moves] using fits
    | some k =>
      have freeU : (g.mapAt u).isSome := by rw [atU]; rfl
      simp only [filled.length?_eq numbered fits.size freeU, Option.bind_some, vertexId_eq atU,
        filled.length?_eq numbered fits.size freeV, Option.isSome_some, Bool.or_true, true_and]
      by_cases fresh : state.1.getD k 0 = -1
      · rw [if_pos fresh, if_pos fresh]
        refine ⟨rfl, by simpa using fits.size, fun q member => ?_⟩
        rcases List.mem_append.mp member with queued | last
        · exact fits.free q queued
        · rwa [List.mem_singleton.mp last]
      · rw [if_neg fresh, if_neg fresh]
        exact ⟨rfl, fits⟩

private theorem Fits.visits (filled : g.Filled) (numbered : g.Numbered) {v : Vertex}
    (freeV : (g.mapAt v).isSome) {dirs : List Dir} (moves : ∀ dir ∈ dirs, dir ≠ .wait)
    {state : List ℤ × List Vertex} (fits : Fits g state) :
    dirs.foldlM (g.bfsVisitChecked v) state = some (dirs.foldl (g.bfsVisit v) state) ∧
      Fits g (dirs.foldl (g.bfsVisit v) state) := by
  induction dirs generalizing state with
  | nil => exact ⟨rfl, fits⟩
  | cons dir dirs ih =>
    obtain ⟨same, kept⟩ := fits.visit filled numbered freeV (moves dir List.mem_cons_self)
    rw [List.foldlM_cons, same, List.foldl_cons]
    exact ih (fun d member => moves d (List.mem_cons_of_mem _ member)) kept

/-- As long as the unchecked loop empties the queue, the checked one returns the same table, also
with more iterations than needed. -/
private theorem Fits.loop (filled : g.Filled) (numbered : g.Numbered) (fuel : ℕ)
    {state : List ℤ × List Vertex} (fits : Fits g state) (drained : (g.bfsLoop fuel state).2 = [])
    {iterations : ℕ} (enough : fuel ≤ iterations) :
    g.bfsLoopChecked iterations state = some (g.bfsLoop fuel state).1 := by
  induction fuel generalizing state iterations with
  | zero =>
    rcases state with ⟨table, que⟩
    obtain rfl : que = [] := drained
    cases iterations <;> rfl
  | succ fuel ih =>
    rcases state with ⟨table, que⟩
    obtain ⟨iterations, rfl⟩ : ∃ n, iterations = n + 1 := ⟨iterations - 1, by omega⟩
    cases que with
    | nil => rfl
    | cons v que =>
      have rest : Fits g (table, que) :=
        ⟨fits.size, fun q member => fits.free q (List.mem_cons_of_mem _ member)⟩
      have moves : ∀ dir ∈ Dir.moves, dir ≠ .wait := fun dir => Dir.mem_moves_iff.mp
      obtain ⟨same, kept⟩ := rest.visits filled numbered (fits.free v List.mem_cons_self) moves
      rw [bfsLoopChecked, same, Option.bind_some]
      exact ih kept drained (by omega)

/-- From a free cell and a fresh table `BFS` never leaves its arrays and needs at most as many
iterations as there are vertices. -/
theorem bfsChecked_eq (filled : g.Filled) (numbered : g.Numbered) {start : Vertex}
    (free : (g.mapAt start).isSome) {iterations : ℕ} (enough : g.numberOfVertices ≤ iterations) :
    g.bfsChecked iterations (List.replicate g.numberOfVertices (-1)) start =
      some (g.bfs (List.replicate g.numberOfVertices (-1)) start) := by
  have inside := numbered.inside start free
  have atStart := mapAt_vertexId free
  rw [bfsChecked, filled.cell?_eq inside.1 inside.2, atStart, Option.bind_some, Option.bind_some,
    if_pos (by rw [List.length_replicate]; exact numbered.lt_of_mapAt atStart)]
  exact Fits.loop filled numbered g.numberOfVertices ⟨by simp, by simpa using free⟩
    (bfsLoop_drained numbered start free) enough

end Grid

theorem filled_numberCells (height width : ℕ) (isFree : ℕ → ℕ → Bool) :
    (numberCells height width isFree).Filled where
  rows := by simp [numberCells]
  row row member := by
    obtain ⟨i, atI⟩ := List.mem_iff_getElem?.mp member
    rw [numberCells, List.getElem?_mapState, Option.map_eq_some_iff] at atI
    obtain ⟨_, _, rfl⟩ := atI
    simp [numberCells]

theorem MapInput.filled_load (input : MapInput) : input.load.Filled := by
  cases input <;> exact filled_numberCells ..

/-- Free cells of the input which share a side. -/
def MapInput.FreeAdjacent (input : MapInput) (p q : Vertex) : Prop :=
  input.IsFree p ∧ input.IsFree q ∧ p.Adjacent q

/-- The table holds the length of a shortest path from `start` for each reachable cell, and `-1`
for each unreachable one. -/
structure MapInput.IsShortestTable (input : MapInput) (start : Vertex) (table : List ℤ) : Prop where
  size : table.length = input.load.numberOfVertices
  reachable : ∀ v k n, input.load.mapAt v = some k →
    IsLeast {n | PathOfLength input.FreeAdjacent start v n} n → table[k]? = some (n : ℤ)
  unreachable : ∀ v k, input.load.mapAt v = some k →
    (∀ n, ¬PathOfLength input.FreeAdjacent start v n) → table[k]? = some (-1)

/-- Edges between numbers are edges between the cells which they number. -/
private theorem adj_load_iff {input : MapInput} (rectangular : input.Rectangular) {v u : ℕ} :
    input.load.Adj v u ↔ ∃ p q, input.load.mapAt p = some v ∧ input.load.mapAt q = some u ∧
      input.FreeAdjacent p q := by
  refine exists_congr fun p => exists_congr fun q => and_congr_right fun atP =>
    and_congr_right fun atQ => ?_
  have freeP := (input.isSome_mapAt_load_iff rectangular p).mp (by rw [atP]; rfl)
  have freeQ := (input.isSome_mapAt_load_iff rectangular q).mp (by rw [atQ]; rfl)
  simp only [MapInput.FreeAdjacent, freeP, freeQ, true_and]

/-- Paths over free cells and paths over their numbers have the same lengths. -/
theorem MapInput.pathOfLength_iff {input : MapInput} (rectangular : input.Rectangular)
    {p q : Vertex} (freeP : input.IsFree p) {k : ℕ} (atQ : input.load.mapAt q = some k) (n : ℕ) :
    PathOfLength input.FreeAdjacent p q n ↔
      PathOfLength input.load.Adj (input.load.vertexId p) k n := by
  have numbered := input.numbered_load
  have atP := Grid.mapAt_vertexId ((input.isSome_mapAt_load_iff rectangular p).mpr freeP)
  constructor
  · intro path
    rw [← Grid.vertexId_eq atQ]
    refine path.map fun v u edge => (adj_load_iff rectangular).mpr ⟨v, u, ?_, ?_, edge⟩
    · exact Grid.mapAt_vertexId ((input.isSome_mapAt_load_iff rectangular v).mpr edge.1)
    · exact Grid.mapAt_vertexId ((input.isSome_mapAt_load_iff rectangular u).mpr edge.2.1)
  · intro path
    rw [← numbered.idToCoords_eq atP, ← numbered.idToCoords_eq atQ]
    refine path.map fun v u edge => ?_
    obtain ⟨_, _, atV, atU, edge⟩ := (adj_load_iff rectangular).mp edge
    rwa [numbered.idToCoords_eq atV, numbered.idToCoords_eq atU]

/-- On every rectangular map and from every free cell, with a table of one entry `-1` for each
vertex, `BFS` terminates without leaving its arrays and computes the shortest lengths. -/
theorem MapInput.bfs_shortest (input : MapInput) (rectangular : input.Rectangular)
    (start : Vertex) (free : input.IsFree start) (lengthFrom : List ℤ)
    (size : lengthFrom.length = input.load.numberOfVertices)
    (fresh : ∀ length ∈ lengthFrom, length = -1) :
    ∃ table, input.IsShortestTable start table ∧ input.load.bfs lengthFrom start = table ∧
      ∀ iterations, input.load.numberOfVertices ≤ iterations →
        input.load.bfsChecked iterations lengthFrom start = some table := by
  obtain rfl : lengthFrom = List.replicate input.load.numberOfVertices (-1) :=
    List.eq_replicate_iff.mpr ⟨size, fresh⟩
  have numbered := input.numbered_load
  have freeStart := (input.isSome_mapAt_load_iff rectangular start).mpr free
  have dist := Grid.bfs_isDistance numbered start freeStart
  have length := Grid.length_bfs numbered start freeStart
  have entry : ∀ v k, input.load.mapAt v = some k → ∀ x,
      (input.load.bfs (List.replicate input.load.numberOfVertices (-1)) start).getD k (-1) = x →
      (input.load.bfs (List.replicate input.load.numberOfVertices (-1)) start)[k]? = some x := by
    intro v k atV x value
    have bound := length ▸ numbered.lt_of_mapAt atV
    rw [List.getD_eq_getElem _ _ bound] at value
    rw [List.getElem?_eq_getElem bound, value]
  refine ⟨_, ⟨length, fun v k n atV least => ?_, fun v k atV unreachable => ?_⟩, rfl,
    fun iterations enough => Grid.bfsChecked_eq input.filled_load numbered freeStart enough⟩
  · apply entry v k atV
    apply dist.eq_of_isLeast
    simpa only [pathOfLength_iff rectangular free atV] using least
  · apply entry v k atV
    apply dist.eq_neg_one_of_forall
    intro n path
    exact unreachable n ((pathOfLength_iff rectangular free atV n).mpr path)

/-- A row with a cell which cannot be reached. -/
theorem MapInput.bfs_shortest_wall :
    ∃ table, (data [[0, 0, 0, -1, 0]]).IsShortestTable ⟨0, 2⟩ table ∧
      (data [[0, 0, 0, -1, 0]]).load.bfs [-1, -1, -1, -1] ⟨0, 2⟩ = table ∧
      ∀ iterations, 4 ≤ iterations →
        (data [[0, 0, 0, -1, 0]]).load.bfsChecked iterations [-1, -1, -1, -1] ⟨0, 2⟩ = some table :=
  bfs_shortest (data [[0, 0, 0, -1, 0]]) ⟨by decide, by decide⟩ ⟨0, 2⟩
    ⟨_, rfl, 0, rfl, by decide⟩ [-1, -1, -1, -1] rfl (by decide)

example : (MapInput.data [[0, 0, 0, -1, 0]]).load.bfs [-1, -1, -1, -1] ⟨0, 2⟩ = [2, 1, 0, -1] := by
  decide

end MAPFEncodings

import MAPFEncodings.Proofs.Grid

/-! # A loaded map is a coherent numbering of its free cells

What a caller of `LoadMap` and `LoadMapData` relies on, stated against the contents of the input:
the numbers and the free cells correspond to each other, every neighbour is a vertex, and going
back in the opposite direction returns to where one came from.
-/

namespace MAPFEncodings

/-- The rows of the data have one length, and the file has a character for every cell. -/
def MapInput.Rectangular : MapInput → Prop
  | data mapVector =>
    mapVector ≠ [] ∧ ∀ row ∈ mapVector, row.length = (mapVector.headD []).length
  | file height width cells => height * width ≤ cells.length

/-- The cell is part of the input and no obstacle. -/
def MapInput.IsFree (input : MapInput) (v : Vertex) : Prop :=
  match input with
  | data mapVector => ∃ row, mapVector[v.x]? = some row ∧ ∃ cell, row[v.y]? = some cell ∧ cell ≠ -1
  | file height width cells =>
    v.x < height ∧ v.y < width ∧ cells[v.x * width + v.y]? = some '.'

/-- The loaders give numbers to exactly the free cells of the input. -/
theorem MapInput.isSome_mapAt_load_iff {input : MapInput} (rectangular : input.Rectangular)
    (v : Vertex) : (input.load.mapAt v).isSome ↔ input.IsFree v := by
  cases input with
  | data mapVector =>
    rw [load, loadMapData, isSome_mapAt_iff]
    simp only [IsFree, ne_eq, decide_not, Bool.not_eq_eq_eq_not, Bool.not_true,
      decide_eq_false_iff_not]
    constructor
    · rintro ⟨row, col, free⟩
      have width := rectangular.2 _ (List.getElem_mem row)
      refine ⟨mapVector[v.x], List.getElem?_eq_getElem row, mapVector[v.x][v.y],
        List.getElem?_eq_getElem (width ▸ col), ?_⟩
      rwa [List.getD_eq_getElem _ _ row, List.getD_eq_getElem _ _ (width ▸ col)] at free
    · rintro ⟨row, atRow, cell, atCell, free⟩
      obtain ⟨inside, rfl⟩ := List.getElem?_eq_some_iff.mp atRow
      obtain ⟨inRow, rfl⟩ := List.getElem?_eq_some_iff.mp atCell
      have width := rectangular.2 _ (List.getElem_mem inside)
      refine ⟨inside, width ▸ inRow, ?_⟩
      rwa [List.getD_eq_getElem _ _ inside, List.getD_eq_getElem _ _ inRow]
  | file height width cells =>
    rw [load, loadMap, isSome_mapAt_iff]
    refine and_congr_right fun row => and_congr_right fun col => ?_
    have inside : v.x * width + v.y < cells.length :=
      calc v.x * width + v.y < v.x * width + width := Nat.add_lt_add_left col _
        _ = (v.x + 1) * width := (Nat.succ_mul _ _).symm
        _ ≤ height * width := Nat.mul_le_mul_right _ row
        _ ≤ cells.length := rectangular
    rw [List.getD_eq_getElem _ _ inside, List.getElem?_eq_getElem inside, beq_iff_eq,
      Option.some.injEq]

/-- The neighbour of a vertex in a direction: it is another vertex unless the direction waits, no
other direction leads there, and the opposite direction leads back. -/
structure Grid.IsNeighbor (g : Grid) (v : ℕ) (dir : Dir) (u : ℕ) : Prop where
  vertex : u < g.numberOfVertices
  other : dir ≠ .wait → u ≠ v
  unique : ∀ dir', dir' ≠ dir → g.hasNeighbor v dir' = true → g.getNeighbor v dir' ≠ some u
  hasBack : g.hasNeighbor u (oppositeDir dir) = true
  back : g.getNeighbor u (oppositeDir dir) = some v

/-- `map` and `coord_list` are inverse bijections between numbers and free cells, and
`HasNeighbor`, `GetNeighbor` and `OppositeDir` agree with each other. -/
structure Grid.Coherent (g : Grid) (free : Vertex → Prop) : Prop where
  size : g.coordList.length = g.numberOfVertices
  bijective : Set.BijOn g.idToCoords (Set.Iio g.numberOfVertices) {v | free v}
  mapAt_idToCoords : ∀ k < g.numberOfVertices, g.mapAt (g.idToCoords k) = some k
  idToCoords_mapAt : ∀ v, free v → ∃ k, g.mapAt v = some k ∧ g.idToCoords k = v
  mapAt_obstacle : ∀ v, ¬free v → g.mapAt v = none
  neighbor : ∀ v < g.numberOfVertices, ∀ dir, g.hasNeighbor v dir = true →
    ∃ u, g.getNeighbor v dir = some u ∧ g.IsNeighbor v dir u
  missing : ∀ v < g.numberOfVertices, ∀ dir, dir ≠ .wait → g.hasNeighbor v dir = false →
    g.getNeighbor v dir = none

namespace Grid.Numbered

variable {g : Grid} (numbered : g.Numbered)

include numbered

theorem mapAt_idToCoords {k : ℕ} (bound : k < g.numberOfVertices) :
    g.mapAt (g.idToCoords k) = some k := by
  obtain ⟨p, atP⟩ := numbered.exists_cell bound
  rwa [numbered.idToCoords_eq atP]

/-- The numbers correspond to the cells which have one. -/
theorem bijOn_idToCoords : Set.BijOn g.idToCoords (Set.Iio g.numberOfVertices)
    {v | (g.mapAt v).isSome} := by
  refine ⟨fun k bound => ?_, fun k bound k' bound' same => ?_, fun v free => ?_⟩
  · rw [Set.mem_ofPred_eq, numbered.mapAt_idToCoords bound]
    rfl
  · have left := numbered.mapAt_idToCoords bound
    rw [same, numbered.mapAt_idToCoords bound'] at left
    exact (Option.some.inj left).symm
  · obtain ⟨k, atV⟩ := Option.isSome_iff_exists.mp free
    exact ⟨k, numbered.lt_of_mapAt atV, numbered.idToCoords_eq atV⟩

/-- A step in a direction which does not wait changes the cell. -/
theorem getNeighbor_ne {v u : ℕ} (bound : v < g.numberOfVertices) {dir : Dir} (moves : dir ≠ .wait)
    (next : g.getNeighbor v dir = some u) : u ≠ v := by
  rintro rfl
  exact moves (numbered.dir_unique bound next rfl)

theorem isNeighbor {v u : ℕ} (bound : v < g.numberOfVertices) {dir : Dir}
    (next : g.getNeighbor v dir = some u) : g.IsNeighbor v dir u where
  vertex := numbered.getNeighbor_lt bound next
  other moves := numbered.getNeighbor_ne bound moves next
  unique dir' different _ next' := different (numbered.dir_unique bound next' next)
  hasBack := by
    rw [hasNeighbor_iff, numbered.getNeighbor_opposite bound next]
    rfl
  back := numbered.getNeighbor_opposite bound next

end Grid.Numbered

/-- Vertex numbering and adjacency are coherent for every rectangular map. -/
theorem MapInput.coherent_load (input : MapInput) (rectangular : input.Rectangular) :
    input.load.Coherent input.IsFree where
  size := input.numbered_load.count.symm
  bijective := by
    have free : {v | input.IsFree v} = {v | (input.load.mapAt v).isSome} :=
      Set.ext fun v => (isSome_mapAt_load_iff rectangular v).symm
    rw [free]
    exact input.numbered_load.bijOn_idToCoords
  mapAt_idToCoords k bound := input.numbered_load.mapAt_idToCoords bound
  idToCoords_mapAt v free := by
    obtain ⟨k, atV⟩ := Option.isSome_iff_exists.mp ((isSome_mapAt_load_iff rectangular v).mpr free)
    exact ⟨k, atV, input.numbered_load.idToCoords_eq atV⟩
  mapAt_obstacle v blocked := by
    rw [← isSome_mapAt_load_iff rectangular v] at blocked
    exact Option.not_isSome_iff_eq_none.mp blocked
  neighbor v bound dir has := by
    obtain ⟨u, next⟩ := Option.isSome_iff_exists.mp (Grid.hasNeighbor_iff.mp has)
    exact ⟨u, next, input.numbered_load.isNeighbor bound next⟩
  missing v bound dir moves missing := by
    rw [← Option.not_isSome_iff_eq_none, ← Grid.hasNeighbor_iff, missing]
    exact Bool.false_ne_true

/-- The cell in the corner of an angle has neighbours in the south and in the east. -/
theorem MapInput.coherent_load_angle :
    (MapInput.data [[7, 0, 7], [0, -1, -1]]).load.Coherent
        (MapInput.data [[7, 0, 7], [0, -1, -1]]).IsFree ∧
      (MapInput.file 2 2 ['.', '@', '.', '.']).load.Coherent
        (MapInput.file 2 2 ['.', '@', '.', '.']).IsFree :=
  ⟨coherent_load _ ⟨by decide, by decide⟩,
    coherent_load _ (show 2 * 2 ≤ ['.', '@', '.', '.'].length by decide)⟩

end MAPFEncodings

import MAPFEncodings.Model.Instance
import Mathlib.Tactic

/-! # The numbering of free cells and the neighbourhood of a vertex

`numberCells` numbers the free cells bijectively: `map` and `coord_list` are inverse to each other
(`mapAt_eq_some_iff`). Hence `GetNeighbor` moves between geometrically adjacent free cells,
determines its direction, and is undone by `OppositeDir`.
-/

namespace MAPFEncodings

/-- A loop which appends to a log and counts the entries. -/
theorem mapState_log {α β γ : Type*} {body : ℕ × List γ → α → β × ℕ × List γ} {new : α → List γ}
    (step : ∀ st x, (body st x).2 = (st.1 + (new x).length, st.2 ++ new x)) (st : ℕ × List γ)
    (xs : List α) :
    (List.mapState body st xs).2 =
      (st.1 + (xs.flatMap new).length, st.2 ++ xs.flatMap new) := by
  induction xs generalizing st with
  | nil => simp
  | cons x xs ih => simp [ih, step, Nat.add_assoc, List.append_assoc]

/-! ## Numbering -/

section Numbering

variable (height width : ℕ) (isFree : ℕ → ℕ → Bool)

private def newCell (i j : ℕ) : List Vertex := if isFree i j then [⟨i, j⟩] else []

private def rowCells (i : ℕ) : List Vertex := (List.range width).flatMap (newCell isFree i)

private def cellBody (i : ℕ) (state : ℕ × List Vertex) (j : ℕ) : Option ℕ × ℕ × List Vertex :=
  if isFree i j then (some state.1, state.1 + 1, state.2 ++ [⟨i, j⟩]) else (none, state)

private def gridRows (n : ℕ) : List (List (Option ℕ)) × ℕ × List Vertex :=
  List.mapState (fun state i => List.mapState (cellBody isFree i) state (List.range width)) (0, [])
    (List.range n)

private theorem numberCells_eq : numberCells height width isFree =
    ⟨(gridRows width isFree height).1, height, width, (gridRows width isFree height).2.1,
      (gridRows width isFree height).2.2⟩ := rfl

private theorem cellBody_snd (i : ℕ) (st : ℕ × List Vertex) (j : ℕ) :
    (cellBody isFree i st j).2 = (st.1 + (newCell isFree i j).length, st.2 ++ newCell isFree i j) := by
  unfold cellBody newCell
  split <;> simp

private theorem row_snd (st : ℕ × List Vertex) (i : ℕ) :
    (List.mapState (cellBody isFree i) st (List.range width)).2 =
      (st.1 + (rowCells width isFree i).length, st.2 ++ rowCells width isFree i) :=
  mapState_log (cellBody_snd isFree i) st _

private theorem rows_snd (n : ℕ) : (gridRows width isFree n).2 =
    (((List.range n).flatMap (rowCells width isFree)).length,
      (List.range n).flatMap (rowCells width isFree)) := by
  rw [gridRows, mapState_log (row_snd width isFree)]
  simp

theorem coordList_numberCells : (numberCells height width isFree).coordList =
    (List.range height).flatMap (rowCells width isFree) := by
  rw [numberCells_eq, rows_snd]

theorem numberOfVertices_eq : (numberCells height width isFree).numberOfVertices =
    (numberCells height width isFree).coordList.length := by
  rw [numberCells_eq, rows_snd]

/-- A cell's number is the count of free cells before it. -/
private theorem mapAt_numberCells {i j : ℕ} (row : i < height) (col : j < width) :
    (numberCells height width isFree).mapAt ⟨i, j⟩ =
      if isFree i j then some (((List.range i).flatMap (rowCells width isFree)).length +
        ((List.range j).flatMap (newCell isFree i)).length) else none := by
  have before := rows_snd width isFree i
  rw [gridRows] at before
  rw [numberCells_eq, Grid.mapAt, gridRows, List.getD_mapState_range _ _ _ row,
    List.getD_mapState_range _ _ _ col, before, mapState_log (cellBody_snd isFree i), cellBody]
  split <;> rfl

private theorem mapAt_outside {v : Vertex} (outside : ¬(v.x < height ∧ v.y < width)) :
    (numberCells height width isFree).mapAt v = none := by
  rw [numberCells_eq, Grid.mapAt, gridRows]
  by_cases row : v.x < height
  · rw [List.getD_mapState_range _ _ _ row,
      List.getD_mapState_range_of_le _ _ _ (by by_contra; exact outside ⟨row, by omega⟩)]
  · rw [List.getD_mapState_range_of_le _ _ _ (by omega)]
    rfl

/-- Exactly the free cells inside the map have numbers. -/
theorem isSome_mapAt_iff {v : Vertex} : ((numberCells height width isFree).mapAt v).isSome ↔
    v.x < height ∧ v.y < width ∧ isFree v.x v.y = true := by
  by_cases inside : v.x < height ∧ v.y < width
  · have same := mapAt_numberCells height width isFree inside.1 inside.2
    rw [same]
    split <;> simp_all
  · rw [mapAt_outside height width isFree inside]
    simp only [Option.isSome_none, Bool.false_eq_true, false_iff]
    exact fun h => inside ⟨h.1, h.2.1⟩

private theorem range_split {n i : ℕ} (lt : i < n) :
    ∃ rest, List.range n = List.range i ++ i :: rest := by
  obtain ⟨k, rfl⟩ := Nat.exists_eq_add_of_lt lt
  refine ⟨(List.range k).map (fun x => i + 1 + x), ?_⟩
  rw [show i + k + 1 = (i + 1) + k by omega, List.range_add, List.range_succ, List.append_assoc]
  rfl

private theorem getElem?_coordList_of_mapAt {v : Vertex} {k : ℕ}
    (numbered : (numberCells height width isFree).mapAt v = some k) :
    (numberCells height width isFree).coordList[k]? = some v := by
  obtain ⟨row, col, free⟩ := (isSome_mapAt_iff height width isFree (v := v)).mp
    (by rw [numbered]; rfl)
  rw [mapAt_numberCells height width isFree row col, if_pos free, Option.some.injEq] at numbered
  obtain ⟨laterRows, rows⟩ := range_split row
  obtain ⟨laterCells, cells⟩ := range_split col
  have cut : (numberCells height width isFree).coordList =
      ((List.range v.x).flatMap (rowCells width isFree) ++
        (List.range v.y).flatMap (newCell isFree v.x)) ++
      (v :: (laterCells.flatMap (newCell isFree v.x) ++
        laterRows.flatMap (rowCells width isFree))) := by
    rw [coordList_numberCells, rows, List.flatMap_append, List.flatMap_cons]
    conv_lhs => rw [rowCells, cells]
    simp [newCell, free, List.flatMap_append]
  rw [cut, ← numbered, ← List.length_append, List.getElem?_append_right le_rfl, Nat.sub_self]
  rfl

private theorem nodup_coordList : (numberCells height width isFree).coordList.Nodup := by
  rw [coordList_numberCells]
  have inRow : ∀ i v, v ∈ rowCells width isFree i → v.x = i := by
    intro i v member
    obtain ⟨j, -, inside⟩ := List.mem_flatMap.mp member
    unfold newCell at inside
    split at inside <;> simp_all
  have inCell : ∀ i j v, v ∈ newCell isFree i j → v.y = j := by
    intro i j v member
    unfold newCell at member
    split at member <;> simp_all
  refine List.nodup_flatMap.mpr ⟨fun i _ => List.nodup_flatMap.mpr ⟨fun j _ => ?_, ?_⟩, ?_⟩
  · unfold newCell
    split <;> simp
  · refine List.nodup_range.imp fun {j j'} distinct v left right => distinct ?_
    exact (inCell i j v left).symm.trans (inCell i j' v right)
  · refine List.nodup_range.imp fun {i i'} distinct v left right => distinct ?_
    exact (inRow i v left).symm.trans (inRow i' v right)

private theorem exists_mapAt_of_mem {v : Vertex}
    (member : v ∈ (numberCells height width isFree).coordList) :
    ∃ k, (numberCells height width isFree).mapAt v = some k := by
  rw [coordList_numberCells] at member
  obtain ⟨i, row, member⟩ := List.mem_flatMap.mp member
  obtain ⟨j, col, member⟩ := List.mem_flatMap.mp member
  rw [List.mem_range] at row col
  unfold newCell at member
  split at member
  · next free =>
    obtain rfl := List.mem_singleton.mp member
    exact Option.isSome_iff_exists.mp
      ((isSome_mapAt_iff height width isFree).mpr ⟨row, col, free⟩)
  · simp at member

end Numbering

/-- The invariant of loaded maps: `map` and `coord_list` are inverse numberings, inside the
rectangle of the map. -/
structure Grid.Numbered (g : Grid) : Prop where
  count : g.numberOfVertices = g.coordList.length
  mapAt_iff : ∀ v k, g.mapAt v = some k ↔ g.coordList[k]? = some v
  inside : ∀ v, (g.mapAt v).isSome → v.x < g.height ∧ v.y < g.width

theorem numbered_numberCells (height width : ℕ) (isFree : ℕ → ℕ → Bool) :
    (numberCells height width isFree).Numbered where
  count := numberOfVertices_eq height width isFree
  mapAt_iff v k := by
    constructor
    · exact getElem?_coordList_of_mapAt height width isFree
    · intro listed
      obtain ⟨k', numbered⟩ := exists_mapAt_of_mem height width isFree
        (List.mem_of_getElem? listed)
      have again := getElem?_coordList_of_mapAt height width isFree numbered
      have bound : k < (numberCells height width isFree).coordList.length :=
        (List.getElem?_eq_some_iff.mp listed).1
      rw [numbered, (List.getElem?_inj bound (nodup_coordList height width isFree)).mp
        (listed.trans again.symm)]
  inside v free := by
    have := (isSome_mapAt_iff height width isFree).mp free
    exact ⟨this.1, this.2.1⟩

theorem MapInput.numbered_load (input : MapInput) : input.load.Numbered := by
  cases input <;> exact numbered_numberCells ..

/-! ## Neighbours -/

/-- Cells which share a side. -/
def Vertex.Adjacent (p q : Vertex) : Prop :=
  (p.x = q.x ∧ (p.y + 1 = q.y ∨ q.y + 1 = p.y)) ∨ (p.y = q.y ∧ (p.x + 1 = q.x ∨ q.x + 1 = p.x))

instance (p q : Vertex) : Decidable (p.Adjacent q) := inferInstanceAs (Decidable (_ ∨ _))

/-- Numbers of adjacent free cells. -/
def Grid.Adj (g : Grid) (v u : ℕ) : Prop :=
  ∃ p q, g.mapAt p = some v ∧ g.mapAt q = some u ∧ p.Adjacent q

namespace Dir

/-- The direction leads from one cell to another, without regard to borders. -/
def Leads : Dir → Vertex → Vertex → Prop
  | wait, p, q => q = p
  | north, p, q => q.x + 1 = p.x ∧ q.y = p.y
  | south, p, q => q.x = p.x + 1 ∧ q.y = p.y
  | west, p, q => q.x = p.x ∧ q.y + 1 = p.y
  | east, p, q => q.x = p.x ∧ q.y = p.y + 1

theorem Leads.opposite {dir : Dir} {p q : Vertex} (leads : dir.Leads p q) :
    (oppositeDir dir).Leads q p := by
  cases dir <;> simp only [Leads, oppositeDir] at leads ⊢
  · exact leads.symm
  all_goals omega

theorem Leads.unique {dir dir' : Dir} {p q : Vertex} (leads : dir.Leads p q)
    (leads' : dir'.Leads p q) : dir = dir' := by
  cases dir <;> cases dir' <;> simp only [Leads] at leads leads' <;> first | rfl | skip
  all_goals subst_vars
  all_goals omega

theorem exists_leads_iff {p q : Vertex} :
    p.Adjacent q ↔ ∃ dir, dir ≠ wait ∧ dir.Leads p q := by
  constructor
  · rintro (⟨same, right | left⟩ | ⟨same, down | up⟩)
    · exact ⟨east, by decide, by simp only [Leads]; omega⟩
    · exact ⟨west, by decide, by simp only [Leads]; omega⟩
    · exact ⟨south, by decide, by simp only [Leads]; omega⟩
    · exact ⟨north, by decide, by simp only [Leads]; omega⟩
  · rintro ⟨dir, moves, leads⟩
    unfold Vertex.Adjacent
    cases dir <;> simp only [Leads, ne_eq, not_true_eq_false] at moves leads
    all_goals omega

@[simp] theorem mem_all (dir : Dir) : dir ∈ all := by cases dir <;> decide

@[simp] theorem mem_moves_iff {dir : Dir} : dir ∈ moves ↔ dir ≠ wait := by cases dir <;> decide

theorem index_injective : Function.Injective index := by
  intro dir dir' same
  cases dir <;> cases dir' <;> first | rfl | exact absurd same (by decide)

@[simp] theorem oppositeDir_oppositeDir (dir : Dir) : oppositeDir (oppositeDir dir) = dir := by
  cases dir <;> rfl

@[simp] theorem oppositeDir_eq_wait {dir : Dir} : oppositeDir dir = wait ↔ dir = wait := by
  cases dir <;> decide

end Dir

theorem Vertex.Adjacent.symm {p q : Vertex} (adjacent : p.Adjacent q) : q.Adjacent p := by
  unfold Vertex.Adjacent at *
  omega

namespace Grid

variable {g : Grid}

theorem Adj.symm {v u : ℕ} (edge : g.Adj v u) : g.Adj u v := by
  obtain ⟨p, q, atP, atQ, adjacent⟩ := edge
  exact ⟨q, p, atQ, atP, adjacent.symm⟩

/-- Inside the map the border tests never get in the way. -/
theorem stepFrom_eq_some_iff {p q : Vertex} (inside : q.x < g.height ∧ q.y < g.width) {dir : Dir} :
    g.stepFrom p dir = some q ↔ dir.Leads p q := by
  rcases p with ⟨px, py⟩
  rcases q with ⟨qx, qy⟩
  dsimp only at inside
  cases dir <;> simp only [stepFrom, Dir.Leads, Option.ite_none_right_eq_some, Option.some.injEq,
    Vertex.mk.injEq] <;> omega

theorem hasNeighbor_iff {v : ℕ} {dir : Dir} :
    g.hasNeighbor v dir = true ↔ (g.getNeighbor v dir).isSome := by
  unfold hasNeighbor hasNeighborAt getNeighbor
  by_cases stays : dir = .wait
  · simp [stays]
  · simp [stays]

theorem neighbor?_eq (v : ℕ) (dir : Dir) : g.neighbor? v dir = g.getNeighbor v dir := by
  unfold neighbor?
  split
  · rfl
  · next missing =>
    rw [hasNeighbor_iff, Option.isSome_iff_ne_none, not_not] at missing
    exact missing.symm

/-- The neighbour loop visits exactly the existing neighbours. -/
theorem mem_neighbors_iff {v : ℕ} {dirs : List Dir} {p : Dir × ℕ} :
    p ∈ g.neighbors v dirs ↔ p.1 ∈ dirs ∧ g.getNeighbor v p.1 = some p.2 := by
  simp only [neighbors, List.mem_filterMap, neighbor?_eq, Option.map_eq_some_iff]
  constructor
  · rintro ⟨dir, member, u, next, rfl⟩
    exact ⟨member, next⟩
  · rintro ⟨member, next⟩
    exact ⟨p.1, member, p.2, next, rfl⟩

theorem nodup_neighbors (v : ℕ) {dirs : List Dir} (nodup : dirs.Nodup) :
    (g.neighbors v dirs).Nodup := by
  refine nodup.filterMap fun dir dir' p found found' => ?_
  obtain ⟨u, -, rfl⟩ := Option.map_eq_some_iff.mp found
  obtain ⟨u', -, same⟩ := Option.map_eq_some_iff.mp found'
  exact (congrArg Prod.fst same).symm

namespace Numbered

variable (numbered : g.Numbered)

include numbered

theorem exists_cell {v : ℕ} (bound : v < g.numberOfVertices) : ∃ p, g.mapAt p = some v := by
  rw [numbered.count] at bound
  exact ⟨g.coordList[v], (numbered.mapAt_iff _ _).mpr (List.getElem?_eq_getElem bound)⟩

theorem lt_of_mapAt {p : Vertex} {v : ℕ} (atP : g.mapAt p = some v) : v < g.numberOfVertices := by
  rw [numbered.count]
  exact (List.getElem?_eq_some_iff.mp ((numbered.mapAt_iff p v).mp atP)).1

theorem idToCoords_eq {p : Vertex} {v : ℕ} (atP : g.mapAt p = some v) : g.idToCoords v = p := by
  rw [idToCoords, List.getD_eq_getElem?_getD, (numbered.mapAt_iff p v).mp atP]
  rfl

theorem cell_inj {p q : Vertex} {v : ℕ} (atP : g.mapAt p = some v) (atQ : g.mapAt q = some v) :
    p = q := by
  rw [← numbered.idToCoords_eq atP, numbered.idToCoords_eq atQ]

/-- The step out of a cell reaches a vertex exactly if the direction leads to its cell. -/
theorem stepFrom_bind_iff {p : Vertex} {dir : Dir} {u : ℕ} :
    (g.stepFrom p dir).bind g.mapAt = some u ↔ ∃ q, g.mapAt q = some u ∧ dir.Leads p q := by
  rw [Option.bind_eq_some_iff]
  refine exists_congr fun q => ?_
  rw [and_comm, and_congr_right_iff]
  intro atQ
  exact stepFrom_eq_some_iff (numbered.inside q (by rw [atQ]; rfl))

theorem getNeighbor_eq_some_iff {v u : ℕ} (bound : v < g.numberOfVertices) {dir : Dir} :
    g.getNeighbor v dir = some u ↔
      ∃ p q, g.mapAt p = some v ∧ g.mapAt q = some u ∧ dir.Leads p q := by
  obtain ⟨p, atP⟩ := numbered.exists_cell bound
  have cell : (∃ p' q, g.mapAt p' = some v ∧ g.mapAt q = some u ∧ dir.Leads p' q) ↔
      ∃ q, g.mapAt q = some u ∧ dir.Leads p q := by
    constructor
    · rintro ⟨p', q, atP', atQ, leads⟩
      exact ⟨q, atQ, numbered.cell_inj atP' atP ▸ leads⟩
    · rintro ⟨q, atQ, leads⟩
      exact ⟨p, q, atP, atQ, leads⟩
  rw [cell, getNeighbor]
  split
  · next wait =>
    subst wait
    simp only [Option.some.injEq, Dir.Leads, exists_eq_right, atP]
  · rw [numbered.idToCoords_eq atP, numbered.stepFrom_bind_iff]

theorem getNeighbor_lt {v u : ℕ} (bound : v < g.numberOfVertices) {dir : Dir}
    (next : g.getNeighbor v dir = some u) : u < g.numberOfVertices := by
  obtain ⟨_, _, _, atQ, _⟩ := (numbered.getNeighbor_eq_some_iff bound).mp next
  exact numbered.lt_of_mapAt atQ

/-- Going back undoes a step. -/
theorem getNeighbor_opposite {v u : ℕ} (bound : v < g.numberOfVertices) {dir : Dir}
    (next : g.getNeighbor v dir = some u) : g.getNeighbor u (oppositeDir dir) = some v := by
  obtain ⟨p, q, atP, atQ, leads⟩ := (numbered.getNeighbor_eq_some_iff bound).mp next
  exact (numbered.getNeighbor_eq_some_iff (numbered.lt_of_mapAt atQ)).mpr
    ⟨q, p, atQ, atP, leads.opposite⟩

/-- Different directions lead to different vertices. -/
theorem dir_unique {v u : ℕ} (bound : v < g.numberOfVertices) {dir dir' : Dir}
    (next : g.getNeighbor v dir = some u) (next' : g.getNeighbor v dir' = some u) : dir = dir' := by
  obtain ⟨p, q, atP, atQ, leads⟩ := (numbered.getNeighbor_eq_some_iff bound).mp next
  obtain ⟨p', q', atP', atQ', leads'⟩ := (numbered.getNeighbor_eq_some_iff bound).mp next'
  obtain rfl := numbered.cell_inj atP atP'
  obtain rfl := numbered.cell_inj atQ atQ'
  exact leads.unique leads'

theorem adj_iff {v u : ℕ} (bound : v < g.numberOfVertices) :
    g.Adj v u ↔ ∃ dir, dir ≠ .wait ∧ g.getNeighbor v dir = some u := by
  constructor
  · rintro ⟨p, q, atP, atQ, adjacent⟩
    obtain ⟨dir, moves, leads⟩ := Dir.exists_leads_iff.mp adjacent
    exact ⟨dir, moves, (numbered.getNeighbor_eq_some_iff bound).mpr ⟨p, q, atP, atQ, leads⟩⟩
  · rintro ⟨dir, moves, next⟩
    obtain ⟨p, q, atP, atQ, leads⟩ := (numbered.getNeighbor_eq_some_iff bound).mp next
    exact ⟨p, q, atP, atQ, Dir.exists_leads_iff.mpr ⟨dir, moves, leads⟩⟩

/-- A stay or a move, as the loops over directions see it. -/
theorem step_iff {v u : ℕ} (bound : v < g.numberOfVertices) :
    (u = v ∨ g.Adj v u) ↔ ∃ dir, g.getNeighbor v dir = some u := by
  rw [numbered.adj_iff bound]
  constructor
  · rintro (rfl | ⟨dir, -, next⟩)
    · exact ⟨.wait, rfl⟩
    · exact ⟨dir, next⟩
  · rintro ⟨dir, next⟩
    by_cases stays : dir = .wait
    · subst stays
      exact .inl (Option.some.inj next).symm
    · exact .inr ⟨dir, stays, next⟩

end Numbered

end Grid

end MAPFEncodings

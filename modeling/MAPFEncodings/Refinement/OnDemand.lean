import MAPFEncodings.Refinement.Recorded

/-! # Conflict clauses on demand

The generators `CreateConf_*_OnDemand` make no range checks. For tuples which name existing
variables they read existing entries at covered timesteps, and they emit clauses of the eager
encoding. Tuples inside the windows of a task are of this kind.
-/

namespace MAPFEncodings

open Cnf PathFinding

namespace Encoder

variable (e : Encoder)

/-! ## What the generators read -/

/-- The entries read for a vertex conflict. -/
def ReadsVertex (c : VertexConflict) : Prop :=
  ∃ v, c.v = some v ∧ (e.atEntry c.a1 v).Covers c.t ∧ (e.atEntry c.a2 v).Covers c.t

/-- The entries read for a swapping conflict. -/
def ReadsSwap (c : EdgeConflict) : Prop :=
  ∃ v u, c.v = some v ∧ c.u = some u ∧
    match e.config.variableKind with
    | .at_ =>
      ((e.atEntry c.a1 v).Covers c.t ∧ (e.atEntry c.a1 u).Covers ((c.t : ℤ) + 1)) ∧
        (e.atEntry c.a2 u).Covers c.t ∧ (e.atEntry c.a2 v).Covers ((c.t : ℤ) + 1)
    | .pass => ∃ dir, e.findDir v u = some dir ∧
        (e.passEntry c.a1 v dir).Covers c.t ∧ (e.passEntry c.a2 u (oppositeDir dir)).Covers c.t
    | .shift => ∃ dir, e.findDir v u = some dir ∧
        ((e.shiftEntry v dir).firstVariable ≠ 0 ∧ (c.t : ℤ) ∈ (e.shiftEntry v dir).timestep) ∧
          (e.shiftEntry u (oppositeDir dir)).firstVariable ≠ 0 ∧
            (c.t : ℤ) ∈ (e.shiftEntry u (oppositeDir dir)).timestep

/-- The entries read for a pebble conflict. -/
def ReadsPebble (c : EdgeConflict) : Prop :=
  ∃ v u, c.v = some v ∧ c.u = some u ∧
    match e.config.variableKind with
    | .at_ => (e.atEntry c.a1 u).Covers c.t ∧ (e.atEntry c.a2 u).Covers ((c.t : ℤ) - 1)
    | .pass => ∃ dir, e.findDir v u = some dir ∧
        (e.passEntry c.a1 v dir).Covers ((c.t : ℤ) - 1) ∧
          (e.atEntry c.a2 u).Covers ((c.t : ℤ) - 1)
    | .shift => ∃ dir, e.findDir v u = some dir ∧ (e.shiftEntry v dir).firstVariable ≠ 0 ∧
        (c.t : ℤ) - 1 ∈ (e.shiftEntry v dir).timestep

/-- The entries read by the generators which apply to the kind of movement. -/
structure ReadsExisting (conflicts : Conflicts) : Prop where
  vertex : ∀ c ∈ conflicts.vertex, e.ReadsVertex c
  swap : e.config.movement = .parallel → ∀ c ∈ conflicts.swap, e.ReadsSwap c
  pebble : e.config.movement = .pebble → ∀ c ∈ conflicts.pebble, e.ReadsPebble c

/-! ## Tuples which name existing variables -/

/-- The agents and the cells between which a recorded conflict with two vertices takes place. -/
structure Crosses (c : EdgeConflict) (v u : ℕ) (dir : Dir) : Prop where
  boundA : c.a1 < e.agents
  boundB : c.a2 < e.agents
  distinct : c.a1 ≠ c.a2
  tail : c.v = some v
  head : c.u = some u
  cell : v < e.vertices
  moves : dir ≠ .wait
  next : e.inst.getNeighbor v dir = some u

/-- Both agents of a vertex conflict have a variable for it. -/
structure NamesVertex (c : VertexConflict) : Prop where
  ordered : c.a1 < c.a2
  bound : c.a2 < e.agents
  covers : ∃ v, c.v = some v ∧ v < e.vertices ∧
    (e.atEntry c.a1 v).Covers c.t ∧ (e.atEntry c.a2 v).Covers c.t

/-- Both agents of a swapping conflict have variables for their moves. -/
structure NamesSwap (c : EdgeConflict) : Prop where
  ordered : c.a1 < c.a2
  before : (c.t : ℤ) < e.maxTimestep
  covers : ∃ v u dir, e.Crosses c v u dir ∧
    ((e.atEntry c.a1 v).Covers c.t ∧ (e.atEntry c.a1 u).Covers ((c.t : ℤ) + 1)) ∧
      (e.atEntry c.a2 u).Covers c.t ∧ (e.atEntry c.a2 v).Covers ((c.t : ℤ) + 1)

/-- The first agent of a pebble conflict has variables for its move and the second one has a
variable for the entered vertex. -/
structure NamesPebble (c : EdgeConflict) (t : ℕ) : Prop where
  time : c.t = t + 1
  before : (t : ℤ) < e.maxTimestep
  covers : ∃ v u dir, e.Crosses c v u dir ∧
    ((e.atEntry c.a1 v).Covers t ∧ (e.atEntry c.a1 u).Covers ((t : ℤ) + 1)) ∧
      (e.atEntry c.a2 u).Covers t

/-- All recorded tuples name existing variables. -/
structure Names (conflicts : Conflicts) : Prop where
  vertex : ∀ c ∈ conflicts.vertex, e.NamesVertex c
  swap : ∀ c ∈ conflicts.swap, e.NamesSwap c
  pebble : ∀ c ∈ conflicts.pebble, ∃ t, e.NamesPebble c t

variable {e} {L : ℕ → ℕ} {hi : ℤ} {task : Task}

/-- The search finds the direction of an edge. -/
theorem findDir_eq (windows : e.Windows) {v u : ℕ} {dir : Dir} (cell : v < e.vertices)
    (moves : dir ≠ .wait) (next : e.inst.getNeighbor v dir = some u) :
    e.findDir v u = some dir := by
  cases found : e.findDir v u with
  | none =>
    have all := List.find?_eq_none.mp found dir (Dir.mem_moves_iff.mpr moves)
    simp [next] at all
  | some d =>
    have leads := List.find?_some found
    rw [beq_iff_eq] at leads
    rw [windows.dir_unique cell leads next]

/-- The unchecked index is right where the timestep occurs. -/
theorem var?_of_mem {s : Shift} {t : ℤ} (member : t ∈ s.timestep) :
    s.var? t = some (shiftVarUnchecked s t) := Shift.var?_eq_some_iff.mpr ⟨member, rfl⟩

/-- The first variable of a shift belongs to its first timestep. -/
theorem shift_firstVariable_ne (ready : e.ShiftReady hi) {v : ℕ} {dir : Dir} {t : ℤ}
    (cell : v < e.vertices) (member : t ∈ (e.shiftEntry v dir).timestep) :
    (e.shiftEntry v dir).firstVariable ≠ 0 := by
  cases times : (e.shiftEntry v dir).timestep with
  | nil => simp [times] at member
  | cons first rest =>
    have found := Shift.var?_eq_some_iff.mpr
      ⟨(by simp [times] : first ∈ (e.shiftEntry v dir).timestep), rfl⟩
    have isVar := ready.isVar v cell dir first _ found
    rw [times, List.idxOf_cons_self] at isVar
    have := isVar.1
    omega

/-! ## Existing variables are read -/

section Ready

variable (ready : e.Ready hi)
include ready

theorem passCovers_of_covers (kind : e.config.variableKind = .pass) {a v u : ℕ} {dir : Dir} {t : ℤ}
    (bound : a < e.agents) (cell : v < e.vertices) (next : e.inst.getNeighbor v dir = some u)
    (tail : (e.atEntry a v).Covers t) (head : (e.atEntry a u).Covers (t + 1)) :
    (e.passEntry a v dir).Covers t :=
  (ready.windows.pass_covers_iff ready.atReady (ready.passReady kind) bound cell).mpr
    ⟨u, next, tail, head⟩

theorem mem_timestep_of_covers (kind : e.config.variableKind = .shift) {a v u t : ℕ} {dir : Dir}
    (bound : a < e.agents) (cell : v < e.vertices) (next : e.inst.getNeighbor v dir = some u)
    (before : (t : ℤ) < e.maxTimestep) (tail : (e.atEntry a v).Covers t)
    (head : (e.atEntry a u).Covers ((t : ℤ) + 1)) : (t : ℤ) ∈ (e.shiftEntry v dir).timestep := by
  rw [← Shift.isSome_var?_iff, (ready.shiftReady kind).exists_iff v cell]
  exact ⟨u, next, ⟨Int.natCast_nonneg t, before⟩, a, bound,
    (ready.windows.covers_edge ready.atReady bound cell next).mpr ⟨tail, head⟩⟩

omit ready in
theorem readsVertex {c : VertexConflict} (names : e.NamesVertex c) : e.ReadsVertex c := by
  obtain ⟨v, same, -, covers⟩ := names.covers
  exact ⟨v, same, covers⟩

theorem readsSwap {c : EdgeConflict} (names : e.NamesSwap c) : e.ReadsSwap c := by
  obtain ⟨-, before, v, u, dir, crosses, ⟨tail, head⟩, tail', head'⟩ := names
  have windows := ready.windows
  have cellU := windows.neighbor_lt crosses.cell crosses.next
  have search := findDir_eq windows crosses.cell crosses.moves crosses.next
  have back := windows.opposite crosses.cell crosses.next
  refine ⟨v, u, crosses.tail, crosses.head, ?_⟩
  cases kind : e.config.variableKind <;> dsimp only
  · exact ⟨⟨tail, head⟩, tail', head'⟩
  · exact ⟨dir, search,
      passCovers_of_covers ready kind crosses.boundA crosses.cell crosses.next tail head,
      passCovers_of_covers ready kind crosses.boundB cellU back tail' head'⟩
  · have member := mem_timestep_of_covers ready kind crosses.boundA crosses.cell crosses.next before
      tail head
    have member' := mem_timestep_of_covers ready kind crosses.boundB cellU back before tail' head'
    exact ⟨dir, search,
      ⟨shift_firstVariable_ne (ready.shiftReady kind) crosses.cell member, member⟩,
      shift_firstVariable_ne (ready.shiftReady kind) cellU member', member'⟩

theorem readsPebble {c : EdgeConflict} {t : ℕ} (names : e.NamesPebble c t) : e.ReadsPebble c := by
  obtain ⟨time, before, v, u, dir, crosses, ⟨tail, head⟩, there⟩ := names
  have search := findDir_eq ready.windows crosses.cell crosses.moves crosses.next
  refine ⟨v, u, crosses.tail, crosses.head, ?_⟩
  rw [time, Nat.cast_add_one, add_sub_cancel_right]
  cases kind : e.config.variableKind <;> dsimp only
  · exact ⟨head, there⟩
  · exact ⟨dir, search,
      passCovers_of_covers ready kind crosses.boundA crosses.cell crosses.next tail head, there⟩
  · have member := mem_timestep_of_covers ready kind crosses.boundA crosses.cell crosses.next before
      tail head
    exact ⟨dir, search, shift_firstVariable_ne (ready.shiftReady kind) crosses.cell member, member⟩

/-- The generators read existing entries for all recorded tuples. -/
theorem Names.readsExisting {conflicts : Conflicts} (names : e.Names conflicts) :
    e.ReadsExisting conflicts where
  vertex c member := readsVertex (names.vertex c member)
  swap _ c member := readsSwap ready (names.swap c member)
  pebble _ c member := by
    obtain ⟨t, named⟩ := names.pebble c member
    exact readsPebble ready named

/-! ## The clauses are eager clauses -/

omit ready in
/-- A generator handles every conflict by itself. -/
private theorem exists_single {α : Type*} {f : α → List Clause} {cs : List α} {d : Clause}
    (member : d ∈ cs.flatMap f) : ∃ c ∈ cs, d ∈ [c].flatMap f := by
  simpa using member

omit ready in
private theorem vertex_mem {a b v : ℕ} {t : ℤ} (ordered : a < b) (bound : b < e.agents)
    (cell : v < e.vertices) (coversA : (e.atEntry a v).Covers t) (coversB : (e.atEntry b v).Covers t) :
    [-(e.atEntry a v).var t, -(e.atEntry b v).var t] ∈ e.createConfVertex := by
  obtain ⟨someA, firstA, lastA⟩ := coversA
  obtain ⟨someB, firstB, lastB⟩ := coversB
  simp only [createConfVertex, List.mem_flatMap, List.mem_range]
  refine ⟨v, cell, a, ordered.trans bound, ?_⟩
  rw [if_neg someA, List.mem_flatMap]
  refine ⟨b, List.Ico.mem.mpr ⟨ordered, bound⟩, ?_⟩
  rw [if_neg someB, List.mem_map]
  exact ⟨t, Int.mem_range_iff.mpr (by omega), rfl⟩

omit ready in
theorem vertexOnDemand_mem {conflicts : Conflicts} (names : e.Names conflicts) {d : Clause}
    (member : d ∈ e.createConfVertexOnDemand conflicts.vertex) : d ∈ e.createConfVertex := by
  obtain ⟨c, memC, emitted⟩ := List.mem_flatMap.mp member
  obtain ⟨ordered, bound, v, same, cell, coversA, coversB⟩ := names.vertex c memC
  rw [same, List.mem_singleton] at emitted
  rw [emitted]
  exact vertex_mem ordered bound cell coversA coversB

theorem swapAtOnDemand_mem {c : EdgeConflict} (kind : e.config.variableKind = .at_)
    (names : e.NamesSwap c) {d : Clause} (member : d ∈ e.createConfSwappingAtOnDemand [c]) :
    d ∈ e.createConfSwappingAt := by
  obtain ⟨v, u, dir, crosses, -⟩ := names.covers
  obtain ⟨v', u', tail, head, reads⟩ := readsSwap ready names
  obtain rfl := Option.some.inj (crosses.tail.symm.trans tail)
  obtain rfl := Option.some.inj (crosses.head.symm.trans head)
  simp only [kind] at reads
  obtain ⟨⟨⟨someAV, _, _⟩, someAU, _, _⟩, ⟨someBU, _, _⟩, someBV, _, _⟩ := reads
  simp only [createConfSwappingAtOnDemand, tail, head, List.flatMap_singleton,
    List.mem_singleton] at member
  simp only [createConfSwappingAt, List.mem_flatMap, List.mem_range]
  refine ⟨v, crosses.cell, (dir, u), Grid.mem_neighbors_iff.mpr
    ⟨Dir.mem_moves_iff.mpr crosses.moves, crosses.next⟩, c.a1,
    crosses.boundA, ?_⟩
  rw [if_neg (not_or.mpr ⟨someAV, someAU⟩), List.mem_flatMap]
  refine ⟨c.a2, List.Ico.mem.mpr ⟨names.ordered, crosses.boundB⟩, ?_⟩
  rw [if_neg (not_or.mpr ⟨someBU, someBV⟩), List.mem_map]
  exact ⟨c.t, Int.mem_range_iff.mpr (by dsimp only; omega), member.symm⟩

theorem swapPassOnDemand_mem {c : EdgeConflict} (kind : e.config.variableKind = .pass)
    (names : e.NamesSwap c) {d : Clause} (member : d ∈ e.createConfSwappingPassOnDemand [c]) :
    d ∈ e.createConfSwappingPass := by
  obtain ⟨v, u, dir, crosses, -⟩ := names.covers
  obtain ⟨v', u', tail, head, reads⟩ := readsSwap ready names
  obtain rfl := Option.some.inj (crosses.tail.symm.trans tail)
  obtain rfl := Option.some.inj (crosses.head.symm.trans head)
  simp only [kind] at reads
  obtain ⟨dir', search, ⟨someA, _, _⟩, someB, _, _⟩ := reads
  have next := crosses.next
  obtain rfl := Option.some.inj ((findDir_eq ready.windows crosses.cell
    crosses.moves next).symm.trans search)
  simp only [createConfSwappingPassOnDemand, tail, head, search, List.flatMap_singleton,
    List.mem_singleton] at member
  simp only [createConfSwappingPass, List.mem_flatMap, List.mem_range]
  refine ⟨v, crosses.cell, (dir, u), Grid.mem_neighbors_iff.mpr
    ⟨Dir.mem_moves_iff.mpr crosses.moves, next⟩, c.a1, crosses.boundA, ?_⟩
  rw [if_neg someA, List.mem_flatMap]
  refine ⟨c.a2, List.Ico.mem.mpr ⟨names.ordered, crosses.boundB⟩, ?_⟩
  rw [if_neg someB, List.mem_map]
  exact ⟨c.t, Int.mem_range_iff.mpr (by dsimp only; omega), member.symm⟩

/-- The eager clauses see every edge from one of its ends only. -/
private theorem swapShift_occurs (kind : e.config.variableKind = .shift) {v u : ℕ} {dir : Dir} {t x y : ℤ}
    (cell : v < e.vertices) (moves : dir ≠ .wait) (next : e.inst.getNeighbor v dir = some u)
    (found : (e.shiftEntry v dir).var? t = some x)
    (found' : (e.shiftEntry u (oppositeDir dir)).var? t = some y) :
    Occurs [-x, -y] e.createConfSwappingShift := by
  have windows := ready.windows
  have half {v u : ℕ} {dir : Dir} {x y : ℤ} (member : dir ∈ [Dir.south, .west])
      (cell : v < e.vertices) (next : e.inst.getNeighbor v dir = some u)
      (found : (e.shiftEntry v dir).var? t = some x)
      (found' : (e.shiftEntry u (oppositeDir dir)).var? t = some y) :
      [-x, -y] ∈ e.createConfSwappingShift := by
    simp only [createConfSwappingShift, List.mem_flatMap, List.mem_range, List.mem_map]
    exact ⟨v, cell, (dir, u), Grid.mem_neighbors_iff.mpr ⟨member, next⟩, (t, x),
      (Shift.mem_entries_iff ((ready.shiftReady kind).nodup v cell dir)).mpr found, y,
      Option.mem_toList.mpr found', rfl⟩
  have other (member : oppositeDir dir ∈ [Dir.south, .west]) :
      Occurs [-x, -y] e.createConfSwappingShift := by
    refine ⟨_, half member (windows.neighbor_lt cell next) (windows.opposite cell next) found'
      (by rwa [Dir.oppositeDir_oppositeDir]), fun l => ?_⟩
    simp only [List.mem_cons, List.not_mem_nil, or_false]
    exact or_comm
  cases dir with
  | wait => exact absurd rfl moves
  | south => exact .of_mem (half (by simp) cell next found found')
  | west => exact .of_mem (half (by simp) cell next found found')
  | north => exact other (by simp [oppositeDir])
  | east => exact other (by simp [oppositeDir])

theorem swapShiftOnDemand_occurs {c : EdgeConflict} (kind : e.config.variableKind = .shift)
    (names : e.NamesSwap c) {d : Clause} (member : d ∈ e.createConfSwappingShiftOnDemand [c]) :
    Occurs d e.createConfSwappingShift := by
  obtain ⟨v, u, dir, crosses, -⟩ := names.covers
  obtain ⟨v', u', tail, head, reads⟩ := readsSwap ready names
  obtain rfl := Option.some.inj (crosses.tail.symm.trans tail)
  obtain rfl := Option.some.inj (crosses.head.symm.trans head)
  simp only [kind] at reads
  obtain ⟨dir', search, ⟨-, inside⟩, -, inside'⟩ := reads
  have next := crosses.next
  have cell := crosses.cell
  obtain rfl := Option.some.inj
    ((findDir_eq ready.windows cell crosses.moves next).symm.trans search)
  simp only [createConfSwappingShiftOnDemand, tail, head, search, List.flatMap_singleton,
    List.mem_singleton] at member
  rw [member]
  exact swapShift_occurs ready kind cell crosses.moves next
    (var?_of_mem inside) (var?_of_mem inside')

theorem pebbleAtOnDemand_mem {c : EdgeConflict} {t : ℕ} (kind : e.config.variableKind = .at_)
    (names : e.NamesPebble c t) {d : Clause} (member : d ∈ e.createConfPebbleAtOnDemand [c]) :
    d ∈ e.createConfPebbleAt := by
  obtain ⟨v, u, dir, crosses, -⟩ := names.covers
  obtain ⟨v', u', tail, head, reads⟩ := readsPebble ready names
  obtain rfl := Option.some.inj (crosses.tail.symm.trans tail)
  obtain rfl := Option.some.inj (crosses.head.symm.trans head)
  simp only [kind] at reads
  obtain ⟨⟨someA, _, _⟩, someB, _, _⟩ := reads
  have cellU := ready.windows.neighbor_lt crosses.cell crosses.next
  simp only [createConfPebbleAtOnDemand, head, List.flatMap_singleton, List.mem_singleton] at member
  simp only [createConfPebbleAt, List.mem_flatMap, List.mem_range]
  refine ⟨u, cellU, c.a1, crosses.boundA, ?_⟩
  rw [if_neg someA, List.mem_flatMap]
  refine ⟨c.a2, List.mem_range.mpr crosses.boundB, ?_⟩
  rw [if_neg (not_or.mpr ⟨crosses.distinct, someB⟩), List.mem_map]
  exact ⟨c.t, Int.mem_range_iff.mpr (by omega), member.symm⟩

theorem pebblePassOnDemand_mem {c : EdgeConflict} {t : ℕ} (kind : e.config.variableKind = .pass)
    (names : e.NamesPebble c t) {d : Clause}
    (member : d ∈ e.createConfPebblePassOnDemand [c]) : d ∈ e.createConfPebblePass := by
  obtain ⟨v, u, dir, crosses, -⟩ := names.covers
  obtain ⟨v', u', tail, head, reads⟩ := readsPebble ready names
  obtain rfl := Option.some.inj (crosses.tail.symm.trans tail)
  obtain rfl := Option.some.inj (crosses.head.symm.trans head)
  simp only [kind] at reads
  obtain ⟨dir', search, ⟨someA, _, _⟩, someB, _, _⟩ := reads
  have next := crosses.next
  have cell := crosses.cell
  obtain rfl := Option.some.inj
    ((findDir_eq ready.windows cell crosses.moves next).symm.trans search)
  simp only [createConfPebblePassOnDemand, tail, head, search, List.flatMap_singleton,
    List.mem_singleton] at member
  simp only [createConfPebblePass, List.mem_flatMap, List.mem_range]
  refine ⟨v, cell, (dir, u), Grid.mem_neighbors_iff.mpr
    ⟨Dir.mem_moves_iff.mpr crosses.moves, next⟩, c.a1, crosses.boundA, ?_⟩
  rw [if_neg someA, List.mem_flatMap]
  refine ⟨c.a2, List.mem_range.mpr crosses.boundB, ?_⟩
  rw [if_neg (not_or.mpr ⟨crosses.distinct, someB⟩), List.mem_map]
  exact ⟨(c.t : ℤ) - 1, Int.mem_range_iff.mpr (by dsimp only; omega), member.symm⟩

theorem pebbleShiftOnDemand_mem {c : EdgeConflict} {t : ℕ} (kind : e.config.variableKind = .shift)
    (names : e.NamesPebble c t) {d : Clause}
    (member : d ∈ e.createConfPebbleShiftOnDemand [c]) : d ∈ e.createConfPebbleShift := by
  obtain ⟨v, u, dir, crosses, -⟩ := names.covers
  obtain ⟨v', u', tail, head, reads⟩ := readsPebble ready names
  obtain rfl := Option.some.inj (crosses.tail.symm.trans tail)
  obtain rfl := Option.some.inj (crosses.head.symm.trans head)
  simp only [kind] at reads
  obtain ⟨dir', search, -, inside⟩ := reads
  have next := crosses.next
  have cell := crosses.cell
  obtain rfl := Option.some.inj
    ((findDir_eq ready.windows cell crosses.moves next).symm.trans search)
  have back : (e.shiftEntry v dir).timestep.getD
      ((e.shiftEntry v dir).timestep.idxOf ((c.t : ℤ) - 1)) 0 = (c.t : ℤ) - 1 := by
    rw [List.getD_eq_getElem _ _ (List.idxOf_lt_length_of_mem inside), List.getElem_idxOf]
  simp only [createConfPebbleShiftOnDemand, tail, head, search, List.flatMap_singleton, back,
    List.mem_flatMap, List.mem_map] at member
  obtain ⟨uDir, memU, y, found, rfl⟩ := member
  simp only [createConfPebbleShift, List.mem_flatMap, List.mem_range, List.mem_map]
  exact ⟨v, cell, (dir, u), Grid.mem_neighbors_iff.mpr ⟨Dir.mem_all dir, next⟩,
    ((c.t : ℤ) - 1, shiftVarUnchecked (e.shiftEntry v dir) ((c.t : ℤ) - 1)),
    (Shift.mem_entries_iff ((ready.shiftReady kind).nodup v cell dir)).mpr (var?_of_mem inside),
    uDir, memU, y, found, rfl⟩

/-- Every clause on demand is, as a set of literals, a clause of the eager encoding. -/
theorem Names.occurs {conflicts : Conflicts} (names : e.Names conflicts) {d : Clause}
    (member : d ∈ e.conflictClausesLazy conflicts) : Occurs d e.conflictClausesEager := by
  unfold conflictClausesEager
  rcases List.mem_append.mp member with vertex | moving
  · exact (Occurs.of_mem (vertexOnDemand_mem names vertex)).append_right _
  · apply Occurs.append_left _
    unfold createConfMovingOnDemand at moving
    unfold createConfMoving
    cases movement : e.config.movement <;> cases kind : e.config.variableKind <;>
      simp only [movement, kind] at moving <;> dsimp only <;>
      obtain ⟨c, memC, emitted⟩ := exists_single moving
    · exact .of_mem (swapAtOnDemand_mem ready kind (names.swap c memC) emitted)
    · exact .of_mem (swapPassOnDemand_mem ready kind (names.swap c memC) emitted)
    · exact swapShiftOnDemand_occurs ready kind (names.swap c memC) emitted
    all_goals obtain ⟨t, named⟩ := names.pebble c memC
    · exact .of_mem (pebbleAtOnDemand_mem ready kind named emitted)
    · exact .of_mem (pebblePassOnDemand_mem ready kind named emitted)
    · exact .of_mem (pebbleShiftOnDemand_mem ready kind named emitted)

end Ready

/-! ## Recorded tuples are in range -/

section Prepared

variable (poses : task.Poses e) (prepared : e.Prepared L hi)
include poses prepared

theorem covers_of_window {a v : ℕ} {t : ℤ} (boundA : a < task.ags)
    (cell : v < task.inst.numberOfVertices) (window : task.Window L a v t) :
    (e.atEntry a v).Covers t := by
  refine (prepared.setting.at_covers_iff prepared.atReady (poses.agents ▸ boundA)
    (poses.vertices ▸ cell)).mpr ?_
  rw [Alive, poses.inst]
  exact window

omit prepared in
theorem crosses_of_between {c : EdgeConflict} {v u : ℕ} {dir : Dir}
    (between : c.Between task v u dir) : e.Crosses c v u dir where
  boundA := poses.agents ▸ between.boundA
  boundB := poses.agents ▸ between.boundB
  distinct := between.distinct
  tail := between.tail
  head := between.head
  cell := poses.vertices ▸ between.cell
  moves := between.moves
  next := by rw [poses.inst, between.next]

/-- Tuples inside the windows of a task name existing variables. -/
theorem names_of_recorded {conflicts : Conflicts} (recorded : task.Recorded L conflicts) :
    e.Names conflicts := by
  have fits {a : ℕ} (bound : a < task.ags) : (L a : ℤ) < e.maxTimestep :=
    prepared.setting.fits a (poses.agents ▸ bound)
  have cellU {c : EdgeConflict} {v u : ℕ} {dir : Dir} (between : c.Between task v u dir) :
      u < task.inst.numberOfVertices :=
    task.numbered.getNeighbor_lt between.cell between.next
  refine ⟨fun c member => ?_, fun c member => ?_, fun c member => ?_⟩
  · obtain ⟨ordered, bound, v, same, cell, first, second⟩ := recorded.vertex c member
    exact ⟨ordered, poses.agents ▸ bound, v, same, poses.vertices ▸ cell,
      covers_of_window poses prepared (ordered.trans bound) cell first,
      covers_of_window poses prepared bound cell second⟩
  · obtain ⟨ordered, before, v, u, dir, between, ⟨tail, head⟩, tail', head'⟩ :=
      recorded.swap c member
    have last := fits between.boundA
    exact ⟨ordered, by omega, v, u, dir, crosses_of_between poses between,
      ⟨covers_of_window poses prepared between.boundA between.cell tail,
        covers_of_window poses prepared between.boundA (cellU between) head⟩,
      covers_of_window poses prepared between.boundB (cellU between) tail',
      covers_of_window poses prepared between.boundB between.cell head'⟩
  · obtain ⟨t, time, before, v, u, dir, between, ⟨tail, head⟩, there⟩ := recorded.pebble c member
    have last := fits between.boundA
    exact ⟨t, time, by omega, v, u, dir, crosses_of_between poses between,
      ⟨covers_of_window poses prepared between.boundA between.cell tail,
        covers_of_window poses prepared between.boundA (cellU between) head⟩,
      covers_of_window poses prepared between.boundB (cellU between) there⟩

/-- The generators read existing entries for all recorded tuples. -/
theorem readsExisting {conflicts : Conflicts} (recorded : task.Recorded L conflicts) :
    e.ReadsExisting conflicts :=
  (names_of_recorded poses prepared recorded).readsExisting prepared.ready

theorem conflictClausesLazy_occurs {conflicts : Conflicts} (recorded : task.Recorded L conflicts)
    {d : Clause} (member : d ∈ e.conflictClausesLazy conflicts) :
    Occurs d e.conflictClausesEager :=
  (names_of_recorded poses prepared recorded).occurs prepared.ready member

/-- The conflict clauses of a call are, as sets of literals, clauses of the eager encoding. -/
theorem conflictClauses_occurs {conflicts : Conflicts}
    (recorded : e.config.lazyConst = .lazy → task.Recorded L conflicts) {d : Clause}
    (member : d ∈ e.conflictClauses conflicts) : Occurs d e.conflictClausesEager := by
  unfold conflictClauses at member
  cases kind : e.config.lazyConst with
  | eager => exact .of_mem (by simpa only [kind] using member)
  | lazy =>
    exact conflictClausesLazy_occurs poses prepared (recorded kind) (by simpa only [kind] using member)

end Prepared

end Encoder

end MAPFEncodings

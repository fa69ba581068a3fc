import MAPFEncodings.Model.Formula
import MAPFEncodings.Proofs.Grid

/-! # The variable tables

`CreateAt`, `CreatePass` and `CreateShift` give a variable to every agent, vertex and timestep, to
every traversal, and to every shift in their windows. The variables of one table, and of
consecutive tables, are pairwise distinct. The `*Ready` structures collect what the generators
read from the tables.
-/

namespace MAPFEncodings

open Cnf

namespace TEGAgent

/-- The variables of an entry. -/
def Has (e : TEGAgent) (t x : ℤ) : Prop := e.Covers t ∧ e.var t = x

end TEGAgent

namespace Shift

theorem var?_eq_some_iff {s : Shift} {t x : ℤ} :
    s.var? t = some x ↔ t ∈ s.timestep ∧ s.firstVariable + s.timestep.idxOf t = x := by
  unfold var?
  by_cases found : t ∈ s.timestep
  · simp [found, List.idxOf_eq_length_iff]
  · simp [found]

theorem isSome_var?_iff {s : Shift} {t : ℤ} : (s.var? t).isSome ↔ t ∈ s.timestep := by
  simp [Option.isSome_iff_exists, var?_eq_some_iff]

/-- The loop over the list of timesteps visits each variable with its timestep. -/
theorem mem_entries_iff {s : Shift} (nodup : s.timestep.Nodup) {t x : ℤ} :
    (t, x) ∈ s.entries ↔ s.var? t = some x := by
  simp only [entries, List.mem_map, Prod.exists, Prod.mk.injEq, List.mk_mem_zipIdx_iff_getElem?,
    var?_eq_some_iff]
  constructor
  · rintro ⟨t', i, found, rfl, rfl⟩
    obtain ⟨bound, rfl⟩ := List.getElem?_eq_some_iff.mp found
    exact ⟨List.getElem_mem bound, by rw [nodup.idxOf_getElem]⟩
  · rintro ⟨member, rfl⟩
    exact ⟨t, s.timestep.idxOf t, List.getElem?_idxOf member, rfl, rfl⟩

theorem nodup_entries {s : Shift} (nodup : s.timestep.Nodup) : s.entries.Nodup := by
  have times : s.entries.map Prod.fst = s.timestep := by
    rw [entries, List.map_map]
    exact List.zipIdx_map_fst 0 s.timestep
  rw [← times] at nodup
  exact nodup.of_map

private theorem allocates_var? (lit : ℤ) (times : List ℤ) :
    Allocates (fun t x => (Shift.mk lit times).var? t = some x) lit (lit + times.length) where
  le := by omega
  bounds {t x} has := by
    obtain ⟨member, rfl⟩ := var?_eq_some_iff.mp has
    have := List.idxOf_lt_length_of_mem member
    simp only at *
    omega
  inj {t t' x} has has' := by
    obtain ⟨member, same⟩ := var?_eq_some_iff.mp has
    obtain ⟨-, same'⟩ := var?_eq_some_iff.mp has'
    change lit + (times.idxOf t : ℤ) = x at same
    change lit + (times.idxOf t' : ℤ) = x at same'
    have index : times.idxOf t = times.idxOf t' := by omega
    exact (List.idxOf_inj member).mp index

end Shift

namespace Encoder

/-- One entry owns the interval it allocates. -/
private theorem allocates_allocate {lit first last : ℤ} (le : first ≤ last) :
    Allocates (allocate lit first last).1.Has lit (allocate lit first last).2 where
  le := by change lit ≤ lit + (last - first + 1); omega
  bounds {t x} has := by
    obtain ⟨covers, rfl⟩ := has
    have window : first ≤ t ∧ t ≤ last := covers.2
    change lit ≤ lit + (t - first) ∧ lit + (t - first) < lit + (last - first + 1)
    omega
  inj {t t' x} has has' := by
    have same : lit + (t - first) = lit + (t' - first) := has.2.trans has'.2.symm
    omega

private theorem allocates_unallocated (lib : Externals) (a v : ℕ) (dir : Dir) (lit : ℤ) :
    Allocates (unallocated lib a v dir lit).1.Has lit (unallocated lib a v dir lit).2 where
  le := le_rfl
  bounds has := absurd rfl has.1.1
  inj has _ := absurd rfl has.1.1

private theorem not_covers_unallocated (lib : Externals) (a v : ℕ) (dir : Dir) (lit t : ℤ) :
    ¬(unallocated lib a v dir lit).1.Covers t := fun covers => covers.1 rfl

private theorem covers_allocate {lit first last : ℤ} (pos : 1 ≤ lit) (t : ℤ) :
    (allocate lit first last).1.Covers t ↔ first ≤ t ∧ t ≤ last :=
  and_iff_right (show lit ≠ 0 by omega)

variable (e : Encoder) (lib : Externals) (lit timesteps : ℤ)

/-! ## Positions -/

/-- The body of `CreateAt` for one agent and vertex. -/
def atBody (a : ℕ) (lit : ℤ) (v : ℕ) : TEGAgent × ℤ :=
  if e.inst.firstTimestep a v ≤ e.lastTimestep a v timesteps then
    allocate lit (e.inst.firstTimestep a v) (e.lastTimestep a v timesteps)
  else unallocated lib a v .wait lit

private theorem allocates_atBody (a v : ℕ) :
    Allocates (e.atBody lib timesteps a lit v).1.Has lit (e.atBody lib timesteps a lit v).2 := by
  unfold atBody
  split
  · exact allocates_allocate ‹_›
  · exact allocates_unallocated ..

/-- What the generators read from the table of positions. -/
structure AtReady (hi : ℤ) : Prop where
  entry : ∀ a < e.agents, ∀ v < e.vertices, (e.atEntry a v).firstVariable ≠ 0 →
    (e.atEntry a v).firstTimestep = e.inst.firstTimestep a v ∧
      (e.atEntry a v).lastTimestep = e.lastTimestep a v e.maxTimestep
  covers : ∀ a < e.agents, ∀ v < e.vertices, ∀ t, (e.atEntry a v).Covers t ↔
    e.inst.firstTimestep a v ≤ t ∧ t ≤ e.lastTimestep a v e.maxTimestep
  isVar : ∀ a < e.agents, ∀ v < e.vertices, ∀ t, (e.atEntry a v).Covers t →
    IsVar hi ((e.atEntry a v).var t)

/-- The variables of all positions. -/
def HasAt (key : ℕ × ℕ × ℤ) (x : ℤ) : Prop :=
  key.1 < e.agents ∧ key.2.1 < e.vertices ∧ (e.atEntry key.1 key.2.1).Has key.2.2 x

private theorem getElem?_of_getD {α : Type*} {xs : List α} {i : ℕ} {d : α} (bound : i < xs.length) :
    xs[i]? = some (xs.getD i d) := by
  rw [List.getD_eq_getElem?_getD, List.getElem?_eq_getElem bound]
  rfl

theorem allocates_createAt :
    Allocates (e.createAt lib lit timesteps).1.HasAt lit (e.createAt lib lit timesteps).2 := by
  have rows := Allocates.mapState
    (fun lit a => List.mapState (e.atBody lib timesteps a) lit (List.range e.vertices))
    (fun row (key : ℕ × ℤ) x => ∃ y, row[key.1]? = some y ∧ y.Has key.2 x) (List.range e.agents)
    (fun s a _ => Allocates.mapState (e.atBody lib timesteps a) TEGAgent.Has
      (List.range e.vertices) (fun s v _ => allocates_atBody e lib s timesteps a v) s) lit
  apply rows.comap id Function.injective_id
  rintro ⟨a, v, t⟩ x ⟨boundA, boundV, has⟩
  change a < e.agents at boundA
  change v < e.vertices at boundV
  refine ⟨_, getElem?_of_getD (d := []) (by simpa using boundA), _, getElem?_of_getD (d := default) ?_,
    has⟩
  dsimp only [id]
  rw [List.getD_mapState_range _ _ _ boundA]
  simpa using boundV

/-- An entry of the table is allocated by the body of the loop. -/
private theorem exists_atEntry {a v : ℕ} (boundA : a < e.agents) (boundV : v < e.vertices) :
    ∃ s, lit ≤ s ∧
      (e.createAt lib lit timesteps).1.atEntry a v = (e.atBody lib timesteps a s v).1 := by
  have grow (a : ℕ) (s : ℤ) (start : lit ≤ s) (xs : List ℕ) :
      lit ≤ (List.mapState (e.atBody lib timesteps a) s xs).2 :=
    List.mapState_invariant _ (lit ≤ ·)
      (fun s le v _ => le.trans (allocates_atBody e lib s timesteps a v).le) start
  have rows (xs : List ℕ) : lit ≤ (List.mapState (fun lit a =>
      List.mapState (e.atBody lib timesteps a) lit (List.range e.vertices)) lit xs).2 :=
    List.mapState_invariant _ (lit ≤ ·) (fun s le b _ => grow b s le _) le_rfl
  refine ⟨_, grow a _ (rows (List.range a)) (List.range v), ?_⟩
  change ((List.mapState (fun lit a => List.mapState (e.atBody lib timesteps a) lit
    (List.range e.vertices)) lit (List.range e.agents)).1.getD a []).getD v default = _
  rw [List.getD_mapState_range _ _ _ boundA, List.getD_mapState_range _ _ _ boundV]

theorem createAt_ready (pos : 1 ≤ lit) :
    (e.createAt lib lit timesteps).1.AtReady (e.createAt lib lit timesteps).2 where
  entry a boundA v boundV present := by
    obtain ⟨s, -, same⟩ := exists_atEntry e lib lit timesteps boundA boundV
    rw [same] at present ⊢
    unfold atBody at present ⊢
    split
    · exact ⟨rfl, rfl⟩
    · next absent => exact absurd (by rw [if_neg absent]; rfl) present
  covers a boundA v boundV t := by
    obtain ⟨s, le, same⟩ := exists_atEntry e lib lit timesteps boundA boundV
    rw [same]
    change _ ↔ e.inst.firstTimestep a v ≤ t ∧ t ≤ e.lastTimestep a v timesteps
    unfold atBody
    split
    · exact covers_allocate (pos.trans le) t
    · exact iff_of_false (not_covers_unallocated _ _ _ _ _ _) (by omega)
  isVar a boundA v boundV t covers := by
    have bounds := (allocates_createAt e lib lit timesteps).bounds (k := (a, v, t))
      ⟨boundA, boundV, covers, rfl⟩
    exact ⟨zero_lt_one.trans_le (pos.trans bounds.1), bounds.2⟩

/-- An entry with variables has a window. -/
theorem le_of_present {a v : ℕ} (boundA : a < e.agents) (boundV : v < e.vertices)
    (present : ((e.createAt lib lit timesteps).1.atEntry a v).firstVariable ≠ 0) :
    e.inst.firstTimestep a v ≤ e.lastTimestep a v timesteps := by
  obtain ⟨s, -, same⟩ := exists_atEntry e lib lit timesteps boundA boundV
  by_contra absent
  rw [same, atBody, if_neg absent] at present
  exact present rfl

/-! ## Passes -/

/-- The body of `CreatePass` for one agent, vertex and direction. -/
def passBody (a v : ℕ) (lit : ℤ) (dir : Dir) : TEGAgent × ℤ :=
  match e.inst.neighbor? v dir with
  | none => unallocated lib a v dir lit
  | some u =>
    if e.inst.firstTimestep a v < e.lastTimestep a u timesteps then
      allocate lit (e.inst.firstTimestep a v) (e.lastTimestep a u timesteps - 1)
    else unallocated lib a v dir lit

private theorem allocates_passBody (a v : ℕ) (dir : Dir) :
    Allocates (e.passBody lib timesteps a v lit dir).1.Has lit
      (e.passBody lib timesteps a v lit dir).2 := by
  unfold passBody
  split
  · exact allocates_unallocated ..
  · split
    · exact allocates_allocate (by omega)
    · exact allocates_unallocated ..

/-- What the generators read from the table of passes. -/
structure PassReady (hi : ℤ) : Prop where
  covers : ∀ a < e.agents, ∀ v < e.vertices, ∀ dir t, (e.passEntry a v dir).Covers t ↔
    ∃ u, e.inst.getNeighbor v dir = some u ∧ e.inst.firstTimestep a v ≤ t ∧
      t < e.lastTimestep a u e.maxTimestep
  isVar : ∀ a < e.agents, ∀ v < e.vertices, ∀ dir t, (e.passEntry a v dir).Covers t →
    IsVar hi ((e.passEntry a v dir).var t)

/-- The variables of all passes. -/
def HasPass (key : ℕ × ℕ × Dir × ℤ) (x : ℤ) : Prop :=
  key.1 < e.agents ∧ key.2.1 < e.vertices ∧ (e.passEntry key.1 key.2.1 key.2.2.1).Has key.2.2.2 x

private theorem getElem?_all (dir : Dir) : Dir.all[dir.index]? = some dir := by cases dir <;> rfl

theorem allocates_createPass :
    Allocates (e.createPass lib lit timesteps).1.HasPass lit (e.createPass lib lit timesteps).2 := by
  have rows := Allocates.mapState
    (fun lit a => List.mapState
      (fun lit v => List.mapState (e.passBody lib timesteps a v) lit Dir.all)
      lit (List.range e.vertices))
    (fun row (key : ℕ × ℕ × ℤ) x => ∃ y, row[key.1]? = some y ∧
      ∃ z, y[key.2.1]? = some z ∧ z.Has key.2.2 x)
    (List.range e.agents)
    (fun s a _ => Allocates.mapState
      (fun lit v => List.mapState (e.passBody lib timesteps a v) lit Dir.all)
      (fun row (key : ℕ × ℤ) x => ∃ y, row[key.1]? = some y ∧ y.Has key.2 x)
      (List.range e.vertices)
      (fun s v _ => Allocates.mapState (e.passBody lib timesteps a v) TEGAgent.Has Dir.all
        (fun s dir _ => allocates_passBody e lib s timesteps a v dir) s) s) lit
  refine rows.comap (fun (key : ℕ × ℕ × Dir × ℤ) => (key.1, key.2.1, key.2.2.1.index, key.2.2.2))
    ?_ ?_
  · rintro ⟨a, v, dir, t⟩ ⟨a', v', dir', t'⟩ same
    simp only [Prod.mk.injEq] at same
    obtain ⟨rfl, rfl, sameIndex, rfl⟩ := same
    rw [Dir.index_injective sameIndex]
  · rintro ⟨a, v, dir, t⟩ x ⟨boundA, boundV, has⟩
    change a < e.agents at boundA
    change v < e.vertices at boundV
    refine ⟨_, getElem?_of_getD (d := []) (by simpa using boundA), _,
      getElem?_of_getD (d := []) ?_, _, getElem?_of_getD (d := default) ?_, has⟩
    · rw [List.getD_mapState_range _ _ _ boundA]
      simpa using boundV
    · rw [List.getD_mapState_range _ _ _ boundA, List.getD_mapState_range _ _ _ boundV]
      cases dir <;> simp [Dir.all, Dir.index]

private theorem exists_passEntry {a v : ℕ} (boundA : a < e.agents) (boundV : v < e.vertices)
    (dir : Dir) : ∃ s, lit ≤ s ∧
      (e.createPass lib lit timesteps).1.passEntry a v dir =
        (e.passBody lib timesteps a v s dir).1 := by
  have growDir (a v : ℕ) (s : ℤ) (start : lit ≤ s) (xs : List Dir) :
      lit ≤ (List.mapState (e.passBody lib timesteps a v) s xs).2 :=
    List.mapState_invariant _ (lit ≤ ·)
      (fun s le dir _ => le.trans (allocates_passBody e lib s timesteps a v dir).le) start
  have grow (a : ℕ) (s : ℤ) (start : lit ≤ s) (xs : List ℕ) :
      lit ≤ (List.mapState (fun lit v => List.mapState (e.passBody lib timesteps a v) lit Dir.all)
        s xs).2 :=
    List.mapState_invariant _ (lit ≤ ·) (fun s le v _ => growDir a v s le _) start
  have rows (xs : List ℕ) : lit ≤ (List.mapState (fun lit a => List.mapState (fun lit v =>
      List.mapState (e.passBody lib timesteps a v) lit Dir.all) lit (List.range e.vertices)) lit xs).2 :=
    List.mapState_invariant _ (lit ≤ ·) (fun s le b _ => grow b s le _) le_rfl
  refine ⟨_, growDir a v _ (grow a _ (rows (List.range a)) (List.range v))
    (Dir.all.take dir.index), ?_⟩
  change (((List.mapState (fun lit a => List.mapState (fun lit v =>
    List.mapState (e.passBody lib timesteps a v) lit Dir.all) lit (List.range e.vertices)) lit
    (List.range e.agents)).1.getD a []).getD v []).getD dir.index default = _
  rw [List.getD_mapState_range _ _ _ boundA, List.getD_mapState_range _ _ _ boundV,
    List.getD_eq_getElem?_getD, List.getElem?_mapState, getElem?_all]
  rfl

theorem createPass_ready (pos : 1 ≤ lit) (same : e.maxTimestep = timesteps) :
    (e.createPass lib lit timesteps).1.PassReady (e.createPass lib lit timesteps).2 where
  covers a boundA v boundV dir t := by
    obtain ⟨s, le, entry⟩ := exists_passEntry e lib lit timesteps boundA boundV dir
    rw [entry]
    change _ ↔ ∃ u, e.inst.getNeighbor v dir = some u ∧ e.inst.firstTimestep a v ≤ t ∧
      t < e.lastTimestep a u e.maxTimestep
    rw [same]
    unfold passBody
    rw [Grid.neighbor?_eq]
    split
    · next none => exact iff_of_false (not_covers_unallocated _ _ _ _ _ _) (by simp [none])
    · next u next =>
      simp only [next, Option.some.injEq, exists_eq_left']
      split
      · rw [covers_allocate (pos.trans le)]
        omega
      · exact iff_of_false (not_covers_unallocated _ _ _ _ _ _) (by omega)
  isVar a boundA v boundV dir t covers := by
    have bounds := (allocates_createPass e lib lit timesteps).bounds (k := (a, v, dir, t))
      ⟨boundA, boundV, covers, rfl⟩
    exact ⟨zero_lt_one.trans_le (pos.trans bounds.1), bounds.2⟩

/-! ## Shifts -/

/-- What the generators read from the table of shifts. -/
structure ShiftReady (hi : ℤ) : Prop where
  exists_iff : ∀ v < e.vertices, ∀ dir t, ((e.shiftEntry v dir).var? t).isSome ↔
    ∃ u, e.inst.getNeighbor v dir = some u ∧ (0 ≤ t ∧ t < e.maxTimestep) ∧
      ∃ a < e.agents, e.inst.firstTimestep a v ≤ t ∧ t < e.lastTimestep a u e.maxTimestep
  isVar : ∀ v < e.vertices, ∀ dir t x, (e.shiftEntry v dir).var? t = some x → IsVar hi x
  nodup : ∀ v < e.vertices, ∀ dir, (e.shiftEntry v dir).timestep.Nodup
  span : ∀ v < e.vertices, ∀ dir t, ((e.shiftEntry v dir).var? t).isSome →
    e.timesStart v ≠ -1 ∧ e.timesStart v ≤ t ∧ t ≤ e.timesEnd v

/-- The variables of all shifts. -/
def HasShift (key : ℕ × Dir × ℤ) (x : ℤ) : Prop :=
  key.1 < e.vertices ∧ (e.shiftEntry key.1 key.2.1).var? key.2.2 = some x

/-- The body of `CreateShift` for one vertex and direction. -/
def shiftBody (v : ℕ) (lit : ℤ) (dir : Dir) : Shift × ℤ :=
  (⟨lit, e.shiftTimes timesteps v dir⟩, lit + (e.shiftTimes timesteps v dir).length)

theorem allocates_createShift :
    Allocates (e.createShift lit timesteps).1.HasShift lit (e.createShift lit timesteps).2 := by
  have rows := Allocates.mapState
    (fun lit v => List.mapState (e.shiftBody timesteps v) lit Dir.all)
    (fun row (key : ℕ × ℤ) x => ∃ y : Shift, row[key.1]? = some y ∧ y.var? key.2 = some x)
    (List.range e.vertices)
    (fun s v _ => Allocates.mapState (e.shiftBody timesteps v) (fun y t x => y.var? t = some x)
      Dir.all (fun s dir _ => Shift.allocates_var? s _) s) lit
  refine rows.comap (fun (key : ℕ × Dir × ℤ) => (key.1, key.2.1.index, key.2.2)) ?_ ?_
  · rintro ⟨v, dir, t⟩ ⟨v', dir', t'⟩ same
    simp only [Prod.mk.injEq] at same
    obtain ⟨rfl, sameIndex, rfl⟩ := same
    rw [Dir.index_injective sameIndex]
  · rintro ⟨v, dir, t⟩ x ⟨boundV, has⟩
    change v < e.vertices at boundV
    refine ⟨_, getElem?_of_getD (d := []) (by simpa using boundV), _,
      getElem?_of_getD (d := default) ?_, has⟩
    rw [List.getD_mapState_range _ _ _ boundV]
    cases dir <;> simp [Dir.all, Dir.index]

theorem timestep_shiftEntry {v : ℕ} (boundV : v < e.vertices) (dir : Dir) :
    ((e.createShift lit timesteps).1.shiftEntry v dir).timestep = e.shiftTimes timesteps v dir := by
  change (((List.mapState (fun lit v => List.mapState (e.shiftBody timesteps v) lit Dir.all) lit
    (List.range e.vertices)).1.getD v []).getD dir.index default).timestep = _
  rw [List.getD_mapState_range _ _ _ boundV, List.getD_eq_getElem?_getD, List.getElem?_mapState,
    getElem?_all]
  rfl

theorem mem_shiftTimes_iff {v : ℕ} {dir : Dir} {t : ℤ} : t ∈ e.shiftTimes timesteps v dir ↔
    ∃ u, e.inst.getNeighbor v dir = some u ∧ (0 ≤ t ∧ t < timesteps) ∧
      ∃ a < e.agents, e.inst.firstTimestep a v ≤ t ∧ t < e.lastTimestep a u timesteps := by
  unfold shiftTimes
  rw [Grid.neighbor?_eq]
  split
  · next none => simp [none]
  · next u next => simp [next, Int.mem_range_iff]

/-- The updates of the span keep every timestep seen so far inside it. -/
theorem foldl_updateTimes (ts : List ℤ) (nonneg : ∀ t ∈ ts, 0 ≤ t) (times : ℤ × ℤ)
    (marker : -1 ≤ times.1) : (0 ≤ times.1 → 0 ≤ (ts.foldl updateTimes times).1 ∧
        (ts.foldl updateTimes times).1 ≤ times.1 ∧ times.2 ≤ (ts.foldl updateTimes times).2) ∧
      ∀ t ∈ ts, 0 ≤ (ts.foldl updateTimes times).1 ∧ (ts.foldl updateTimes times).1 ≤ t ∧
        t ≤ (ts.foldl updateTimes times).2 := by
  induction ts generalizing times with
  | nil => exact ⟨fun start => ⟨start, le_rfl, le_rfl⟩, by simp⟩
  | cons t ts ih =>
    have posT : 0 ≤ t := nonneg t List.mem_cons_self
    have first : (updateTimes times t).1 = if times.1 = -1 ∨ times.1 > t then t else times.1 := rfl
    have last : (updateTimes times t).2 = if times.2 < t then t else times.2 := rfl
    obtain ⟨keep, later⟩ := ih (fun r member => nonneg r (List.mem_cons_of_mem _ member))
      (updateTimes times t) (by split_ifs at first <;> omega)
    rw [List.foldl_cons]
    constructor
    · intro start
      split_ifs at first last <;> omega
    · intro r member
      rcases List.mem_cons.mp member with rfl | inside
      · split_ifs at first last <;> omega
      · exact later r inside

theorem times_createShift {v : ℕ} (boundV : v < e.vertices) :
    ((e.createShift lit timesteps).1.timesStart v, (e.createShift lit timesteps).1.timesEnd v) =
      (Dir.all.flatMap (e.shiftTimes timesteps v)).foldl updateTimes (-1, -1) := by
  simp [timesStart, timesEnd, createShift, boundV]

theorem createShift_ready (pos : 1 ≤ lit) :
    (e.createShift lit timesteps).1.ShiftReady (e.createShift lit timesteps).2 where
  exists_iff v boundV dir t := by
    rw [Shift.isSome_var?_iff, timestep_shiftEntry e lit timesteps boundV, mem_shiftTimes_iff]
    rfl
  isVar v boundV dir t x has := by
    have bounds := (allocates_createShift e lit timesteps).bounds (k := (v, dir, t)) ⟨boundV, has⟩
    exact ⟨zero_lt_one.trans_le (pos.trans bounds.1), bounds.2⟩
  nodup v boundV dir := by
    rw [timestep_shiftEntry e lit timesteps boundV]
    unfold shiftTimes
    split
    · exact List.nodup_nil
    · exact .filter _ (.map (fun m n same => by simpa using same) List.nodup_range)
  span v boundV dir t present := by
    rw [Shift.isSome_var?_iff, timestep_shiftEntry e lit timesteps boundV] at present
    have nonneg : ∀ r ∈ Dir.all.flatMap (e.shiftTimes timesteps v), 0 ≤ r := by
      intro r member
      obtain ⟨dir, -, inside⟩ := List.mem_flatMap.mp member
      obtain ⟨_, _, bounds, -⟩ := (mem_shiftTimes_iff e timesteps).mp inside
      exact bounds.1
    have inside := (foldl_updateTimes _ nonneg (-1, -1) le_rfl).2 t
      (List.mem_flatMap.mpr ⟨dir, Dir.mem_all dir, present⟩)
    rw [← times_createShift e lit timesteps boundV] at inside
    dsimp only at inside
    exact ⟨by omega, inside.2⟩

end Encoder

end MAPFEncodings

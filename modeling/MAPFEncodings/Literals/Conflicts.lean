import MAPFEncodings.Literals.Layout

/-! # Which objects the conflict clauses are about

The generators take variables from the tables by arithmetic on timesteps. Where the tables are
filled by `CreateAt`, `CreatePass` and `CreateShift`, the clauses of a generator are the intended
ones, each over the variables of the objects it is about.
-/

namespace MAPFEncodings

open Cnf

namespace Layout

variable {l : Layout}

/-- The positions have their variables. -/
structure DrawsPositions (l : Layout) : Prop where
  ready : l.encoder.AtReady l.positions
  allocates : Allocates l.encoder.HasAt l.start l.positions

/-- The passes have their variables. -/
structure DrawsPasses (l : Layout) : Prop where
  ready : l.encoder.PassReady l.passes
  allocates : Allocates l.encoder.HasPass l.positions l.passes

/-- The shifts have their variables. -/
structure DrawsShifts (l : Layout) : Prop where
  ready : l.encoder.ShiftReady l.shifts
  allocates : Allocates l.encoder.HasShift l.passes l.shifts

/-- Clauses over objects are written down, and all these objects have variables. -/
structure Speaks (l : Layout) (S : List (Literal Object) → Prop) (F : List Clause) : Prop where
  writes : Writes l.number S F
  owned : ∀ s, S s → ∀ k ∈ s, l.Owned k.name

namespace DrawsPositions

variable (draws : l.DrawsPositions)
include draws

theorem position_iff {a v : ℕ} {t : ℤ} : l.encoder.outline.Position a v t ↔
    a < l.encoder.agents ∧ v < l.encoder.vertices ∧ (l.encoder.atEntry a v).Covers t :=
  and_congr_right fun agent => and_congr_right fun vertex =>
    (draws.ready.covers a agent v vertex t).symm

theorem covers {a v : ℕ} {t : ℤ} (position : l.encoder.outline.Position a v t) :
    (l.encoder.atEntry a v).Covers t := (draws.position_iff.mp position).2.2

theorem owned {a v : ℕ} {t : ℤ} (position : l.encoder.outline.Position a v t) :
    l.Owned (.position a v t) := by
  obtain ⟨agent, vertex, covers⟩ := draws.position_iff.mp position
  have has : l.encoder.HasAt (a, v, t) ((l.encoder.atEntry a v).var t) :=
    ⟨agent, vertex, covers, rfl⟩
  exact ⟨has, draws.allocates.bounds has⟩

end DrawsPositions

namespace DrawsPasses

variable (draws : l.DrawsPasses)
include draws

theorem pass_iff {a v : ℕ} {dir : Dir} {t : ℤ} : l.encoder.outline.Pass a v dir t ↔
    a < l.encoder.agents ∧ v < l.encoder.vertices ∧ (l.encoder.passEntry a v dir).Covers t :=
  and_congr_right fun agent => and_congr_right fun vertex =>
    (draws.ready.covers a agent v vertex dir t).symm

theorem covers {a v : ℕ} {dir : Dir} {t : ℤ} (pass : l.encoder.outline.Pass a v dir t) :
    (l.encoder.passEntry a v dir).Covers t := (draws.pass_iff.mp pass).2.2

theorem owned {a v : ℕ} {dir : Dir} {t : ℤ} (pass : l.encoder.outline.Pass a v dir t) :
    l.Owned (.pass a v dir t) := by
  obtain ⟨agent, vertex, covers⟩ := draws.pass_iff.mp pass
  have has : l.encoder.HasPass (a, v, dir, t) ((l.encoder.passEntry a v dir).var t) :=
    ⟨agent, vertex, covers, rfl⟩
  exact ⟨has, draws.allocates.bounds has⟩

end DrawsPasses

namespace DrawsShifts

variable (draws : l.DrawsShifts)
include draws

theorem shift_iff {v : ℕ} {dir : Dir} {t : ℤ} : l.encoder.outline.Shift v dir t ↔
    v < l.encoder.vertices ∧ ((l.encoder.shiftEntry v dir).var? t).isSome :=
  and_congr_right fun vertex => (draws.ready.exists_iff v vertex dir t).symm

theorem found {v : ℕ} {dir : Dir} {t : ℤ} (shift : l.encoder.outline.Shift v dir t) :
    (l.encoder.shiftEntry v dir).var? t = some (l.number (.shift v dir t)) := by
  obtain ⟨x, found⟩ := Option.isSome_iff_exists.mp (draws.shift_iff.mp shift).2
  rw [number, found, Option.getD_some]

theorem owned {v : ℕ} {dir : Dir} {t : ℤ} (shift : l.encoder.outline.Shift v dir t) :
    l.Owned (.shift v dir t) := by
  have has : l.encoder.HasShift (v, dir, t) (l.number (.shift v dir t)) :=
    ⟨shift.1, draws.found shift⟩
  exact ⟨has, draws.allocates.bounds has⟩

/-- What the search for a timestep finds. -/
theorem of_found {v : ℕ} {dir : Dir} {t x : ℤ} (vertex : v < l.encoder.vertices)
    (found : (l.encoder.shiftEntry v dir).var? t = some x) :
    l.encoder.outline.Shift v dir t ∧ l.number (.shift v dir t) = x := by
  refine ⟨draws.shift_iff.mpr ⟨vertex, ?_⟩, ?_⟩
  · rw [found]
    rfl
  · rw [number, found, Option.getD_some]

end DrawsShifts

theorem createConfVertex_speaks (draws : l.DrawsPositions) :
    l.Speaks (fun s => Intends l.encoder.outline .createConfVertex (.clause s))
      l.encoder.createConfVertex where
  writes c := by
    simp only [Encoder.createConfVertex, List.mem_flatMap, List.mem_ite_nil_left, List.mem_map,
      List.mem_range, List.Ico.mem, Int.mem_range_iff]
    constructor
    · rintro ⟨v, vertex, a1, agent1, present1, a2, ⟨order, agent2⟩, present2, t, inside, rfl⟩
      exact ⟨_, .confVertex order
        (draws.position_iff.mpr ⟨agent1, vertex, present1, by omega, by omega⟩)
        (draws.position_iff.mpr ⟨agent2, vertex, present2, by omega, by omega⟩), rfl⟩
    · rintro ⟨s, intends, rfl⟩
      cases intends with
      | @confVertex a1 a2 v t order here there =>
        obtain ⟨present1, window1⟩ := draws.covers here
        obtain ⟨present2, window2⟩ := draws.covers there
        exact ⟨v, here.2.1, a1, here.1, present1, a2, ⟨order, there.1⟩, present2, t, by omega, rfl⟩
  owned s intends := by
    cases intends with
    | confVertex order here there => simp [draws.owned here, draws.owned there]

theorem createConfSwappingAt_speaks (draws : l.DrawsPositions) (windows : l.encoder.Windows) :
    l.Speaks (fun s => Intends l.encoder.outline .createConfSwappingAt (.clause s))
      l.encoder.createConfSwappingAt where
  writes c := by
    simp only [Encoder.createConfSwappingAt, List.mem_flatMap, List.mem_ite_nil_left, List.mem_map,
      List.mem_range, List.Ico.mem, Int.mem_range_iff, Prod.exists, Grid.mem_neighbors_iff, not_or]
    constructor
    · rintro ⟨v, vertex, dir, u, ⟨moves, next⟩, a1, agent1, present1, a2, ⟨order, agent2⟩, present2,
        t, inside, rfl⟩
      have vertex' := windows.neighbor_lt vertex next
      exact ⟨_, .confSwappingAt moves next order
        (draws.position_iff.mpr ⟨agent1, vertex, present1.1, by omega, by omega⟩)
        (draws.position_iff.mpr ⟨agent1, vertex', present1.2, by omega, by omega⟩)
        (draws.position_iff.mpr ⟨agent2, vertex, present2.2, by omega, by omega⟩)
        (draws.position_iff.mpr ⟨agent2, vertex', present2.1, by omega, by omega⟩), rfl⟩
    · rintro ⟨s, intends, rfl⟩
      cases intends with
      | @confSwappingAt a1 a2 v u dir t moves next order here here' there' there =>
        obtain ⟨present, window⟩ := draws.covers here
        obtain ⟨present', window'⟩ := draws.covers here'
        obtain ⟨present2', window2'⟩ := draws.covers there'
        obtain ⟨present2, window2⟩ := draws.covers there
        exact ⟨v, here.2.1, dir, u, ⟨moves, next⟩, a1, here.1, ⟨present, present'⟩, a2,
          ⟨order, there.1⟩, ⟨present2, present2'⟩, t, by omega, rfl⟩
  owned s intends := by
    cases intends with
    | confSwappingAt _ _ _ here here' there' there =>
      simp [draws.owned here, draws.owned here', draws.owned there', draws.owned there]

theorem createConfSwappingPass_speaks (draws : l.DrawsPasses) (windows : l.encoder.Windows) :
    l.Speaks (fun s => Intends l.encoder.outline .createConfSwappingPass (.clause s))
      l.encoder.createConfSwappingPass where
  writes c := by
    simp only [Encoder.createConfSwappingPass, List.mem_flatMap, List.mem_ite_nil_left,
      List.mem_map, List.mem_range, List.Ico.mem, Int.mem_range_iff, Prod.exists,
      Grid.mem_neighbors_iff]
    constructor
    · rintro ⟨v, vertex, dir, u, ⟨moves, next⟩, a1, agent1, present1, a2, ⟨order, agent2⟩, present2,
        t, inside, rfl⟩
      exact ⟨_, .confSwappingPass moves next order
        (draws.pass_iff.mpr ⟨agent1, vertex, present1, by omega, by omega⟩)
        (draws.pass_iff.mpr ⟨agent2, windows.neighbor_lt vertex next, present2, by omega, by omega⟩),
        rfl⟩
    · rintro ⟨s, intends, rfl⟩
      cases intends with
      | @confSwappingPass a1 a2 v u dir t moves next order forth back =>
        obtain ⟨present1, window1⟩ := draws.covers forth
        obtain ⟨present2, window2⟩ := draws.covers back
        exact ⟨v, forth.2.1, dir, u, ⟨moves, next⟩, a1, forth.1, present1, a2, ⟨order, back.1⟩,
          present2, t, by omega, rfl⟩
  owned s intends := by
    cases intends with
    | confSwappingPass _ _ _ forth back => simp [draws.owned forth, draws.owned back]

theorem createConfSwappingShift_speaks (draws : l.DrawsShifts) (windows : l.encoder.Windows) :
    l.Speaks (fun s => Intends l.encoder.outline .createConfSwappingShift (.clause s))
      l.encoder.createConfSwappingShift where
  writes c := by
    simp only [Encoder.createConfSwappingShift, List.mem_flatMap, List.mem_map, List.mem_range,
      Prod.exists, Grid.mem_neighbors_iff, Option.mem_toList]
    constructor
    · rintro ⟨v, vertex, dir, u, ⟨half, next⟩, t, x, entry, y, found, rfl⟩
      rw [Shift.mem_entries_iff (draws.ready.nodup v vertex dir)] at entry
      obtain ⟨forth, rfl⟩ := draws.of_found vertex entry
      obtain ⟨back, rfl⟩ := draws.of_found (windows.neighbor_lt vertex next) found
      exact ⟨_, .confSwappingShift half next forth back, rfl⟩
    · rintro ⟨s, intends, rfl⟩
      cases intends with
      | @confSwappingShift v u dir t half next forth back =>
        refine ⟨v, forth.1, dir, u, ⟨half, next⟩, t, _, ?_, _, draws.found back, rfl⟩
        exact (Shift.mem_entries_iff (draws.ready.nodup v forth.1 dir)).mpr (draws.found forth)
  owned s intends := by
    cases intends with
    | confSwappingShift _ _ forth back => simp [draws.owned forth, draws.owned back]

theorem createConfPebbleAt_speaks (draws : l.DrawsPositions) :
    l.Speaks (fun s => Intends l.encoder.outline .createConfPebbleAt (.clause s))
      l.encoder.createConfPebbleAt where
  writes c := by
    simp only [Encoder.createConfPebbleAt, List.mem_flatMap, List.mem_ite_nil_left, List.mem_map,
      List.mem_range, Int.mem_range_iff, not_or]
    constructor
    · rintro ⟨v, vertex, a1, agent1, present1, a2, agent2, ⟨distinct, present2⟩, t, inside, rfl⟩
      exact ⟨_, .confPebbleAt distinct
        (draws.position_iff.mpr ⟨agent1, vertex, present1, by omega, by omega⟩)
        (draws.position_iff.mpr ⟨agent2, vertex, present2, by omega, by omega⟩), rfl⟩
    · rintro ⟨s, intends, rfl⟩
      cases intends with
      | @confPebbleAt a1 a2 v t distinct here before =>
        obtain ⟨present1, window1⟩ := draws.covers here
        obtain ⟨present2, window2⟩ := draws.covers before
        exact ⟨v, here.2.1, a1, here.1, present1, a2, before.1, ⟨distinct, present2⟩, t, by omega,
          rfl⟩
  owned s intends := by
    cases intends with
    | confPebbleAt _ here before => simp [draws.owned here, draws.owned before]

theorem createConfPebblePass_speaks (draws : l.DrawsPositions) (drawsPass : l.DrawsPasses)
    (windows : l.encoder.Windows) :
    l.Speaks (fun s => Intends l.encoder.outline .createConfPebblePass (.clause s))
      l.encoder.createConfPebblePass where
  writes c := by
    simp only [Encoder.createConfPebblePass, List.mem_flatMap, List.mem_ite_nil_left,
      List.mem_map, List.mem_range, Int.mem_range_iff, Prod.exists, Grid.mem_neighbors_iff, not_or]
    constructor
    · rintro ⟨v, vertex, dir, u, ⟨moves, next⟩, a1, agent1, present1, a2, agent2,
        ⟨distinct, present2⟩, t, inside, rfl⟩
      exact ⟨_, .confPebblePass moves next distinct
        (drawsPass.pass_iff.mpr ⟨agent1, vertex, present1, by omega, by omega⟩)
        (draws.position_iff.mpr
          ⟨agent2, windows.neighbor_lt vertex next, present2, by omega, by omega⟩), rfl⟩
    · rintro ⟨s, intends, rfl⟩
      cases intends with
      | @confPebblePass a1 a2 v u dir t moves next distinct forth there =>
        obtain ⟨present1, window1⟩ := drawsPass.covers forth
        obtain ⟨present2, window2⟩ := draws.covers there
        exact ⟨v, forth.2.1, dir, u, ⟨moves, next⟩, a1, forth.1, present1, a2, there.1,
          ⟨distinct, present2⟩, t, by omega, rfl⟩
  owned s intends := by
    cases intends with
    | confPebblePass _ _ _ forth there => simp [drawsPass.owned forth, draws.owned there]

theorem createConfPebbleShift_speaks (draws : l.DrawsShifts) (windows : l.encoder.Windows) :
    l.Speaks (fun s => Intends l.encoder.outline .createConfPebbleShift (.clause s))
      l.encoder.createConfPebbleShift where
  writes c := by
    simp only [Encoder.createConfPebbleShift, List.mem_flatMap, List.mem_map, List.mem_range,
      Prod.exists, Grid.mem_neighbors_iff, Option.mem_toList]
    constructor
    · rintro ⟨v, vertex, dir, u, ⟨-, next⟩, t, x, entry, uDir, moves, y, found, rfl⟩
      rw [Shift.mem_entries_iff (draws.ready.nodup v vertex dir)] at entry
      obtain ⟨into, rfl⟩ := draws.of_found vertex entry
      obtain ⟨away, rfl⟩ := draws.of_found (windows.neighbor_lt vertex next) found
      exact ⟨_, .confPebbleShift next into moves away, rfl⟩
    · rintro ⟨s, intends, rfl⟩
      cases intends with
      | @confPebbleShift v u dir uDir t next into moves away =>
        refine ⟨v, into.1, dir, u, ⟨Dir.mem_all dir, next⟩, t, _, ?_, uDir, moves, _,
          draws.found away, rfl⟩
        exact (Shift.mem_entries_iff (draws.ready.nodup v into.1 dir)).mpr (draws.found into)
  owned s intends := by
    cases intends with
    | confPebbleShift _ into _ away => simp [draws.owned into, draws.owned away]

end Layout

end MAPFEncodings

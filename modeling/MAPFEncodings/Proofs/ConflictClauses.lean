import MAPFEncodings.Proofs.Readings

/-! # The meaning of the eager conflict clauses

Each generator is a nest of loops which clips its time range to the entries involved. Its clauses
say that the excluded combination of variables is never true, wherever those variables exist.
-/

namespace MAPFEncodings

open Cnf

namespace Encoder

variable {e : Encoder} {L : ℕ → ℕ} {hi : ℤ}

theorem createConfVertex_expresses (ready : e.AtReady hi) :
    Expresses hi e.createConfVertex fun σ => ∀ a < e.agents, ∀ b < e.agents, a ≠ b →
      ∀ v < e.vertices, ∀ t, ¬(e.At σ a v t ∧ e.At σ b v t) := by
  refine (Expresses.flatMap fun v memV => .flatMap fun a memA => .skip fun someA =>
    .flatMap fun b memB => .skip fun someB => .map fun t memT =>
    .exclude (ready.isVar a ?_ v ?_ t ?_) (ready.isVar b ?_ v ?_ t ?_)).congr fun σ => ?_
  all_goals simp only [List.mem_range, List.Ico.mem, Int.mem_range_iff] at *
  · exact memA
  · exact memV
  · exact ⟨someA, by omega, by omega⟩
  · exact memB.2
  · exact memV
  · exact ⟨someB, by omega, by omega⟩
  · rw [← forall_pairs_iff fun a b apart v boundV t both => apart v boundV t both.symm]
    simp only [List.mem_range, List.Ico.mem]
    constructor
    · rintro all a boundA b boundB v boundV t ⟨⟨coversA, holdsA⟩, coversB, holdsB⟩
      have windowA := coversA.2
      have windowB := coversB.2
      exact all v boundV a boundA coversA.1 b boundB coversB.1 t (by omega) ⟨holdsA, holdsB⟩
    · rintro all v boundV a boundA someA b boundB someB t bounds ⟨holdsA, holdsB⟩
      exact all a boundA b boundB v boundV t
        ⟨⟨⟨someA, by omega, by omega⟩, holdsA⟩, ⟨someB, by omega, by omega⟩, holdsB⟩

/-! ## Swapping -/

theorem createConfSwappingAt_expresses (windows : e.Windows) (ready : e.AtReady hi) :
    Expresses hi e.createConfSwappingAt fun σ => ∀ a < e.agents, ∀ b < e.agents, a ≠ b →
      ∀ v < e.vertices, ∀ dir u, dir ≠ .wait → e.inst.getNeighbor v dir = some u → ∀ t,
        ¬((e.At σ a v t ∧ e.At σ a u (t + 1)) ∧ e.At σ b u t ∧ e.At σ b v (t + 1)) := by
  refine (Expresses.flatMap fun v memV => .flatMap fun p memP => .flatMap fun a memA =>
    .skip fun someA => .flatMap fun b memB => .skip fun someB => .map fun t memT =>
    .exclude_four (ready.isVar a ?_ v ?_ t ?_) (ready.isVar a ?_ p.2 ?_ (t + 1) ?_)
      (ready.isVar b ?_ v ?_ (t + 1) ?_) (ready.isVar b ?_ p.2 ?_ t ?_)).congr fun σ => ?_
  all_goals simp only [List.mem_range, List.Ico.mem, Int.mem_range_iff, Grid.mem_neighbors_iff,
    Dir.mem_moves_iff, not_or] at *
  · exact memA
  · exact memV
  · exact ⟨someA.1, by omega, by omega⟩
  · exact memA
  · exact windows.neighbor_lt memV memP.2
  · exact ⟨someA.2, by omega, by omega⟩
  · exact memB.2
  · exact memV
  · exact ⟨someB.2, by omega, by omega⟩
  · exact memB.2
  · exact windows.neighbor_lt memV memP.2
  · exact ⟨someB.1, by omega, by omega⟩
  · rw [← forall_pairs_iff fun a b apart v boundV dir u moves next t both => by
      exact apart u (windows.neighbor_lt boundV next) (oppositeDir dir) v (by simpa using moves)
        (windows.opposite boundV next) t both.symm]
    simp only [List.mem_range, List.Ico.mem]
    constructor
    · rintro all a boundA b boundB v boundV dir u moves next t
        ⟨⟨⟨coversAV, holdsAV⟩, coversAU, holdsAU⟩, ⟨coversBU, holdsBU⟩, coversBV, holdsBV⟩
      have windowAV := coversAV.2
      have windowAU := coversAU.2
      have windowBU := coversBU.2
      have windowBV := coversBV.2
      exact all v boundV (dir, u) ⟨moves, next⟩ a boundA ⟨coversAV.1, coversAU.1⟩ b boundB
        ⟨coversBU.1, coversBV.1⟩ t (by dsimp only; omega) ⟨holdsAV, holdsAU, holdsBV, holdsBU⟩
    · rintro all v boundV ⟨dir, u⟩ ⟨moves, next⟩ a boundA someA b boundB someB t bounds
        ⟨holdsAV, holdsAU, holdsBV, holdsBU⟩
      dsimp only at bounds someA someB
      exact all a boundA b boundB v boundV dir u moves next t
        ⟨⟨⟨⟨someA.1, by omega, by omega⟩, holdsAV⟩, ⟨someA.2, by omega, by omega⟩, holdsAU⟩,
          ⟨⟨someB.1, by omega, by omega⟩, holdsBU⟩, ⟨someB.2, by omega, by omega⟩, holdsBV⟩

theorem createConfSwappingPass_expresses (windows : e.Windows) (ready : e.PassReady hi) :
    Expresses hi e.createConfSwappingPass fun σ => ∀ a < e.agents, ∀ b < e.agents, a ≠ b →
      ∀ v < e.vertices, ∀ dir u, dir ≠ .wait → e.inst.getNeighbor v dir = some u →
        ∀ t, ¬(e.Pass σ a v dir t ∧ e.Pass σ b u (oppositeDir dir) t) := by
  refine (Expresses.flatMap fun v memV => .flatMap fun p memP => .flatMap fun a memA =>
    .skip fun someA => .flatMap fun b memB => .skip fun someB => .map fun t memT =>
    .exclude (ready.isVar a ?_ v ?_ p.1 t ?_) (ready.isVar b ?_ p.2 ?_ _ t ?_)).congr fun σ => ?_
  all_goals simp only [List.mem_range, List.Ico.mem, Int.mem_range_iff, Grid.mem_neighbors_iff,
    Dir.mem_moves_iff] at *
  · exact memA
  · exact memV
  · exact ⟨someA, by omega, by omega⟩
  · exact memB.2
  · exact windows.neighbor_lt memV memP.2
  · exact ⟨someB, by omega, by omega⟩
  · rw [← forall_pairs_iff fun a b apart v boundV dir u moves next t both => by
      have back := apart u (windows.neighbor_lt boundV next) (oppositeDir dir) v
        (by simpa using moves) (windows.opposite boundV next) t
      rw [Dir.oppositeDir_oppositeDir] at back
      exact back both.symm]
    simp only [List.mem_range, List.Ico.mem]
    constructor
    · rintro all a boundA b boundB v boundV dir u moves next t ⟨⟨coversA, holdsA⟩, coversB, holdsB⟩
      have windowA := coversA.2
      have windowB := coversB.2
      exact all v boundV (dir, u) ⟨moves, next⟩ a boundA coversA.1 b boundB coversB.1 t
        (by dsimp only; omega) ⟨holdsA, holdsB⟩
    · rintro all v boundV ⟨dir, u⟩ ⟨moves, next⟩ a boundA someA b boundB someB t bounds
        ⟨holdsA, holdsB⟩
      dsimp only at bounds someA someB
      exact all a boundA b boundB v boundV dir u moves next t
        ⟨⟨⟨someA, by omega, by omega⟩, holdsA⟩, ⟨someB, by omega, by omega⟩, holdsB⟩

/-- Looking south and west is enough to see every edge. -/
theorem createConfSwappingShift_expresses (windows : e.Windows) (ready : e.ShiftReady hi) :
    Expresses hi e.createConfSwappingShift fun σ => ∀ v < e.vertices, ∀ dir u, dir ≠ .wait →
      e.inst.getNeighbor v dir = some u →
        ∀ t, ¬(e.Shifts σ v dir t ∧ e.Shifts σ u (oppositeDir dir) t) := by
  refine (Expresses.flatMap fun v memV => .flatMap fun (p : Dir × ℕ) memP =>
    .flatMap fun (q : ℤ × ℤ) memQ =>
    .map fun x found => .exclude (ready.isVar v ?_ p.1 q.1 q.2 ?_)
      (ready.isVar p.2 ?_ (oppositeDir p.1) q.1 x ?_)).congr fun σ => ?_
  all_goals simp only [List.mem_range, Grid.mem_neighbors_iff, Option.mem_toList] at *
  · exact memV
  · exact (Shift.mem_entries_iff (ready.nodup v memV p.1)).mp memQ
  · exact windows.neighbor_lt memV memP.2
  · exact found
  · constructor
    · intro all
      have half : ∀ v < e.vertices, ∀ dir ∈ [Dir.south, .west], ∀ u,
          e.inst.getNeighbor v dir = some u →
          ∀ t, ¬(e.Shifts σ v dir t ∧ e.Shifts σ u (oppositeDir dir) t) := by
        rintro v boundV dir member u next t ⟨⟨x, found, holds⟩, y, found', holds'⟩
        exact all v boundV (dir, u) ⟨member, next⟩ (t, x)
          ((Shift.mem_entries_iff (ready.nodup v boundV dir)).mpr found) y found' ⟨holds, holds'⟩
      rintro v boundV dir u moves next t both
      have other := half u (windows.neighbor_lt boundV next) (oppositeDir dir)
      cases dir with
      | wait => exact moves rfl
      | south => exact half v boundV .south (by simp) u next t both
      | west => exact half v boundV .west (by simp) u next t both
      | north => exact other (by simp [oppositeDir]) v (windows.opposite boundV next) t both.symm
      | east => exact other (by simp [oppositeDir]) v (windows.opposite boundV next) t both.symm
    · rintro all v boundV ⟨dir, u⟩ ⟨member, next⟩ ⟨t, x⟩ inside y found ⟨holds, holds'⟩
      have moves : dir ≠ .wait := by rintro rfl; simp at member
      exact all v boundV dir u moves next t
        ⟨⟨x, (Shift.mem_entries_iff (ready.nodup v boundV dir)).mp inside, holds⟩, y, found, holds'⟩

/-! ## Pebble motion -/

theorem createConfPebbleAt_expresses (ready : e.AtReady hi) :
    Expresses hi e.createConfPebbleAt fun σ => ∀ a < e.agents, ∀ b < e.agents, a ≠ b →
      ∀ v < e.vertices, ∀ t, ¬(e.At σ a v t ∧ e.At σ b v (t - 1)) := by
  refine (Expresses.flatMap fun v memV => .flatMap fun a memA => .skip fun someA =>
    .flatMap fun b memB => .skip fun someB => .map fun t memT =>
    .exclude (ready.isVar a ?_ v ?_ t ?_) (ready.isVar b ?_ v ?_ (t - 1) ?_)).congr fun σ => ?_
  all_goals simp only [List.mem_range, Int.mem_range_iff, not_or] at *
  · exact memA
  · exact memV
  · exact ⟨someA, by omega, by omega⟩
  · exact memB
  · exact memV
  · exact ⟨someB.2, by omega, by omega⟩
  · constructor
    · rintro all a boundA b boundB distinct v boundV t ⟨⟨coversA, holdsA⟩, coversB, holdsB⟩
      have windowA := coversA.2
      have windowB := coversB.2
      exact all v boundV a boundA coversA.1 b boundB ⟨distinct, coversB.1⟩ t (by omega)
        ⟨holdsA, holdsB⟩
    · rintro all v boundV a boundA someA b boundB someB t bounds ⟨holdsA, holdsB⟩
      exact all a boundA b boundB someB.1 v boundV t
        ⟨⟨⟨someA, by omega, by omega⟩, holdsA⟩, ⟨someB.2, by omega, by omega⟩, holdsB⟩

theorem createConfPebblePass_expresses (windows : e.Windows) {lo : ℤ} (readyAt : e.AtReady lo)
    (ready : e.PassReady hi) (le : lo ≤ hi) :
    Expresses hi e.createConfPebblePass fun σ => ∀ a < e.agents, ∀ b < e.agents, a ≠ b →
      ∀ v < e.vertices, ∀ dir u, dir ≠ .wait → e.inst.getNeighbor v dir = some u →
        ∀ t, ¬(e.Pass σ a v dir t ∧ e.At σ b u t) := by
  refine (Expresses.flatMap fun v memV => .flatMap fun p memP => .flatMap fun a memA =>
    .skip fun someA => .flatMap fun b memB => .skip fun someB => .map fun t memT =>
    .exclude (ready.isVar a ?_ v ?_ p.1 t ?_)
      ((readyAt.isVar b ?_ p.2 ?_ t ?_).mono le)).congr fun σ => ?_
  all_goals simp only [List.mem_range, Int.mem_range_iff, Grid.mem_neighbors_iff,
    Dir.mem_moves_iff, not_or] at *
  · exact memA
  · exact memV
  · exact ⟨someA, by omega, by omega⟩
  · exact memB
  · exact windows.neighbor_lt memV memP.2
  · exact ⟨someB.2, by omega, by omega⟩
  · constructor
    · rintro all a boundA b boundB distinct v boundV dir u moves next t
        ⟨⟨coversA, holdsA⟩, coversB, holdsB⟩
      have windowA := coversA.2
      have windowB := coversB.2
      exact all v boundV (dir, u) ⟨moves, next⟩ a boundA coversA.1 b boundB ⟨distinct, coversB.1⟩ t
        (by dsimp only; omega) ⟨holdsA, holdsB⟩
    · rintro all v boundV ⟨dir, u⟩ ⟨moves, next⟩ a boundA someA b boundB someB t bounds
        ⟨holdsA, holdsB⟩
      dsimp only at bounds someA someB
      exact all a boundA b boundB someB.1 v boundV dir u moves next t
        ⟨⟨⟨someA, by omega, by omega⟩, holdsA⟩, ⟨someB.2, by omega, by omega⟩, holdsB⟩

theorem createConfPebbleShift_expresses (windows : e.Windows) (ready : e.ShiftReady hi) :
    Expresses hi e.createConfPebbleShift fun σ => ∀ v < e.vertices, ∀ dir u,
      e.inst.getNeighbor v dir = some u → ∀ uDir, uDir ≠ .wait →
        ∀ t, ¬(e.Shifts σ v dir t ∧ e.Shifts σ u uDir t) := by
  refine (Expresses.flatMap fun v memV => .flatMap fun (p : Dir × ℕ) memP =>
    .flatMap fun (q : ℤ × ℤ) memQ =>
    .flatMap fun uDir memU => .map fun x found => .exclude (ready.isVar v ?_ p.1 q.1 q.2 ?_)
      (ready.isVar p.2 ?_ uDir q.1 x ?_)).congr fun σ => ?_
  all_goals simp only [List.mem_range, Grid.mem_neighbors_iff, Dir.mem_moves_iff, Dir.mem_all,
    true_and, Option.mem_toList] at *
  · exact memV
  · exact (Shift.mem_entries_iff (ready.nodup v memV p.1)).mp memQ
  · exact windows.neighbor_lt memV memP
  · exact found
  · constructor
    · rintro all v boundV dir u next uDir moves t ⟨⟨x, found, holds⟩, y, found', holds'⟩
      exact all v boundV (dir, u) next (t, x)
        ((Shift.mem_entries_iff (ready.nodup v boundV dir)).mpr found) uDir moves y found'
        ⟨holds, holds'⟩
    · rintro all v boundV ⟨dir, u⟩ next ⟨t, x⟩ inside uDir moves y found ⟨holds, holds'⟩
      exact all v boundV dir u next uDir moves t
        ⟨⟨x, (Shift.mem_entries_iff (ready.nodup v boundV dir)).mp inside, holds⟩, y, found, holds'⟩

end Encoder

end MAPFEncodings

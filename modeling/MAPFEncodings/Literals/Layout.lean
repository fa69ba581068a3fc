import MAPFEncodings.Literals.Objects
import MAPFEncodings.Proofs.CostClauses

/-! # Which variables belong to which objects

A formula draws its variables in stages, each of which continues where the one before has stopped.
A `Layout` records these ends, and with the tables it determines the variable of every object.
-/

namespace MAPFEncodings

open Cnf

namespace Encoder

variable (e : Encoder) (lib : Externals)

/-- The body of the loop over timesteps of `CreateMove_NoDuplicates`. -/
def duplicateStep (a : ℕ) (lit t : ℤ) : List Clause × ℤ :=
  if 1 < (e.positionsAt a t).length then
    ((lib.encodeAtMostK (e.positionsAt a t) 1 lit).2,
      (lib.encodeAtMostK (e.positionsAt a t) 1 lit).1 + 1)
  else ([], lit)

/-- The body of the loop over agents of `CreateMove_NoDuplicates`. -/
def duplicateRow (lit : ℤ) (a : ℕ) : List Clause × ℤ :=
  let times := List.mapState (e.duplicateStep lib a) lit (Int.range 0 e.maxTimestep)
  (times.1.flatten, times.2)

theorem createMoveNoDuplicates_eq (lit : ℤ) : e.createMoveNoDuplicates lib lit =
    ((List.mapState (e.duplicateRow lib) lit (List.range e.agents)).1.flatten,
      (List.mapState (e.duplicateRow lib) lit (List.range e.agents)).2) := rfl

/-- The next unused variable when `CreateMove_NoDuplicates` gets to an agent and a timestep. -/
def duplicateCall (lit : ℤ) (a t : ℕ) : ℤ :=
  (List.mapState (e.duplicateStep lib a)
    (List.mapState (e.duplicateRow lib) lit (List.range a)).2 (Int.range 0 t)).2

/-- The auxiliary variables of `CreateMove_NoDuplicates`. -/
def HasDuplicate (lit : ℤ) (key : ℕ × ℕ × ℕ) (x : ℤ) : Prop :=
  (key.1 < e.agents ∧ (key.2.1 : ℤ) < e.maxTimestep) ∧
    e.duplicateCall lib lit key.1 key.2.1 + key.2.2 = x ∧
      x < (e.duplicateStep lib key.1 (e.duplicateCall lib lit key.1 key.2.1) key.2.1).2

end Encoder

/-- The stages in which a formula draws its variables. Each stage ends where the next one starts. -/
structure Layout where
  encoder : Encoder
  lib : Externals
  start : ℤ
  positions : ℤ
  passes : ℤ
  shifts : ℤ
  reaches : ℤ
  duplicates : ℤ
  lates : ℤ
  bounds : ℤ

namespace Layout

variable (l : Layout)

/-- The variable of an object. -/
def number : Object → ℤ
  | .position a v t => (l.encoder.atEntry a v).var t
  | .pass a v dir t => (l.encoder.passEntry a v dir).var t
  | .shift v dir t => ((l.encoder.shiftEntry v dir).var? t).getD 0
  | .reach a => l.shifts + a
  | .duplicate a t i => l.encoder.duplicateCall l.lib l.reaches a t + i
  | .late a d => l.encoder.lateVar l.duplicates a d
  | .bound i => l.lates + i

/-- The object has been given a variable `x`, in the stage for such objects. -/
def Has : Object → ℤ → Prop
  | .position a v t, x => l.encoder.HasAt (a, v, t) x ∧ l.start ≤ x ∧ x < l.positions
  | .pass a v dir t, x => l.encoder.HasPass (a, v, dir, t) x ∧ l.positions ≤ x ∧ x < l.passes
  | .shift v dir t, x => l.encoder.HasShift (v, dir, t) x ∧ l.passes ≤ x ∧ x < l.shifts
  | .reach a, x => l.shifts + a = x ∧ x < l.reaches
  | .duplicate a t i, x => l.encoder.HasDuplicate l.lib l.reaches (a, t, i) x ∧
      l.reaches ≤ x ∧ x < l.duplicates
  | .late a d, x => (a < l.encoder.agents ∧ d < l.encoder.delta ∧
      l.encoder.lateVar l.duplicates a d = x) ∧ l.duplicates ≤ x ∧ x < l.lates
  | .bound i, x => l.lates + i = x ∧ x < l.bounds

/-- The object has a variable. -/
def Owned (x : Object) : Prop := l.Has x (l.number x)

/-- Every stage draws its variables from where the one before has stopped, or draws none. -/
structure Staged : Prop where
  pos : 1 ≤ l.start
  positions : l.start ≤ l.positions ∧
    (l.start < l.positions → Allocates l.encoder.HasAt l.start l.positions)
  passes : l.positions ≤ l.passes ∧
    (l.positions < l.passes → Allocates l.encoder.HasPass l.positions l.passes)
  shifts : l.passes ≤ l.shifts ∧
    (l.passes < l.shifts → Allocates l.encoder.HasShift l.passes l.shifts)
  reaches : l.shifts ≤ l.reaches
  duplicates : l.reaches ≤ l.duplicates ∧ (l.reaches < l.duplicates →
    Allocates (l.encoder.HasDuplicate l.lib l.reaches) l.reaches l.duplicates)
  lates : l.duplicates ≤ l.lates ∧
    (l.duplicates < l.lates → l.lates = l.duplicates + (l.encoder.agents : ℤ) * l.encoder.delta)
  bounds : l.lates ≤ l.bounds

private def key : Object → (ℕ × ℕ × ℤ) ⊕ (ℕ × ℕ × Dir × ℤ) ⊕ (ℕ × Dir × ℤ) ⊕ ℕ ⊕ (ℕ × ℕ × ℕ) ⊕
    (ℕ × ℕ) ⊕ ℕ
  | .position a v t => .inl (a, v, t)
  | .pass a v dir t => .inr (.inl (a, v, dir, t))
  | .shift v dir t => .inr (.inr (.inl (v, dir, t)))
  | .reach a => .inr (.inr (.inr (.inl a)))
  | .duplicate a t i => .inr (.inr (.inr (.inr (.inl (a, t, i)))))
  | .late a d => .inr (.inr (.inr (.inr (.inr (.inl (a, d))))))
  | .bound i => .inr (.inr (.inr (.inr (.inr (.inr i)))))

private theorem key_injective : Function.Injective key := by
  intro x y same
  cases x <;> cases y <;> simp_all [key]

variable {l}

/-- Distinct objects have distinct variables. -/
theorem Staged.allocates (staged : l.Staged) : Allocates l.Has l.start l.bounds := by
  have lates : l.duplicates < l.lates → Allocates (fun (key : ℕ × ℕ) x =>
      key.1 < l.encoder.agents ∧ key.2 < l.encoder.delta ∧
        l.encoder.lateVar l.duplicates key.1 key.2 = x) l.duplicates l.lates := by
    intro some
    rw [staged.lates.2 some]
    exact Encoder.allocates_lateVar l.encoder l.duplicates
  have all := (Allocates.within staged.positions.2 staged.positions.1).sum <|
    (Allocates.within staged.passes.2 staged.passes.1).sum <|
    (Allocates.within staged.shifts.2 staged.shifts.1).sum <|
    (Allocates.interval staged.reaches).sum <|
    (Allocates.within staged.duplicates.2 staged.duplicates.1).sum <|
    (Allocates.within lates staged.lates.1).sum <| Allocates.interval staged.bounds
  apply all.comap key key_injective
  rintro (⟨a, v, t⟩ | ⟨a, v, dir, t⟩ | ⟨v, dir, t⟩ | a | ⟨a, t, i⟩ | ⟨a, d⟩ | i) x has <;> exact has

theorem Staged.isVar (staged : l.Staged) {x : Object} (owned : l.Owned x) :
    IsVar l.bounds (l.number x) := by
  have bounds := staged.allocates.bounds owned
  exact ⟨zero_lt_one.trans_le (staged.pos.trans bounds.1), bounds.2⟩

end Layout

end MAPFEncodings

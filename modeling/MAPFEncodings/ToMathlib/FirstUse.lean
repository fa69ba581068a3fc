import Mathlib.Logic.Relation
import Mathlib.Tactic.NormNum

/-! # Numbers given on first use

A dictionary gives each new key the next free number, so that numbers are never shared and never
change. A graph on keys has the same paths as the graph which is written with their numbers.
-/

namespace FirstUse

variable {κ : Type*} [DecidableEq κ]

/-- Every number is below the next free one and belongs to one key. -/
structure Interned (dict : List (κ × ℕ)) (fresh : ℕ) : Prop where
  lt : ∀ {k i}, dict.lookup k = some i → i < fresh
  inj : ∀ {k k' i}, dict.lookup k = some i → dict.lookup k' = some i → k = k'

/-- A later dictionary keeps the numbers of an earlier one. -/
def Keeps (dict later : List (κ × ℕ)) : Prop :=
  ∀ {k i}, dict.lookup k = some i → later.lookup k = some i

theorem Keeps.trans {first second third : List (κ × ℕ)} (before : Keeps first second)
    (after : Keeps second third) : Keeps first third := fun found => after (before found)

theorem Interned.nil : Interned ([] : List (κ × ℕ)) 0 where
  lt found := by simp at found
  inj found := by simp at found

theorem keeps_cons {dict : List (κ × ℕ)} {key : κ} (i : ℕ) (unknown : dict.lookup key = none) :
    Keeps dict ((key, i) :: dict) := by
  intro k j found
  have other : k ≠ key := by
    rintro rfl
    rw [unknown] at found
    cases found
  rw [List.lookup_cons, beq_false_of_ne other]
  exact found

/-- A new key takes the next free number. -/
theorem Interned.cons {dict : List (κ × ℕ)} {fresh : ℕ} (interned : Interned dict fresh) (key : κ) :
    Interned ((key, fresh) :: dict) (fresh + 1) := by
  have lookup (k : κ) : List.lookup k ((key, fresh) :: dict) =
      if k = key then some fresh else dict.lookup k := by
    by_cases same : k = key
    · simp [same]
    · simp [List.lookup_cons, beq_false_of_ne same, same]
  constructor
  · intro k i found
    rw [lookup] at found
    split at found
    · cases found
      omega
    · exact (interned.lt found).trans (Nat.lt_succ_self fresh)
  · intro k k' i found found'
    rw [lookup] at found found'
    split at found <;> split at found'
    · next same same' => exact same.trans same'.symm
    · cases found
      exact absurd (interned.lt found') (lt_irrefl _)
    · cases found'
      exact absurd (interned.lt found) (lt_irrefl _)
    · exact interned.inj found found'

omit [DecidableEq κ] in
/-- Paths between numbered keys are paths between their numbers. -/
theorem reflTransGen_iff {number : κ → Option ℕ} {R : κ → κ → Prop} {S : ℕ → ℕ → Prop}
    (inj : ∀ {k k' i}, number k = some i → number k' = some i → k = k')
    (edges : ∀ m n, S m n ↔ ∃ k k', R k k' ∧ number k = some m ∧ number k' = some n)
    (numbered : ∀ k k', R k k' → ∃ m, number k = some m) {k k' : κ} {m n : ℕ}
    (source : number k = some m) (target : number k' = some n) :
    Relation.ReflTransGen S m n ↔ Relation.ReflTransGen R k k' := by
  constructor
  · intro path
    induction path generalizing k' with
    | refl => rw [inj source target]
    | tail _ edge ih =>
      obtain ⟨l, l', step, first, last⟩ := (edges _ _).mp edge
      rw [inj target last]
      exact (ih first).tail step
  · intro path
    induction path generalizing n with
    | refl =>
      rw [Option.some.inj (source.symm.trans target)]
    | tail _ step ih =>
      obtain ⟨l, first⟩ := numbered _ _ step
      exact (ih first).tail ((edges _ _).mpr ⟨_, _, step, first, target⟩)

end FirstUse

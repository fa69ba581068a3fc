import Mathlib.Order.OrderIsoNat

/-! # Runs without end

Two rules by which a transition relation has no infinite run: every step spends a part of a budget,
or the steps pass through finitely many phases and no run stays in one of them.
-/

namespace Termination

variable {S : Type*} {step : S → S → Prop} {s : S}

/-- A run which goes on for ever. -/
def Endless (step : S → S → Prop) (s : S) : Prop :=
  ∃ run : ℕ → S, run 0 = s ∧ ∀ n, step (run n) (run (n + 1))

theorem not_endless_iff : ¬Endless step s ↔ Acc (flip step) s := by
  rw [not_iff_comm, not_acc_iff_exists_descending_chain]
  rfl

theorem not_endless_of_budget (inv : S → Prop) (budget : S → ℕ)
    (preserved : ∀ s t, inv s → step s t → inv t)
    (spends : ∀ s t, inv s → step s t → budget t < budget s) (start : inv s) :
    ¬Endless step s := by
  rw [not_endless_iff]
  induction left : budget s using Nat.strong_induction_on generalizing s with
  | _ n ih =>
    subst left
    constructor
    intro t next
    exact ih _ (spends s t start next) (preserved s t start next) rfl

theorem not_endless_of_phases (inv : S → Prop) (phase : S → ℕ) (last : ℕ)
    (preserved : ∀ s t, inv s → step s t → inv t)
    (advances : ∀ s t, inv s → step s t → phase s ≤ phase t) (le : ∀ s, inv s → phase s ≤ last)
    (leaves : ∀ s, inv s → ¬Endless (fun s t => step s t ∧ phase t = phase s) s) (start : inv s) :
    ¬Endless step s := by
  rw [not_endless_iff]
  induction left : last - phase s using Nat.strong_induction_on generalizing s with
  | _ n outer =>
    subst left
    have within := not_endless_iff.mp (leaves s start)
    induction within with
    | intro s _ inner =>
      constructor
      intro t next
      have inv' := preserved s t start next
      rcases (advances s t start next).eq_or_lt with same | later
      · apply inner t ⟨next, same.symm⟩ inv'
        rw [← same]
        exact outer
      · refine outer _ ?_ inv' rfl
        have := le t inv'
        omega

end Termination

import Mathlib.Tactic.NormNum

/-! # Integers of 32 bits

What a signed integer of 32 bits in two's complement holds after an integer has been stored in it.
-/

theorem List.map_eq_self {α : Type*} {f : α → α} {xs : List α} (same : ∀ x ∈ xs, f x = x) :
    xs.map f = xs :=
  (List.map_congr_left same).trans (List.map_id' xs)

namespace MachineInt

/-- The value of the integer which is held. -/
def wrap (x : ℤ) : ℤ := x.bmod (2 ^ 32)

/-- The integer can be held. -/
def Fits (x : ℤ) : Prop := -2 ^ 31 ≤ x ∧ x < 2 ^ 31

instance (x : ℤ) : Decidable (Fits x) := inferInstanceAs (Decidable (_ ∧ _))

theorem wrap_eq_self {x : ℤ} (fits : Fits x) : wrap x = x := by
  obtain ⟨low, high⟩ := fits
  exact Int.bmod_eq_of_le_mul_two (by norm_num; omega) (by norm_num; omega)

theorem wrap_of_abs_lt {x : ℤ} (small : |x| < 2 ^ 31) : wrap x = x := by
  obtain ⟨low, high⟩ := abs_lt.mp small
  exact wrap_eq_self ⟨low.le, high⟩

/-- Numbers which can be held are not changed. -/
theorem map_wrap {xs : List ℤ} (small : ∀ x ∈ xs, |x| < 2 ^ 31) : xs.map wrap = xs :=
  List.map_eq_self fun x member => wrap_of_abs_lt (small x member)

end MachineInt

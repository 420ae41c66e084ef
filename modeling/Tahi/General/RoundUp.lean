import Mathlib.Data.Nat.Init
import Mathlib.Algebra.Order.Ring.Nat

/-! # Rounding a length up to an alignment

`roundUp n a` is the least multiple of `a` that is not below `n`. Rounding one
alignment up to another gives a common multiple of the two only when one of them
divides the other.
-/

namespace RoundUp

def roundUp (n a : Nat) : Nat := (n + a - 1) / a * a

variable {n a b : Nat}

theorem dvd_roundUp (n a : Nat) : a ∣ roundUp n a := Nat.dvd_mul_left _ _

theorem le_roundUp (n : Nat) (pos : 0 < a) : n ≤ roundUp n a := by
  have whole := Nat.div_add_mod (n + a - 1) a
  have below := Nat.mod_lt (n + a - 1) pos
  rw [Nat.mul_comm] at whole
  rw [roundUp]
  omega

theorem roundUp_lt (n : Nat) (pos : 0 < a) : roundUp n a < n + a := by
  have whole := Nat.div_mul_le_self (n + a - 1) a
  rw [roundUp]
  omega

/-- A multiple of the alignment between `n` and `n + a` is the rounded length. -/
theorem roundUp_eq {m : Nat} (multiple : a ∣ m) (lo : n ≤ m) (hi : m < n + a) :
    roundUp n a = m := by
  obtain ⟨k, rfl⟩ := multiple
  have pos : 0 < a := by omega
  have quotient : (n + a - 1) / a = k := by
    apply Nat.div_eq_of_lt_le
    · rw [Nat.mul_comm]
      omega
    · rw [Nat.succ_mul, Nat.mul_comm]
      omega
  rw [roundUp, quotient, Nat.mul_comm]

theorem roundUp_of_dvd (pos : 0 < a) (multiple : a ∣ n) : roundUp n a = n :=
  roundUp_eq multiple (Nat.le_refl n) (by omega)

theorem roundUp_of_le (positive : 0 < n) (fits : n ≤ a) : roundUp n a = a :=
  roundUp_eq (Nat.dvd_refl a) fits (by omega)

/-- When one of two alignments divides the other, rounding one up to the other
    gives the greater. -/
theorem roundUp_eq_max (posA : 0 < a) (posB : 0 < b) (nested : a ∣ b ∨ b ∣ a) :
    roundUp a b = max a b := by
  cases nested with
  | inl divides =>
      have fits := Nat.le_of_dvd posB divides
      rw [roundUp_of_le posA fits, Nat.max_eq_right fits]
  | inr divides =>
      rw [roundUp_of_dvd posB divides, Nat.max_eq_left (Nat.le_of_dvd posA divides)]

/-- The rounded alignment is a multiple of both only if one divides the other. -/
theorem dvd_roundUp_iff (posA : 0 < a) (posB : 0 < b) :
    a ∣ roundUp a b ↔ a ∣ b ∨ b ∣ a := by
  constructor
  · rintro ⟨k, multiple⟩
    have lower := le_roundUp a posB
    have upper := roundUp_lt a posB
    have divides := dvd_roundUp a b
    by_cases once : k ≤ 1
    · have same : roundUp a b = a := by
        have : a * k ≤ a * 1 := Nat.mul_le_mul_left a once
        omega
      exact .inr (same ▸ divides)
    · have twice : a * 2 ≤ a * k := Nat.mul_le_mul_left a (by omega)
      have same : roundUp a b = b := roundUp_of_le posA (by omega)
      exact .inl (same ▸ ⟨k, multiple⟩)
  · intro nested
    rw [roundUp_eq_max posA posB nested]
    rcases nested with divides | divides
    · rwa [Nat.max_eq_right (Nat.le_of_dvd posB divides)]
    · rw [Nat.max_eq_left (Nat.le_of_dvd posA divides)]

end RoundUp

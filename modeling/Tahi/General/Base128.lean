import Mathlib.Data.List.Induction
import Mathlib.Tactic.Ring

/-! # Numbers in base 128

A number is written in groups of seven bits, the most significant first and none of them in
vain. The highest bit of an octet says that there is another one behind it.
-/

namespace Base128

/-- The groups in front of the last one. -/
def high (n : ℕ) : List UInt8 :=
  if n = 0 then [] else high (n / 128) ++ [UInt8.ofNat (n % 128 + 128)]
decreasing_by omega

@[grind =]
def octets (n : ℕ) : List UInt8 := high (n / 128) ++ [UInt8.ofNat (n % 128)]

/-- The number of a row of groups. -/
@[grind =]
def value (os : List UInt8) : ℕ := os.foldl (fun n o => 128 * n + o.toNat % 128) 0

@[simp] theorem high_zero : high 0 = [] := by rw [high, if_pos rfl]

theorem high_pos {n : ℕ} (pos : n ≠ 0) :
    high n = high (n / 128) ++ [UInt8.ofNat (n % 128 + 128)] := by
  rw [high, if_neg pos]

/-- A number below 128 is its own octet. -/
theorem octets_small {n : ℕ} (small : n < 128) : octets n = [UInt8.ofNat n] := by
  rw [octets, Nat.div_eq_of_lt small, high_zero, Nat.mod_eq_of_lt small, List.nil_append]

theorem continued (n : ℕ) : ∀ o ∈ high n, 128 ≤ o.toNat := by
  induction n using Nat.strong_induction_on with
  | _ n ih =>
      by_cases zero : n = 0
      · subst zero
        simp
      · intro o mem
        rw [high_pos zero, List.mem_append, List.mem_singleton] at mem
        obtain front | rfl := mem
        · exact ih _ (by omega) o front
        · rw [UInt8.toNat_ofNat']
          omega

theorem value_concat (os : List UInt8) (o : UInt8) :
    value (os ++ [o]) = 128 * value os + o.toNat % 128 := by
  rw [value, List.foldl_append]
  rfl

theorem value_high (n : ℕ) : value (high n) = n := by
  induction n using Nat.strong_induction_on with
  | _ n ih =>
      by_cases zero : n = 0
      · subst zero
        simp [value]
      · rw [high_pos zero, value_concat, ih _ (by omega), UInt8.toNat_ofNat']
        omega

/-- What has been written is read again. -/
theorem value_octets (n : ℕ) : value (octets n) = n := by
  rw [octets, value_concat, value_high, UInt8.toNat_ofNat']
  omega

/-- One octet, or a row of which just the last one ends the number. -/
theorem octets_cases (n : ℕ) :
    (n < 128 ∧ octets n = [UInt8.ofNat n]) ∨ ∃ o os last, octets n = o :: (os ++ [last]) ∧
      (∀ p ∈ o :: os, 128 ≤ p.toNat) ∧ last.toNat < 128 := by
  cases front : high (n / 128) with
  | nil =>
      have gone := value_high (n / 128)
      rw [front] at gone
      have small : n < 128 := by
        simp only [value, List.foldl_nil] at gone
        omega
      exact .inl ⟨small, octets_small small⟩
  | cons o os =>
      refine .inr ⟨o, os, UInt8.ofNat (n % 128), ?_, ?_, ?_⟩
      · rw [octets, front, List.cons_append]
      · rw [← front]
        exact continued (n / 128)
      · rw [UInt8.toNat_ofNat']
        omega

/-- The weight of a group is that of the groups behind it. -/
theorem value_cons (o : UInt8) (os : List UInt8) :
    value (o :: os) = o.toNat % 128 * 128 ^ os.length + value os := by
  induction os using List.reverseRecOn with
  | nil => simp [value]
  | append_singleton os p ih =>
      rw [← List.cons_append, value_concat, value_concat, ih, List.length_append,
        List.length_singleton, Nat.pow_succ]
      ring

theorem div_pow_succ (n r : ℕ) : n / 128 / 128 ^ r = n / 128 ^ (r + 1) := by
  rw [Nat.div_div_eq_div_mul, Nat.pow_succ, Nat.mul_comm]

/-- There are as many groups as it takes to shift all of the number out. -/
theorem length_high {n g : ℕ} (gone : n / 128 ^ g = 0) (left : ∀ r < g, n / 128 ^ r ≠ 0) :
    (high n).length = g := by
  induction g generalizing n with
  | zero =>
      rw [Nat.pow_zero, Nat.div_one] at gone
      rw [gone, high_zero, List.length_nil]
  | succ g ih =>
      have pos := left 0 (Nat.succ_pos g)
      rw [Nat.pow_zero, Nat.div_one] at pos
      rw [high_pos pos, List.length_append, List.length_singleton]
      congr 1
      apply ih
      · rwa [div_pow_succ]
      · intro r lt
        rw [div_pow_succ]
        exact left (r + 1) (Nat.succ_lt_succ lt)

/-- One more of the groups in front. -/
theorem high_step {n l : ℕ} (left : n / 128 ^ l ≠ 0) :
    high (n / 128 ^ l) = high (n / 128 ^ (l + 1)) ++ [UInt8.ofNat (n / 128 ^ l % 128 + 128)] := by
  rw [high_pos left, Nat.div_div_eq_div_mul, Nat.pow_succ]

end Base128

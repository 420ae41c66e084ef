import Mathlib.Data.Nat.Digits.Defs
import Tahi.General.PerlString

/-! # Hexadecimal numbers in Perl

Numbers are written with `sprintf('%x')` and read with `hex`.
-/

namespace Perl

/-- A digit as `sprintf` writes it. -/
def hexChar (d : Digit) : UInt8 := if d < 10 then 0x30 + UInt8.ofNat d else 0x57 + UInt8.ofNat d

/-- `sprintf('%x')`. -/
def sprintfHex (n : ℕ) : List UInt8 :=
  if n = 0 then [hexChar 0] else ((Nat.digits 16 n).map fun d => hexChar (Fin.ofNat 16 d)).reverse

def IsHexChar (c : UInt8) : Prop :=
  0x30 ≤ c ∧ c ≤ 0x39 ∨ 0x41 ≤ c ∧ c ≤ 0x46 ∨ 0x61 ≤ c ∧ c ≤ 0x66

instance decidableIsHexChar : DecidablePred IsHexChar := fun c => by
  unfold IsHexChar
  infer_instance

/-- `x` or `X`, and a zero before it. -/
def withoutX : List UInt8 → List UInt8
  | 0x30 :: 0x78 :: s => s
  | 0x30 :: 0x58 :: s => s
  | 0x78 :: s => s
  | 0x58 :: s => s
  | s => s

/-- `hex`, which reads as far as there are digits. -/
def hexNumber (s : List UInt8) : ℕ :=
  ((withoutX s).takeWhile (IsHexChar ·)).foldl (fun n c => 16 * n + hexDigit c) 0

theorem isHexChar_hexChar (d : Digit) : IsHexChar (hexChar d) := by
  revert d
  decide

theorem hexDigit_hexChar (d : Digit) : hexDigit (hexChar d) = d := by
  revert d
  decide

theorem sprintfHex_ne_nil (n : ℕ) : sprintfHex n ≠ [] := by
  unfold sprintfHex
  split
  · simp
  next positive => simpa [Nat.digits_eq_nil_iff_eq_zero] using positive

theorem isHexChar_sprintfHex (n : ℕ) : ∀ c ∈ sprintfHex n, IsHexChar c := by
  intro c mem
  unfold sprintfHex at mem
  split at mem
  · rw [List.mem_singleton] at mem
    exact mem ▸ isHexChar_hexChar 0
  · simp only [List.mem_reverse, List.mem_map] at mem
    obtain ⟨d, -, rfl⟩ := mem
    exact isHexChar_hexChar _

/-- Digits have no `x` among them. -/
theorem withoutX_of_isHexChar {s : List UInt8} (digits : ∀ c ∈ s, IsHexChar c) :
    withoutX s = s := by
  have lower : ¬ IsHexChar 0x78 := by decide
  have upper : ¬ IsHexChar 0x58 := by decide
  unfold withoutX
  split
  · exact absurd (digits 0x78 (by simp)) lower
  · exact absurd (digits 0x58 (by simp)) upper
  · exact absurd (digits 0x78 (by simp)) lower
  · exact absurd (digits 0x58 (by simp)) upper
  · rfl

theorem hexNumber_sprintfHex (n : ℕ) : hexNumber (sprintfHex n) = n := by
  have digits := isHexChar_sprintfHex n
  have all : (sprintfHex n).takeWhile (IsHexChar ·) = sprintfHex n := by
    rw [List.takeWhile_eq_self_iff]
    simpa using digits
  rw [hexNumber, withoutX_of_isHexChar digits, all]
  unfold sprintfHex
  split
  next zero => rw [zero]; decide
  next positive =>
    rw [List.foldl_reverse, List.foldr_map]
    have same : ∀ l : List ℕ, (∀ d ∈ l, d < 16) →
        l.foldr (fun d n => 16 * n + (hexDigit (hexChar (Fin.ofNat 16 d)) : ℕ)) 0 =
          Nat.ofDigits 16 l := by
      intro l small
      induction l with
      | nil => rfl
      | cons d l ih =>
          rw [List.foldr_cons, ih fun e mem => small e (List.mem_cons_of_mem d mem),
            Nat.ofDigits_cons, hexDigit_hexChar]
          have fits : (Fin.ofNat 16 d : ℕ) = d := Nat.mod_eq_of_lt (small d List.mem_cons_self)
          rw [fits]
          exact Nat.add_comm _ _
    rw [same _ fun d mem => Nat.digits_lt_base (by decide) mem, Nat.ofDigits_digits]

end Perl

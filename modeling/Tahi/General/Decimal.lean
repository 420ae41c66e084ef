import Mathlib.Data.List.Induction
import Mathlib.Data.List.TakeWhile
import Mathlib.Tactic.IntervalCases

/-! # Decimal numbers as text

Numbers as `printf` writes them with `%d`, and as `atoi` reads them.
-/

namespace Decimal

def digit (d : ℕ) : UInt8 := UInt8.ofNat (0x30 + d)

/-- The digits of a number that has no more of them than the first argument and one. -/
@[grind =]
def digitsFrom : ℕ → ℕ → List UInt8
  | 0, n => [digit n]
  | more + 1, n => if n < 10 then [digit n] else digitsFrom more (n / 10) ++ [digit (n % 10)]

/-- `%d`. -/
def print (n : ℤ) : List UInt8 :=
  if n < 0 then 0x2d :: digitsFrom n.natAbs n.natAbs else digitsFrom n.natAbs n.natAbs

def isspace (c : UInt8) : Bool := c == 0x20 || 0x09 ≤ c && c ≤ 0x0d

def isdigit (c : UInt8) : Bool := 0x30 ≤ c && c ≤ 0x39

/-- The number of the digits in front. -/
def value (text : List UInt8) : ℕ :=
  (text.takeWhile isdigit).foldl (fun n c => 10 * n + (c.toNat - 0x30)) 0

/-- White space and a sign may stand before the digits, and anything behind them. -/
def atoi (text : List UInt8) : ℤ :=
  match text.dropWhile isspace with
  | [] => 0
  | c :: rest =>
      if c = 0x2d then -(value rest : ℤ) else if c = 0x2b then value rest else value (c :: rest)

theorem atoi_digit {d : ℕ} (lt : d < 10) : atoi [digit d] = d := by
  interval_cases d <;> rfl

/-- The first digit is that of the number if it has no other. -/
theorem take_digitsFrom {more n : ℕ} (enough : n ≤ more) :
    ∃ d < 10, (digitsFrom more n).take 1 = [digit d] ∧ (n < 10 → d = n) := by
  induction more generalizing n with
  | zero => exact ⟨n, by omega, rfl, fun _ => rfl⟩
  | succ more ih =>
      rw [digitsFrom]
      by_cases small : n < 10
      · exact ⟨n, small, by rw [if_pos small]; rfl, fun _ => rfl⟩
      · obtain ⟨d, lt, first, -⟩ := ih (n := n / 10) (by omega)
        have some_ : 1 ≤ (digitsFrom more (n / 10)).length := by
          have length := congrArg List.length first
          rw [List.length_take] at length
          simp only [List.length_cons, List.length_nil] at length
          omega
        refine ⟨d, lt, ?_, fun small' => absurd small' small⟩
        rw [if_neg small, List.take_append_of_le_length some_, first]

/-- No number but 0 begins with a zero. -/
theorem digitsFrom_pos {more n : ℕ} (positive : 0 < n) (enough : n ≤ more) :
    ∃ d rest, 0 < d ∧ d < 10 ∧ digitsFrom more n = digit d :: rest := by
  induction more generalizing n with
  | zero => omega
  | succ more ih =>
      rw [digitsFrom]
      by_cases small : n < 10
      · exact ⟨n, [], positive, small, if_pos small⟩
      · obtain ⟨d, rest, positive', lt, first⟩ := ih (n := n / 10) (by omega) (by omega)
        exact ⟨d, rest ++ [digit (n % 10)], positive', lt, by rw [if_neg small, first]; rfl⟩

/-- One character is read as one digit, which is the number for those from 0 to 9. -/
theorem atoi_take_print (n : ℤ) :
    ∃ d : ℕ, d < 10 ∧ atoi ((print n).take 1) = d ∧ ((d : ℤ) = n ↔ 0 ≤ n ∧ n ≤ 9) := by
  unfold print
  by_cases negative : n < 0
  · have sign : atoi [0x2d] = 0 := rfl
    rw [if_pos negative, List.take_succ_cons, List.take_zero, sign]
    exact ⟨0, by decide, rfl, by omega⟩
  · obtain ⟨d, lt, first, same⟩ := take_digitsFrom (Nat.le_refl n.natAbs)
    rw [if_neg negative, first, atoi_digit lt]
    exact ⟨d, lt, rfl, by omega⟩

/-! ## Texts of digits -/

/-- Digits, and nothing else. -/
def Digits (text : List UInt8) : Prop := ∀ c ∈ text, isdigit c = true

section Digits

variable {text : List UInt8}

theorem Digits.value_eq (digits : Digits text) :
    value text = text.foldl (fun n c => 10 * n + (c.toNat - 0x30)) 0 := by
  rw [value, List.takeWhile_eq_self_iff.mpr digits]

theorem isdigit_iff (c : UInt8) : isdigit c = true ↔ 0x30 ≤ c.toNat ∧ c.toNat ≤ 0x39 := by
  simp [isdigit, UInt8.le_iff_toNat_le]

/-- Neither white space nor a sign is a digit. -/
theorem Digits.atoi_eq (digits : Digits text) (some_ : text ≠ []) : atoi text = value text := by
  cases text with
  | nil => exact absurd rfl some_
  | cons c rest =>
      have bounds := (isdigit_iff c).mp (digits c List.mem_cons_self)
      have black : isspace c = false := by
        simp [isspace, ← UInt8.toNat_inj, UInt8.le_iff_toNat_le]
        omega
      have minus : c ≠ 0x2d := by
        rintro rfl
        simp at bounds
      have plus : c ≠ 0x2b := by
        rintro rfl
        simp at bounds
      rw [atoi, List.dropWhile_cons_of_neg (by simp [black])]
      simp only [minus, plus, if_false]

theorem Digits.value_lt (digits : Digits text) : value text < 10 ^ text.length := by
  rw [digits.value_eq]
  induction text using List.reverseRecOn with
  | nil => simp
  | append_singleton text c ih =>
      have front := ih fun c mem => digits c (List.mem_append_left _ mem)
      have last := (isdigit_iff c).mp (digits c (by simp))
      rw [List.foldl_append, List.foldl_cons, List.foldl_nil, List.length_append,
        List.length_singleton, Nat.pow_succ]
      omega

end Digits

theorem isdigit_digit {d : ℕ} (lt : d < 10) : isdigit (digit d) = true := by
  interval_cases d <;> rfl

theorem digits_digitsFrom (more n : ℕ) (enough : n ≤ more) : Digits (digitsFrom more n) := by
  induction more generalizing n with
  | zero =>
      intro c mem
      rw [digitsFrom, List.mem_singleton] at mem
      exact mem ▸ isdigit_digit (by omega)
  | succ more ih =>
      intro c mem
      rw [digitsFrom] at mem
      split at mem
      next small => exact List.mem_singleton.mp mem ▸ isdigit_digit small
      next large =>
        obtain front | last := List.mem_append.mp mem
        · exact ih _ (by omega) c front
        · exact List.mem_singleton.mp last ▸ isdigit_digit (by omega)

theorem digit_toNat {d : ℕ} (lt : d < 10) : (digit d).toNat = 0x30 + d := by
  rw [digit, UInt8.toNat_ofNat']
  omega

theorem value_digitsFrom (more n : ℕ) (enough : n ≤ more) : value (digitsFrom more n) = n := by
  rw [(digits_digitsFrom more n enough).value_eq]
  induction more generalizing n with
  | zero =>
      rw [digitsFrom, List.foldl_cons, List.foldl_nil, digit_toNat (by omega)]
      omega
  | succ more ih =>
      rw [digitsFrom]
      split
      next small =>
        rw [List.foldl_cons, List.foldl_nil, digit_toNat small]
        omega
      next large =>
        rw [List.foldl_append, ih _ (by omega), List.foldl_cons, List.foldl_nil,
          digit_toNat (by omega)]
        omega

section Natural

variable (n : ℕ)

theorem print_natural : print n = digitsFrom n n := by
  rw [print, if_neg (by omega), Int.natAbs_natCast]

theorem digits_print : Digits (print n) := by
  rw [print_natural]
  exact digits_digitsFrom n n (Nat.le_refl n)

/-- What has been printed is read again. -/
theorem value_print : value (print n) = n := by
  rw [print_natural]
  exact value_digitsFrom n n (Nat.le_refl n)

theorem print_ne_nil : print n ≠ [] := by
  obtain ⟨d, -, first, -⟩ := take_digitsFrom (Nat.le_refl n)
  rw [print_natural]
  intro none_
  rw [none_] at first
  cases first

end Natural

end Decimal

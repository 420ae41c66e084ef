import Mathlib.Data.UInt
import Mathlib.Tactic.Ring

/-! # Ones' complement sums of 16-bit words

A sum of 16-bit words is folded by adding its carries back into its low word. Two
folds bring a 32-bit sum down to 16 bits: the residue of the sum modulo 65535,
with 65535 for the multiples of 65535 other than zero.
-/

namespace OnesComplement

/-- One fold of a sum. -/
@[grind =]
def fold (s : Nat) : Nat := s / 65536 + s % 65536

theorem fold_mod (s : Nat) : fold s % 65535 = s % 65535 := by
  rw [fold]
  omega

theorem fold_lt {s : Nat} (word : s < 2 ^ 32) : fold s ≤ 2 * 65535 := by
  rw [fold]
  omega

theorem fold_pos {s : Nat} (pos : 0 < s) : 0 < fold s := by
  rw [fold]
  omega

/-- The low word of a sum after two folds. -/
def residue (s : Nat) : Nat := (fold s + fold s / 65536) % 65536

/-- The second carry leaves the residue modulo 65535, counted from 1. -/
theorem residue_eq {s : Nat} (word : s < 2 ^ 32) :
    residue s = if s = 0 then 0 else (s - 1) % 65535 + 1 := by
  have bound := fold_lt word
  have same := fold_mod s
  cases s with
  | zero => rfl
  | succ n =>
      have positive : 0 < fold (n + 1) := fold_pos (Nat.succ_pos n)
      rw [if_neg (Nat.succ_ne_zero n), residue, Nat.add_sub_cancel]
      generalize fold (n + 1) = folded at bound same positive
      by_cases carries : folded ≤ 65535
      · have none : folded / 65536 = 0 := by omega
        rw [none]
        omega
      · have once : folded / 65536 = 1 := by omega
        rw [once]
        omega

/-- All ones stand for a sum that is a multiple of 65535 and not zero. -/
theorem residue_allOnes_iff {s : Nat} (word : s < 2 ^ 32) :
    residue s = 65535 ↔ 0 < s ∧ 65535 ∣ s := by
  rw [residue_eq word]
  cases s with
  | zero => simp
  | succ n =>
      rw [if_neg (Nat.succ_ne_zero n)]
      omega

/-! ## Adding word by word -/

/-- The sum of two words, with its carry brought around to the low end. -/
def add (a b : Nat) : Nat := fold (a + b)

def sum (words : List Nat) : Nat := words.foldl add 0

/-- The words of a string of octets, the last one filled up with zero. -/
def words : List (BitVec 8) → List Nat
  | [] => []
  | [a] => [a.toNat * 256]
  | a :: b :: rest => (a.toNat * 256 + b.toNat) :: words rest

theorem words_lt (o : List (BitVec 8)) : ∀ w ∈ words o, w < 65536 := by
  fun_induction words o with
  | case1 => intro w mem; cases mem
  | case2 a =>
      have high := a.isLt
      intro w mem
      rw [List.mem_singleton.mp mem]
      omega
  | case3 a b rest ih =>
      have high := a.isLt
      have low := b.isLt
      intro w mem
      cases List.mem_cons.mp mem with
      | inl head => rw [head]; omega
      | inr tail => exact ih w tail

/-- Strings are summed one after the other when the first ends with a word. -/
theorem words_append {o : List (BitVec 8)} (even : o.length % 2 = 0) (p : List (BitVec 8)) :
    words (o ++ p) = words o ++ words p := by
  fun_induction words o with
  | case1 => rfl
  | case2 a => cases even
  | case3 a b rest ih =>
      have shorter : rest.length % 2 = 0 := by
        rw [List.length_cons, List.length_cons] at even
        omega
      rw [List.cons_append, List.cons_append, words, ih shorter, List.cons_append]

theorem foldl_add {ws : List Nat} (small : ∀ w ∈ ws, w < 65536) {a : Nat} (start : a < 65536) :
    ws.foldl add a = if a + ws.sum = 0 then 0 else (a + ws.sum - 1) % 65535 + 1 := by
  induction ws generalizing a with
  | nil =>
      rw [List.foldl_nil, List.sum_nil]
      split <;> omega
  | cons w ws ih =>
      have word := small w List.mem_cons_self
      have next : add a w < 65536 := by
        rw [add, fold]
        omega
      rw [List.foldl_cons, ih (fun v mem => small v (List.mem_cons_of_mem _ mem)) next,
        List.sum_cons, add, fold]
      split <;> split <;> omega

/-- Two folds bring the plain sum of the words to the sum that was carried around. -/
theorem residue_words {ws : List Nat} (small : ∀ w ∈ ws, w < 65536) (word : ws.sum < 2 ^ 32) :
    residue ws.sum = sum ws := by
  rw [residue_eq word, sum, foldl_add small (by decide), Nat.zero_add]

end OnesComplement

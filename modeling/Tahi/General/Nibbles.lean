import Mathlib
import Tahi.General.BitField

/-! # Octets from hexadecimal digits

A row of digits is read in two ways: from the left, two digits an octet, or as one number, whose
last octets are the ones that count. The two readings agree when the digits fill the octets.
-/

namespace Nibbles

open BitField

abbrev Digit := Fin 16

scoped instance neZero_sixteen : NeZero 16 := ⟨by decide⟩

def octet (high low : Digit) : Octet := BitVec.ofNat 8 (16 * high + low)

/-- `n` octets with the first digit in the upper half of the first one. Digits that have no room
    are cut, and zeros follow where digits are missing. -/
@[grind =]
def aligned (n : Nat) (ds : List Digit) : List Octet :=
  (List.range n).map fun i => octet (ds.getD (2 * i) 0) (ds.getD (2 * i + 1) 0)

/-- The number that is denoted. -/
def number (ds : List Digit) : Nat := ds.foldl (fun n d => 16 * n + d.val) 0

/-- The last `n` octets of a number, the most significant one first. -/
@[grind =]
def bigEndian : Nat → Nat → List Octet
  | 0, _ => []
  | n + 1, v => bigEndian n (v / 256) ++ [BitVec.ofNat 8 v]

@[simp] theorem length_aligned (n : Nat) (ds : List Digit) : (aligned n ds).length = n := by
  simp [aligned]

@[simp] theorem length_bigEndian (n v : Nat) : (bigEndian n v).length = n := by
  induction n generalizing v with
  | zero => rfl
  | succ n ih => rw [bigEndian, List.length_append, ih, List.length_singleton]

/-! ## From the left -/

theorem aligned_add (m k : Nat) (ds : List Digit) :
    aligned (m + k) ds = aligned m ds ++ aligned k (ds.drop (2 * m)) := by
  simp only [aligned, List.range_add, List.map_append, List.map_map, Function.comp_def,
    List.getD_eq_getElem?_getD, List.getElem?_drop, Nat.mul_add, Nat.add_assoc]

theorem aligned_succ (n : Nat) (ds : List Digit) :
    aligned (n + 1) ds = octet (ds.getD 0 0) (ds.getD 1 0) :: aligned n (ds.drop 2) := by
  rw [Nat.add_comm, aligned_add]
  rfl

@[simp] theorem aligned_nil (n : Nat) : aligned n [] = List.replicate n 0 := by
  simp [aligned, octet]

theorem aligned_filled {n m : Nat} {ds : List Digit} (covered : ds.length ≤ 2 * m) (room : m ≤ n) :
    aligned n ds = aligned m ds ++ List.replicate (n - m) 0 := by
  obtain ⟨k, rfl⟩ := Nat.exists_eq_add_of_le room
  rw [aligned_add, List.drop_of_length_le covered, aligned_nil, Nat.add_sub_cancel_left]

/-! ## As a number -/

theorem bigEndian_add (m k v : Nat) :
    bigEndian (m + k) v = bigEndian m (v / 256 ^ k) ++ bigEndian k v := by
  induction k generalizing v with
  | zero => simp [bigEndian]
  | succ k ih =>
      rw [← Nat.add_assoc, bigEndian, ih, bigEndian, Nat.div_div_eq_div_mul, Nat.pow_succ',
        List.append_assoc]

@[simp] theorem bigEndian_zero (n : Nat) : bigEndian n 0 = List.replicate n 0 := by
  induction n with
  | zero => rfl
  | succ n ih =>
      rw [bigEndian, Nat.zero_div, ih, List.replicate_succ']
      rfl

theorem bigEndian_filled {n m v : Nat} (covered : v < 256 ^ m) (room : m ≤ n) :
    bigEndian n v = List.replicate (n - m) 0 ++ bigEndian m v := by
  obtain ⟨k, rfl⟩ := Nat.exists_eq_add_of_le room
  rw [Nat.add_comm, bigEndian_add, Nat.div_eq_of_lt covered, bigEndian_zero,
    Nat.add_sub_cancel_right]

theorem bigEndian_mod (n v : Nat) : bigEndian n (v % 256 ^ n) = bigEndian n v := by
  induction n generalizing v with
  | zero => rfl
  | succ n ih =>
      have last : BitVec.ofNat 8 (v % 256 ^ (n + 1)) = BitVec.ofNat 8 v := by
        apply BitVec.eq_of_toNat_eq
        rw [BitVec.toNat_ofNat, BitVec.toNat_ofNat, Nat.pow_succ',
          Nat.mod_mod_of_dvd v (show 2 ^ 8 ∣ 256 * 256 ^ n from Nat.dvd_mul_right _ _)]
      rw [bigEndian, bigEndian, last, Nat.pow_succ', Nat.mod_mul_right_div_self, ih]

theorem number_append (ds es : List Digit) :
    number (ds ++ es) = es.foldl (fun n d => 16 * n + d.val) (number ds) := by
  rw [number, List.foldl_append, ← number]

theorem number_lt (ds : List Digit) : number ds < 16 ^ ds.length := by
  induction ds using List.reverseRecOn with
  | nil => exact Nat.one_pos
  | append_singleton ds d ih =>
      rw [number_append, List.foldl_cons, List.foldl_nil, List.length_append,
        List.length_singleton, Nat.pow_succ]
      omega

/-- Two more digits are one more octet. -/
theorem bigEndian_pair (n : Nat) (ds : List Digit) (high low : Digit) :
    bigEndian (n + 1) (number (ds ++ [high, low])) =
      bigEndian n (number ds) ++ [octet high low] := by
  have shifted : number (ds ++ [high, low]) = 256 * number ds + (16 * high + low) := by
    rw [number_append, List.foldl_cons, List.foldl_cons, List.foldl_nil]
    omega
  have small : 16 * (high : Nat) + low < 256 := by omega
  have front : (256 * number ds + (16 * high + low)) / 256 = number ds := by omega
  have last : BitVec.ofNat 8 (256 * number ds + (16 * high + low)) = octet high low := by
    apply BitVec.eq_of_toNat_eq
    rw [octet, BitVec.toNat_ofNat, BitVec.toNat_ofNat]
    omega
  rw [shifted, bigEndian, front, last]

/-! ## Both -/

theorem aligned_eq_bigEndian {n : Nat} {ds : List Digit} (full : ds.length = 2 * n) :
    aligned n ds = bigEndian n (number ds) := by
  induction n generalizing ds with
  | zero => rfl
  | succ n ih =>
      obtain ⟨front, pair, rfl, size⟩ :
          ∃ front pair, ds = front ++ pair ∧ front.length = 2 * n :=
        ⟨ds.take (2 * n), ds.drop (2 * n), (List.take_append_drop _ _).symm,
          by rw [List.length_take]; omega⟩
      rw [List.length_append] at full
      match pair, (show pair.length = 2 by omega) with
      | [high, low], _ =>
          rw [bigEndian_pair, ← ih size, aligned_add, List.drop_left' size]
          congr 1
          simp only [aligned, List.map_inj_left, List.mem_range, List.getD_eq_getElem?_getD]
          intro i inside
          rw [List.getElem?_append_left (by omega), List.getElem?_append_left (by omega)]

end Nibbles

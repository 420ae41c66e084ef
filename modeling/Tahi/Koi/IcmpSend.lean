import Tahi.General.OnesComplement
import Tahi.Pz.PvOctets

/-! # ICMP packets

`icmp_send` builds an echo message, or one with the type and the code of the payload, and puts a
checksum into it for IPv4. The checksum is over words in the order of the host, so that it comes out
in the order in which it is stored.
-/

namespace Tahi.Koi

open Pz (ByteOrder)

/-- An `unsigned short` in memory. -/
def word (host : ByteOrder) (a b : UInt8) : UInt16 :=
  match host with
  | .little => a.toUInt16 + b.toUInt16 * 256
  | .big => a.toUInt16 * 256 + b.toUInt16

def octets (host : ByteOrder) (w : UInt16) : List UInt8 :=
  match host with
  | .little => [w.toUInt8, (w >>> 8).toUInt8]
  | .big => [(w >>> 8).toUInt8, w.toUInt8]

/-! ## The checksum -/

/-- The loop, and the octet that is left behind it. `unsigned long` has 64 bits. -/
def checksumSum (host : ByteOrder) : List UInt8 → UInt64 → UInt64
  | a :: b :: buf, sum => checksumSum host buf (sum + (word host a b).toUInt64)
  | [a], sum => sum + a.toUInt64
  | [], sum => sum

/-- The line after the loop, which is there twice. -/
def checksumFold (sum : UInt64) : UInt64 := (sum &&& (0xff : UInt64)) + (sum >>> 16)

def checksum (host : ByteOrder) (buf : List UInt8) : UInt16 :=
  (~~~checksumFold (checksumFold (checksumSum host buf 0))).toUInt16

/-! ## The packets -/

/-- `ICMP_ECHO` -/
def ICMP_ECHO : UInt8 := 8

def ICMP6_ECHO_REQUEST : UInt8 := 128

/-- The type and the code. -/
def icmpStart (echo : UInt8) (data : List UInt8) : List UInt8 :=
  if 3 < data.length then data.take 2 else [echo, 0]

/-- `sizeof(struct icmp)` -/
def sizeofIcmp : ℕ := 28

/-- The packet for IPv4, with a zero checksum. Behind the structure, `buf` has what was on the
    `stack`. -/
def icmpUnsummed (data stack : List UInt8) : List UInt8 :=
  icmpStart ICMP_ECHO data ++ [0, 0] ++ List.replicate (sizeofIcmp - 4) 0 ++ stack

def icmpPacket (host : ByteOrder) (data stack : List UInt8) : List UInt8 :=
  icmpStart ICMP_ECHO data ++ octets host (checksum host (icmpUnsummed data stack)) ++
    List.replicate (sizeofIcmp - 4) 0 ++ stack

/-- The header for IPv6, whose checksum the kernel fills in. -/
def icmp6Header (data : List UInt8) : List UInt8 :=
  icmpStart ICMP6_ECHO_REQUEST data ++ List.replicate 6 0

/-! ## When the checksum is right -/

/-- The sum of the words. An octet that is left counts as it is. -/
def wordSum (host : ByteOrder) : List UInt8 → ℕ
  | a :: b :: buf => (word host a b).toNat + wordSum host buf
  | [a] => a.toNat
  | [] => 0

/-- An octet at the end that a host with the other order would have in the high half of a word. -/
def misplaced (host : ByteOrder) : List UInt8 → ℕ
  | _ :: _ :: buf => misplaced host buf
  | [a] => if host = .big then a.toNat else 0
  | [] => 0

/-- The bits that the mask of the fold leaves out. -/
def secondOctet (sum : ℕ) : ℕ := sum / 256 % 256

/-- One fold of the program. -/
def foldOctet (sum : ℕ) : ℕ := sum % 256 + sum / 65536

/-- The sum of the words of a packet in the order of the network, carried around. -/
def onesSum (buf : List UInt8) : ℕ :=
  OnesComplement.sum (OnesComplement.words (buf.map UInt8.toBitVec))

/-- With the checksum in the field behind `front`, the sum of the packet is all ones. -/
def ChecksumRight (host : ByteOrder) (front rest : List UInt8) : Prop :=
  onesSum (front ++ octets host (checksum host (front ++ [0, 0] ++ rest)) ++ rest) = 65535

variable {host : ByteOrder}

theorem word_octets (host : ByteOrder) (w : UInt16) :
    ∃ a b, octets host w = [a, b] ∧ word host a b = w := by
  cases host with
  | little =>
      refine ⟨_, _, rfl, UInt16.toNat_inj.mp ?_⟩
      have small := w.toNat_lt
      simp [word, Nat.shiftRight_eq_div_pow]
      omega
  | big =>
      refine ⟨_, _, rfl, UInt16.toNat_inj.mp ?_⟩
      have small := w.toNat_lt
      simp [word, Nat.shiftRight_eq_div_pow]
      omega

theorem word_toNat (host : ByteOrder) (a b : UInt8) :
    (word host a b).toNat =
      match host with
      | .little => a.toNat + b.toNat * 256
      | .big => a.toNat * 256 + b.toNat := by
  have first := a.toNat_lt
  have second := b.toNat_lt
  cases host with
  | little => simp [word]; omega
  | big => simp [word]; omega

theorem wordSum_le (host : ByteOrder) (buf : List UInt8) :
    wordSum host buf ≤ 32768 * (buf.length + 1) := by
  fun_induction wordSum host buf with
  | case1 a b buf ih =>
      have small := (word host a b).toNat_lt
      rw [List.length_cons, List.length_cons]
      omega
  | case2 a =>
      have small := a.toNat_lt
      simp only [List.length_singleton]
      omega
  | case3 => simp

theorem checksumSum_toNat (buf : List UInt8) {sum : UInt64}
    (room : sum.toNat + wordSum host buf < 2 ^ 64) :
    (checksumSum host buf sum).toNat = sum.toNat + wordSum host buf := by
  fun_induction checksumSum host buf sum with
  | case1 a b buf sum ih =>
      rw [wordSum] at room ⊢
      have added : (sum + (word host a b).toUInt64).toNat =
          sum.toNat + (word host a b).toNat := by
        rw [UInt64.toNat_add, UInt16.toNat_toUInt64]
        omega
      rw [ih (by omega), added]
      omega
  | case2 a sum =>
      rw [wordSum] at room ⊢
      rw [UInt64.toNat_add, UInt8.toNat_toUInt64]
      omega
  | case3 sum => simp [wordSum]

theorem checksumFold_toNat (sum : UInt64) : (checksumFold sum).toNat = foldOctet sum.toNat := by
  have small := sum.toNat_lt
  have low : (sum &&& 0xff).toNat = sum.toNat % 256 := Nat.and_two_pow_sub_one_eq_mod _ 8
  have high : (sum >>> 16).toNat = sum.toNat / 65536 := by
    simp [Nat.shiftRight_eq_div_pow]
  rw [checksumFold, foldOctet, UInt64.toNat_add, low, high]
  omega

theorem checksum_toNat {buf : List UInt8} (small : wordSum host buf ≤ 2 ^ 46) :
    (checksum host buf).toNat = 65535 - foldOctet (foldOctet (wordSum host buf)) := by
  have sum : (checksumSum host buf 0).toNat = wordSum host buf := by
    rw [checksumSum_toNat buf (by simp; omega)]
    simp
  have twice : (checksumFold (checksumFold (checksumSum host buf 0))).toNat =
      foldOctet (foldOctet (wordSum host buf)) := by
    rw [checksumFold_toNat, checksumFold_toNat, sum]
  have folded : foldOctet (foldOctet (wordSum host buf)) < 65536 := by
    rw [foldOctet, foldOctet]
    omega
  rw [checksum, UInt64.toNat_toUInt16, UInt64.toNat_not, twice]
  simp only [UInt64.size]
  omega

theorem wordSum_append {front : List UInt8} (even : front.length % 2 = 0) (rest : List UInt8) :
    wordSum host (front ++ rest) = wordSum host front + wordSum host rest := by
  fun_induction wordSum host front with
  | case1 a b buf ih =>
      have shorter : buf.length % 2 = 0 := by
        rw [List.length_cons, List.length_cons] at even
        omega
      rw [List.cons_append, List.cons_append, wordSum, ih shorter, Nat.add_assoc]
  | case2 a => cases even
  | case3 => simp

theorem misplaced_append {front : List UInt8} (even : front.length % 2 = 0) (rest : List UInt8) :
    misplaced host (front ++ rest) = misplaced host rest := by
  fun_induction misplaced host front with
  | case1 a b buf ih =>
      have shorter : buf.length % 2 = 0 := by
        rw [List.length_cons, List.length_cons] at even
        omega
      rw [List.cons_append, List.cons_append, misplaced, ih shorter]
  | case2 a | case3 a => cases even
  | case4 => simp

/-- A word in the order of the other host is 256 times the word, modulo 65535. -/
def weight : ByteOrder → ℕ
  | .little => 256
  | .big => 1

theorem dvd_weight (host : ByteOrder) (total : ℕ) :
    65535 ∣ total ↔ weight host * total % 65535 = 0 := by
  cases host with
  | little =>
      rw [weight]
      omega
  | big =>
      rw [weight]
      omega

theorem words_mod (host : ByteOrder) (buf : List UInt8) :
    weight host * (OnesComplement.words (buf.map UInt8.toBitVec)).sum % 65535 =
      (wordSum host buf + 255 * misplaced host buf) % 65535 := by
  fun_induction wordSum host buf with
  | case1 a b buf ih =>
      rw [misplaced, List.map_cons, List.map_cons, OnesComplement.words, List.sum_cons, word_toNat]
      simp only [UInt8.toNat_toBitVec]
      cases host <;> (simp only [weight] at ih ⊢; omega)
  | case2 a =>
      simp only [misplaced, List.map_cons, List.map_nil, OnesComplement.words, List.sum_singleton,
        UInt8.toNat_toBitVec]
      cases host with
      | little => simp [weight]; omega
      | big => simp [weight]; omega
  | case3 => simp [misplaced, OnesComplement.words]

/-- The sum is all ones when it is a multiple of 65535 and not zero. -/
theorem onesSum_eq_iff (buf : List UInt8) : onesSum buf = 65535 ↔
    0 < (OnesComplement.words (buf.map UInt8.toBitVec)).sum ∧
      65535 ∣ (OnesComplement.words (buf.map UInt8.toBitVec)).sum := by
  rw [onesSum, OnesComplement.sum, OnesComplement.foldl_add (OnesComplement.words_lt _) (by decide)]
  split <;> omega

theorem misplaced_lt (host : ByteOrder) (buf : List UInt8) : misplaced host buf < 256 := by
  fun_induction misplaced host buf with
  | case1 _ _ _ ih => exact ih
  | case2 a => exact a.toNat_lt
  | case3 | case4 => decide

/-- The program drops the second octet of what it folds. -/
theorem foldOctet_mod (s : ℕ) : s % 65535 = (foldOctet s + 256 * secondOctet s) % 65535 := by
  have octets : s / 65536 = s / 256 / 256 := (Nat.div_div_eq_div_mul s 256 256).symm
  rw [foldOctet, secondOctet]
  omega

theorem wordSum_le_words (host : ByteOrder) (buf : List UInt8) :
    wordSum host buf ≤ 256 * (OnesComplement.words (buf.map UInt8.toBitVec)).sum := by
  fun_induction wordSum host buf with
  | case1 a b buf ih =>
      rw [List.map_cons, List.map_cons, OnesComplement.words, List.sum_cons, word_toNat]
      simp only [UInt8.toNat_toBitVec]
      cases host <;> grind
  | case2 a =>
      simp only [List.map_cons, List.map_nil, OnesComplement.words, List.sum_singleton,
        UInt8.toNat_toBitVec]
      omega
  | case3 => exact Nat.zero_le _

theorem secondOctet_lt (s : ℕ) : secondOctet s < 256 := Nat.mod_lt _ (by decide)

/-- What is dropped from a sum, against what is missing from it. -/
theorem dropped_iff {j j' x : ℕ} (small : j < 256) (small' : j' < 256) (octet : x < 256) :
    (256 * (j + j') + 255 * x) % 65535 = 0 ↔ j + j' = 255 * x := by
  constructor
  · intro zero
    obtain ⟨q, product⟩ := Nat.dvd_of_mod_eq_zero zero
    have few : q < 3 := by omega
    have multiple : j + j' = 255 * (257 * q - (j + j') - x) := by omega
    generalize 257 * q - (j + j') - x = p at multiple
    have few' : p < 3 := by omega
    have threes : p = 0 ∨ p = 1 ∨ p = 2 := by omega
    rcases threes with rfl | rfl | rfl <;> omega
  · intro same
    omega

/-- What the octets that are dropped, and the one that is misplaced, leave of the sum. -/
theorem checksumRight_iff_mod (host : ByteOrder) (front rest : List UInt8)
    (even : front.length % 2 = 0) (int : (front ++ [0, 0] ++ rest).length < 2 ^ 31) :
    ChecksumRight host front rest ↔
      let buf := front ++ [0, 0] ++ rest
      (256 * (secondOctet (wordSum host buf) + secondOctet (foldOctet (wordSum host buf))) +
        255 * misplaced host buf) % 65535 = 0 := by
  obtain ⟨buf, same⟩ : ∃ buf, front ++ [0, 0] ++ rest = buf := ⟨_, rfl⟩
  rw [ChecksumRight, same]
  rw [same] at int
  have small := wordSum_le host buf
  have bound : wordSum host buf ≤ 2 ^ 46 := by omega
  obtain ⟨a, b, stored, read⟩ := word_octets host (checksum host buf)
  have evenField : (front ++ [a, b]).length % 2 = 0 := by
    rw [List.length_append]
    simpa using even
  have evenZero : (front ++ [(0 : UInt8), 0]).length % 2 = 0 := by
    rw [List.length_append]
    simpa using even
  have zero : wordSum host buf = wordSum host front + wordSum host rest := by
    have none : word host 0 0 = 0 := by cases host <;> rfl
    rw [← same, wordSum_append evenZero, wordSum_append even]
    simp [wordSum, none]
  have placed : wordSum host (front ++ [a, b] ++ rest) =
      wordSum host buf + (checksum host buf).toNat := by
    rw [wordSum_append evenField, wordSum_append even, zero]
    simp only [wordSum, read]
    omega
  have last : misplaced host (front ++ [a, b] ++ rest) = misplaced host buf := by
    rw [← same, misplaced_append evenField, misplaced_append evenZero]
  have sum := words_mod host (front ++ [a, b] ++ rest)
  have most := wordSum_le_words host (front ++ [a, b] ++ rest)
  rw [placed, last, checksum_toNat bound] at sum
  rw [placed, checksum_toNat bound] at most
  rw [stored, onesSum_eq_iff]
  generalize (OnesComplement.words ((front ++ [a, b] ++ rest).map UInt8.toBitVec)).sum = total
    at sum most ⊢
  have once := foldOctet_mod (wordSum host buf)
  have twice := foldOctet_mod (foldOctet (wordSum host buf))
  have folded : foldOctet (foldOctet (wordSum host buf)) < 65535 := by
    rw [foldOctet, foldOctet]
    omega
  have positive : 0 < total := by
    by_contra none
    have nothing : wordSum host buf = 0 := by omega
    rw [nothing] at most
    have zero : foldOctet (foldOctet 0) = 0 := rfl
    omega
  have divides : 65535 ∣ total ↔ (256 * (secondOctet (wordSum host buf) +
      secondOctet (foldOctet (wordSum host buf))) + 255 * misplaced host buf) % 65535 = 0 := by
    rw [dvd_weight host, sum]
    omega
  rw [divides]
  exact and_iff_right positive

/-- They have to make up for each other. -/
theorem checksumRight_iff (host : ByteOrder) (front rest : List UInt8)
    (even : front.length % 2 = 0) (int : (front ++ [0, 0] ++ rest).length < 2 ^ 31) :
    ChecksumRight host front rest ↔
      let buf := front ++ [0, 0] ++ rest
      secondOctet (wordSum host buf) + secondOctet (foldOctet (wordSum host buf)) =
        255 * misplaced host buf := by
  rw [checksumRight_iff_mod host front rest even int]
  exact dropped_iff (secondOctet_lt _) (secondOctet_lt _) (misplaced_lt host _)

/-- An echo request, with nothing behind the structure. -/
theorem checksumRight_echo : ChecksumRight .little [8, 0] (List.replicate 44 0) := by
  apply (checksumRight_iff .little [8, 0] (List.replicate 44 0) rfl (by decide)).mpr
  decide

/-- One that says that a host is unreachable. -/
theorem not_checksumRight : ¬ ∀ (host : ByteOrder) (front rest : List UInt8),
    front.length % 2 = 0 → (front ++ [0, 0] ++ rest).length < 2 ^ 31 →
      ChecksumRight host front rest := by
  intro claim
  have right := claim .little [3, 1] (List.replicate 44 0) rfl (by decide)
  have dropped :=
    (checksumRight_iff_mod .little [3, 1] (List.replicate 44 0) rfl (by decide)).mp right
  exact absurd dropped (by decide)

/-- The packet for IPv4. -/
theorem icmpPacket_right_iff (host : ByteOrder) (data : List UInt8) {stack : List UInt8}
    (small : stack.length < 2 ^ 30) : onesSum (icmpPacket host data stack) = 65535 ↔
      let buf := icmpUnsummed data stack
      secondOctet (wordSum host buf) + secondOctet (foldOctet (wordSum host buf)) =
        255 * misplaced host buf := by
  have start : (icmpStart ICMP_ECHO data).length = 2 := by
    unfold icmpStart
    split
    · rw [List.length_take]
      omega
    · rfl
  have right := checksumRight_iff_mod host (icmpStart ICMP_ECHO data)
    (List.replicate (sizeofIcmp - 4) 0 ++ stack) (by rw [start])
    (by simp only [List.length_append, start, List.length_replicate, List.length_cons,
      List.length_nil, sizeofIcmp]; omega)
  have made_up := dropped_iff (secondOctet_lt (wordSum host (icmpUnsummed data stack)))
    (secondOctet_lt (foldOctet (wordSum host (icmpUnsummed data stack))))
    (misplaced_lt host (icmpUnsummed data stack))
  rw [← made_up]
  simpa only [ChecksumRight, icmpPacket, icmpUnsummed, List.append_assoc] using right

end Tahi.Koi

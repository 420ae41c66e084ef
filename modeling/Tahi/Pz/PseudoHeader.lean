import Tahi.Pz.MmChecksum
import Tahi.Pz.PvOctetsCopy

/-! # The checksum over a pseudo header

The checksum of an upper layer is defined over the octets of a pseudo header and of the
datagram, word by word with the carries brought around. The calculator adds plain numbers and
folds their sum twice in the end.
-/

namespace Tahi.Pz

open BitField OnesComplement PvOctets

/-- The octets of the IPv6 pseudo header: the addresses, the length of the upper layer in 32 bits,
    and its type behind three octets of zero. -/
def pseudoHeader (src dst : Memory) (upplen : UInt32) (upptype : Octet) : List Octet :=
  octets src 16 ++ (octets dst 16 ++
    [BitVec.ofNat 8 (upplen.toNat / 2 ^ 24), BitVec.ofNat 8 (upplen.toNat / 2 ^ 16),
      BitVec.ofNat 8 (upplen.toNat / 2 ^ 8), BitVec.ofNat 8 upplen.toNat, 0, 0, 0, upptype])

namespace PvOctets

theorem sum_words_octets (s : Memory) (l : Nat) : (words (octets s l)).sum = wordSum s l := by
  fun_induction wordSum s l with
  | case1 s => rfl
  | case2 s => exact Nat.add_zero _
  | case3 s l ih =>
      have two : octets s (l + 2) = s 0 :: s 1 :: octets (fun i => s (i + 2)) l := by
        rw [octets, octets]
        simp only [Int.zero_add, Int.add_assoc]
        rfl
      rw [two, words, List.sum_cons, ih]

theorem wordSum_le (s : Memory) (l : Nat) : wordSum s l ≤ 65535 * ((l + 1) / 2) := by
  fun_induction wordSum s l with
  | case1 s => exact Nat.zero_le _
  | case2 s =>
      have high := (s 0).isLt
      omega
  | case3 s l ih =>
      have high := (s 0).isLt
      have low := (s 1).isLt
      omega

end PvOctets

namespace ChecksumCalculater

variable (src dst : Memory) (upptype : Octet) {uppbuf : PvOctets}

/-- The words of the pseudo header and of the datagram. -/
def datagram (src dst : Memory) (upptype : Octet) (uppbuf : PvOctets) : List Nat :=
  words (pseudoHeader src dst uppbuf.length upptype ++ octets uppbuf.cell uppbuf.length.toNat)

/-- What the calculator adds up. -/
def accumulated (src dst : Memory) (upptype : Octet) (uppbuf : PvOctets) : UInt32 :=
  sum2Octets ⟨16, src⟩ + sum2Octets ⟨16, dst⟩ + uppbuf.length +
    (Int32.ofNat upptype.toNat).toUInt32 + uppbuf.sum2Octets

theorem datagram_sum (short : uppbuf.length.toNat ≤ 65535) :
    (datagram src dst upptype uppbuf).sum = wordSum src 16 + wordSum dst 16 +
      uppbuf.length.toNat + upptype.toNat + wordSum uppbuf.cell uppbuf.length.toNat := by
  have even : (pseudoHeader src dst uppbuf.length upptype).length % 2 = 0 := by
    simp only [pseudoHeader, List.length_append, length_octets, List.length_cons, List.length_nil]
  have sixteen (s : Memory) : (octets s 16).length % 2 = 0 := by rw [length_octets]
  rw [datagram, words_append even, pseudoHeader, words_append (sixteen src),
    words_append (sixteen dst), List.sum_append, List.sum_append, List.sum_append,
    sum_words_octets, sum_words_octets, sum_words_octets]
  simp only [words, List.sum_cons, List.sum_nil, BitVec.toNat_ofNat]
  change _ + (_ + (_ + (_ + (0 * 256 + 0 + (0 * 256 + upptype.toNat + 0))))) + _ = _
  omega

/-- The sum stays below `2 ^ 32`. -/
theorem datagram_sum_lt (short : uppbuf.length.toNat ≤ 65535) :
    (datagram src dst upptype uppbuf).sum < 2 ^ 32 := by
  have source := wordSum_le src 16
  have destination := wordSum_le dst 16
  have buffer := wordSum_le uppbuf.cell uppbuf.length.toNat
  have type_ := upptype.isLt
  rw [datagram_sum src dst upptype short]
  omega

theorem sum_datagram (short : uppbuf.length.toNat ≤ 65535) :
    residue (datagram src dst upptype uppbuf).sum =
      OnesComplement.sum (datagram src dst upptype uppbuf) :=
  residue_words (words_lt _) (datagram_sum_lt src dst upptype short)

theorem upptype_toNat (t : Octet) : (Int32.ofNat t.toNat).toUInt32.toNat = t.toNat := by
  have octet := t.isLt
  have value : (Int32.ofNat t.toNat).toInt = t.toNat := Int32.toInt_ofNat_of_lt (by omega)
  have read := ItPosition.toNat_toUInt32 (o := Int32.ofNat t.toNat) (by omega)
  omega

/-- No carry is lost on the way. -/
theorem accumulated_toNat (short : uppbuf.length.toNat ≤ 65535) :
    (accumulated src dst upptype uppbuf).toNat = (datagram src dst upptype uppbuf).sum := by
  have bound := datagram_sum_lt src dst upptype short
  have sixteen : (16 : UInt32).toNat = 16 := rfl
  rw [datagram_sum src dst upptype short] at bound ⊢
  simp only [accumulated, UInt32.toNat_add, sum2Octets_toNat, upptype_toNat, sixteen,
    Nat.mod_add_mod, Nat.add_mod_mod]
  exact Nat.mod_eq_of_lt bound

theorem xSum_accumulated (short : uppbuf.length.toNat ≤ 65535) :
    (xSum (accumulated src dst upptype uppbuf)).toNat =
      65535 - OnesComplement.sum (datagram src dst upptype uppbuf) := by
  rw [xSum_toNat, accumulated_toNat src dst upptype short,
    sum_datagram src dst upptype short]

theorem calculate_accumulated (info : Con_IPinfo) (optionable : Bool) :
    calculate (McTopHdr_IPv6.ForIPinfo info ⟨16, src⟩ ⟨16, dst⟩) (Int32.ofNat upptype.toNat)
      uppbuf optionable = transmitted optionable (accumulated src dst upptype uppbuf) := by
  have known : Int32.ofNat upptype.toNat ≠ -1 := by
    intro unknown
    have octet := upptype.isLt
    have value : (Int32.ofNat upptype.toNat).toInt = upptype.toNat :=
      Int32.toInt_ofNat_of_lt (by omega)
    rw [unknown] at value
    change (-1 : Int) = _ at value
    omega
  simp only [calculate, McTopHdr_IPv6.ForIPinfo, if_neg known, accumulated]

/-- The plain sum does not overflow, its two folds are the sum word by word, and the complement of
    that sum is what the calculator returns, unless it is zero and the checksum is optional. -/
theorem calculate_complement (info : Con_IPinfo) (src dst : Memory) (upptype : Octet)
    (uppbuf : PvOctets) (optionable : Bool) (short : uppbuf.length.toNat ≤ 65535) :
    (accumulated src dst upptype uppbuf).toNat = (datagram src dst upptype uppbuf).sum ∧
    (xSum (accumulated src dst upptype uppbuf)).toNat =
      65535 - OnesComplement.sum (datagram src dst upptype uppbuf) ∧
    (optionable = false ∨ OnesComplement.sum (datagram src dst upptype uppbuf) ≠ 65535 →
      (calculate (McTopHdr_IPv6.ForIPinfo info ⟨16, src⟩ ⟨16, dst⟩) (Int32.ofNat upptype.toNat)
        uppbuf optionable).toNat =
          65535 - OnesComplement.sum (datagram src dst upptype uppbuf)) := by
  have complement := xSum_accumulated src dst upptype short
  refine ⟨accumulated_toNat src dst upptype short, complement, fun stays => ?_⟩
  have kept : (optionable && (xSum (accumulated src dst upptype uppbuf)).toUInt32 == 0) = false := by
    cases stays with
    | inl mandatory => rw [mandatory, Bool.false_and]
    | inr nonzero =>
        have bound : OnesComplement.sum (datagram src dst upptype uppbuf) < 65536 := by
          rw [← sum_datagram src dst upptype short]
          exact Nat.mod_lt _ (by decide)
        have differs : (xSum (accumulated src dst upptype uppbuf)).toUInt32 ≠ 0 := by
          intro zero
          have none := congrArg UInt32.toNat zero
          rw [UInt16.toNat_toUInt32, complement] at none
          change _ = 0 at none
          omega
        rw [beq_false_of_ne differs, Bool.and_false]
  rw [calculate_accumulated, transmitted, if_neg (by rw [kept]; decide), UInt16.toNat_toUInt32,
    complement]

/-- Three octets, the last of which is the high one of its word. -/
theorem calculate_complement_three :
    (calculate (McTopHdr_IPv6.ForIPinfo ⟨none, none, false⟩ ⟨16, fun _ => 0⟩ ⟨16, fun _ => 0⟩)
      (Int32.ofNat (17 : Octet).toNat) ⟨3, fun _ => 1⟩ true).toNat =
        65535 - OnesComplement.sum (datagram (fun _ => 0) (fun _ => 0) 17 ⟨3, fun _ => 1⟩) :=
  (calculate_complement ⟨none, none, false⟩ (fun _ => 0) (fun _ => 0) 17 ⟨3, fun _ => 1⟩ true
    (by decide)).2.2 (.inr (by decide))

/-- The complement of an optional checksum is not returned when it is zero. -/
theorem not_calculate_complement : ¬ ∀ (info : Con_IPinfo) (src dst : Memory) (upptype : Octet)
    (uppbuf : PvOctets) (optionable : Bool), uppbuf.length.toNat ≤ 65535 →
    (calculate (McTopHdr_IPv6.ForIPinfo info ⟨16, src⟩ ⟨16, dst⟩) (Int32.ofNat upptype.toNat)
      uppbuf optionable).toNat =
        65535 - OnesComplement.sum (datagram src dst upptype uppbuf) := by
  intro claim
  have zero := claim ⟨none, none, false⟩ (fun _ => 0) (fun _ => 0) 17
    ⟨2, fun i => if i = 0 then 0xFF else 0xEC⟩ true (by decide)
  exact absurd zero (by decide)

end ChecksumCalculater

end Tahi.Pz

import Tahi.Pz.PvOctetsCopy

/-! # Addresses from a network and a host

`merge` lays a number of bits of a network address left adjusted into an address, and what room
there is behind them is taken by the end of the host's octets. A network that is longer than what
the host leaves cuts the host; a shorter one is followed by zeros.
-/

namespace Tahi.Pz

open BitField TracedMemory

namespace PvOctets

/-- `memset` of the whole buffer to zero. -/
def zero (length : UInt32) : Access Unit := memcpy 0 (fun _ => 0) length.toNat

end PvOctets

namespace PvV6Addr

open PvOctets

/-- `sizeof(v6addr)` -/
def length : UInt32 := 16

/-- `merge` of `w` bits of the address `net` and of the host `h` into another address. -/
def merge (net : Memory) (w : UInt16) (h : PvOctets) : Access Unit := do
  let tw := length * 8
  zero length
  let hw := h.length * 8
  if hw > tw then abort
  else
    let pw := if w.toUInt32 + hw < tw then (tw - hw).toUInt16 else w
    let rw := tw - pw.toUInt32
    let it : ItPosition := ⟨0, 0⟩
    encodeLAs net it w
    let it := (it.addBytes (Int32.ofNat (pw / 8).toNat)).addBits (pw % 8)
    let ho := (hw - rw) / 8
    encodeRAs (fun i => h.cell (i + ho.toNat)) it rw.toUInt16

/-- Where the host starts. -/
def start (w l : Nat) : Nat := max w (128 - 8 * l)

variable {w : UInt16} {l : UInt32}

theorem hostWidth_toNat (short : l.toNat ≤ 16) : (l * 8).toNat = 8 * l.toNat := by
  rw [UInt32.toNat_mul, Nat.mul_comm]
  exact Nat.mod_eq_of_lt (by change 8 * l.toNat < 2 ^ 32; omega)

theorem netWidth_toNat (narrow : w.toNat ≤ 128) (short : l.toNat ≤ 16) :
    (if w.toUInt32 + l * 8 < length * 8 then (length * 8 - l * 8).toUInt16 else w).toNat =
      start w.toNat l.toNat := by
  have host := hostWidth_toNat short
  have total : (length * 8).toNat = 128 := rfl
  have le : l * 8 ≤ length * 8 := UInt32.le_iff_toNat_le.mpr (by omega)
  have rest := UInt32.toNat_sub_of_le _ _ le
  have sum : (w.toUInt32 + l * 8).toNat = w.toNat + 8 * l.toNat := by
    rw [UInt32.toNat_add, UInt16.toNat_toUInt32, host]
    exact Nat.mod_eq_of_lt (by omega)
  rw [start]
  split
  · rename_i room
    have room := UInt32.lt_iff_toNat_lt.mp room
    rw [UInt32.toNat_toUInt16, rest]
    omega
  · rename_i full
    have full := UInt32.lt_iff_toNat_lt.not.mp full
    omega

/-- The position behind the network. -/
theorem position_toBits {pw : UInt16} (narrow : pw.toNat ≤ 128) :
    let it := ((ItPosition.mk 0 0).addBytes (Int32.ofNat (pw / 8).toNat)).addBits (pw % 8)
    0 ≤ it.bytes.toInt ∧ it.toBits = pw.toNat := by
  have octets : (Int32.ofNat (pw / 8).toNat).toInt = (pw.toNat / 8 : Nat) := by
    rw [ItPosition.toNat_div_eight]
    exact Int32.toInt_ofNat_of_lt (by omega)
  have from_ : (ItPosition.mk 0 0).addBytes (Int32.ofNat (pw / 8).toNat) =
      ⟨Int32.ofNat (pw / 8).toNat, 0⟩ := by
    rw [ItPosition.addBytes, Int32.zero_add]
  have bytes : (ItPosition.mk (Int32.ofNat (pw / 8).toNat) 0).bytes.toInt = (pw.toNat / 8 : Nat) := by
    rw [ItPosition.bytes_mk (by decide), octets]
  have bits : (pw % 8).toNat = pw.toNat % 8 := ItPosition.toNat_mod_eight pw
  have base : (ItPosition.mk (Int32.ofNat (pw / 8).toNat) 0).toBits = 8 * (pw.toNat / 8 : Nat) := by
    rw [ItPosition.toBits, bytes]
    rfl
  have moved := @ItPosition.toBits_addBits ⟨Int32.ofNat (pw / 8).toNat, 0⟩ (pw % 8)
    (Nat.zero_lt_succ 7) (by omega) (by omega) (by omega)
  rw [from_]
  refine ⟨moved.2.1, ?_⟩
  rw [moved.2.2, base, bits]
  omega

/-- The octets from which the host is stored end with its last `r` bits. -/
theorem host_value (c : Memory) {l r : Nat} (short : r ≤ 8 * l) :
    value (fun i => c (i + ((8 * l - r) / 8 : Nat))) ((7 - (r - 1) % 8 : Nat) : Int) r =
      value c (8 * l - r : Nat) r := by
  by_cases none : r = 0
  · rw [none]
    rfl
  · have place : ((7 - (r - 1) % 8 : Nat) : Int) + 8 * ((8 * l - r) / 8 : Nat) =
        (8 * l - r : Nat) := by omega
    rw [value_shift, place]

/-- The address that `merge` leaves. -/
def merged (net : Memory) (w : Nat) (h : Memory) (l : Nat) (m : Memory) : Memory :=
  put (put (put m 0 128 0) 0 w (value net 0 w)) (start w l) (128 - start w l)
    (value h (8 * l - (128 - start w l) : Nat) (128 - start w l))

theorem merge_runs (net : Memory) (h : PvOctets) (narrow : w.toNat ≤ 128)
    (short : h.length.toNat ≤ 16) (m : Memory) :
    Runs (merge net w h) m () (merged net w.toNat h.cell h.length.toNat m) := by
  have host := hostWidth_toNat short
  have total : (length * 8).toNat = 128 := rfl
  have fits : ¬h.length * 8 > length * 8 := by
    apply UInt32.not_lt.mpr
    exact UInt32.le_iff_toNat_le.mpr (by omega)
  have cut := netWidth_toNat narrow short
  simp only [merge, if_neg fits]
  generalize (if w.toUInt32 + h.length * 8 < length * 8 then _ else w) = pw at cut ⊢
  have bound : pw.toNat ≤ 128 := by
    rw [cut, start]
    omega
  have covers : 128 - pw.toNat ≤ 8 * h.length.toNat := by
    rw [cut, start]
    omega
  have rest : (length * 8 - pw.toUInt32).toNat = 128 - pw.toNat := by
    rw [UInt32.toNat_sub_of_le, UInt16.toNat_toUInt32, total]
    exact UInt32.le_iff_toNat_le.mpr (by rw [UInt16.toNat_toUInt32, total]; exact bound)
  have width : (length * 8 - pw.toUInt32).toUInt16.toNat = 128 - pw.toNat := by
    rw [UInt32.toNat_toUInt16, rest]
    exact Nat.mod_eq_of_lt (by omega)
  have offset : ((h.length * 8 - (length * 8 - pw.toUInt32)) / 8).toNat =
      (8 * h.length.toNat - (128 - pw.toNat)) / 8 := by
    rw [UInt32.toNat_div, UInt32.toNat_sub_of_le, host, rest]
    · rfl
    · exact UInt32.le_iff_toNat_le.mpr (by rw [host, rest]; exact covers)
  obtain ⟨nonneg, place⟩ := position_toBits bound
  have cleared : Runs (zero length) m () (put m 0 128 0) := by
    have stored := (memcpy_puts 0 (fun _ => 0) 16).runs m
    rwa [zero_value] at stored
  have netStored := (@encodeLAs_stores ⟨0, 0⟩ w 16 net
    ⟨by decide, by change (0 : Int) + _ ≤ _; omega, by change (0 : Int) + _ ≤ _; omega⟩).puts
  have hostStored := (encodeRAs_stores (w := (length * 8 - pw.toUInt32).toUInt16) (n := 16)
    (fun i => h.cell (i + ((h.length * 8 - (length * 8 - pw.toUInt32)) / 8).toNat))
    ⟨nonneg, by rw [place, width]; omega, by rw [place, width]; omega⟩).puts
  have origin : (ItPosition.mk 0 0).toBits = 0 := rfl
  rw [origin] at netStored
  rw [place, width, offset, host_value h.cell covers, cut] at hostStored
  refine cleared.bind ((netStored.runs _).bind ?_)
  rw [offset, cut]
  exact hostStored.runs _

/-- The address holds the first bits of the network, then zeros as far as the host does not reach,
    then the last bits of the host. -/
theorem merge_bits (net : Memory) (w : UInt16) (h : PvOctets) (narrow : w.toNat ≤ 128)
    (short : h.length.toNat ≤ 16) (m : Memory) :
    ∃ m', Runs (merge net w h) m () m' ∧ ∀ k : Int, 0 ≤ k → k < 128 →
      bit m' k =
        if k < w.toNat then bit net k
        else if k < max w.toNat (128 - 8 * h.length.toNat) then false
        else bit h.cell (8 * h.length.toNat - (128 - k)) := by
  refine ⟨_, merge_runs net h narrow short m, fun k low high => ?_⟩
  have zeros := writes_put m 0 128 0
  have left := writes_put (put m 0 128 0) 0 w.toNat (value net 0 w.toNat)
  have right := writes_put (put (put m 0 128 0) 0 w.toNat (value net 0 w.toNat))
    (start w.toNat h.length.toNat) (128 - start w.toNat h.length.toNat)
    (value h.cell (8 * h.length.toNat - (128 - start w.toNat h.length.toNat) : Nat)
      (128 - start w.toNat h.length.toNat))
  have behind : w.toNat ≤ start w.toNat h.length.toNat := Nat.le_max_left _ _
  have bound : start w.toNat h.length.toNat ≤ 128 := by
    rw [start]
    omega
  have covers : 128 - start w.toNat h.length.toNat ≤ 8 * h.length.toNat := by
    rw [start]
    omega
  change bit (put (put (put m 0 128 0) 0 w.toNat _) _ _ _) k =
    if k < w.toNat then bit net k
    else if k < (start w.toNat h.length.toNat : Nat) then false
    else bit h.cell (8 * h.length.toNat - (128 - k))
  split
  · rename_i inNet
    have copied := left.bit_copied low inNet
    rw [Int.zero_add] at copied
    rw [right.outside (.inl (by omega)), copied]
  · rename_i behindNet
    split
    · rename_i between
      rw [right.outside (.inl between), left.outside (.inr (by omega)),
        zeros.inside low (by omega), Nat.zero_testBit]
    · rename_i inHost
      have copied := right.bit_copied (k := k - (start w.toNat h.length.toNat : Nat)) (by omega)
        (by omega)
      have place : ((start w.toNat h.length.toNat : Nat) : Int) +
          (k - (start w.toNat h.length.toNat : Nat)) = k := by omega
      have source : ((8 * h.length.toNat - (128 - start w.toNat h.length.toNat) : Nat) : Int) +
          (k - (start w.toNat h.length.toNat : Nat)) = 8 * h.length.toNat - (128 - k) := by omega
      rw [place, source] at copied
      exact copied

/-- Twelve bits of a network of ones, and a host of one octet. -/
theorem merge_bits_twelve : ∃ m',
    Runs (merge (fun _ => 255) 12 ⟨1, fun _ => 0xA5⟩) (fun _ => 0) () m' ∧
    bit m' 11 = true ∧ bit m' 12 = false ∧ bit m' 119 = false ∧ bit m' 120 = true ∧
    bit m' 121 = false := by
  obtain ⟨m', runs, bits⟩ := merge_bits (fun _ => 255) 12 ⟨1, fun _ => 0xA5⟩ (by decide) (by decide)
    (fun _ => 0)
  refine ⟨m', runs, ?_⟩
  rw [bits 11 (by decide) (by decide), bits 12 (by decide) (by decide),
    bits 119 (by decide) (by decide), bits 120 (by decide) (by decide),
    bits 121 (by decide) (by decide)]
  decide

end PvV6Addr

end Tahi.Pz

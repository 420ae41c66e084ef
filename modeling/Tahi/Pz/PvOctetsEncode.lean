import Tahi.Pz.PvOctetsUint

/-! # Storing strings of octets

`encode` stores a string at any position: an aligned one is copied, any other goes
through the left adjusted codec. `encodeZero` clears a field of any size.
-/

namespace Tahi.Pz.PvOctets

open BitField TracedMemory

/-- `memcpy` of the `l` octets that stand at `s`. -/
def memcpy (dst : Int) (s : Memory) : Nat → Access Unit
  | 0 => pure ()
  | l + 1 => do
    store dst (s 0)
    memcpy (dst + 1) (fun i => s (i + 1)) l

/-- `encode` into a buffer of `length` octets. -/
def encode (length : UInt32) (at_ : ItPosition) (o : PvOctets) : Access Unit :=
  if at_.bits > 0 then encodeLAs o.cell at_ (o.length * 8).toUInt16
  else if at_.bytes.toUInt32 > length then abort
  else memcpy at_.bytes.toUInt32.toNat o.cell o.length.toNat

def zeroOctets (l : UInt32) : PvOctets := ⟨l, fun _ => 0⟩

/-- The first half of `encodeZero`: the octets of the field. -/
def zeroBytes (length : UInt32) (offset : ItPosition) (len : UInt32) : Access Unit :=
  if len > 0 then encode length offset (zeroOctets len) else pure ()

/-- The second half: the bits that remain. -/
def zeroBits (host : ByteOrder) (offset : ItPosition) (bitlen : UInt16) : Access Unit :=
  if bitlen > 0 then encodeUint host 0 offset bitlen else pure ()

/-- `encodeZero` in a buffer of `length` octets. -/
def encodeZero (host : ByteOrder) (length : UInt32) (at_ size : ItPosition) : Access Unit := do
  let offset := at_.copy
  let len := size.bytes.toUInt32
  zeroBytes length offset len
  zeroBits host (if len > 0 then offset.addBytes len.toInt32 else offset) size.bits

theorem memcpy_puts (dst : Int) (s : Memory) (l : Nat) :
    Puts (memcpy dst s l) (8 * dst) (8 * l) (value s 0 (8 * l)) := by
  induction l generalizing dst s with
  | zero => exact (Stores.nothing _ _).puts
  | succ l ih =>
      have width : 8 * (l + 1) = 8 + 8 * l := by omega
      have next : 8 * (dst + 1) = 8 * dst + (8 : Nat) := by omega
      have rest : value (fun i => s (i + 1)) 0 (8 * l) % 2 ^ (8 * l) =
          value s 0 (8 + 8 * l) % 2 ^ (8 * l) := by
        rw [value_shift, value_low, Nat.mod_eq_of_lt (value_lt _ _ _)]
        rfl
      have first : (s 0).toNat = value s 0 (8 + 8 * l) / 2 ^ (8 * l) := by
        rw [value_high]
        exact (value_octet s 0).symm
      obtain ⟨_, low⟩ := ih (dst + 1) (fun i => s (i + 1))
      have high := store_stores dst (s 0)
      rw [first] at high
      rw [width]
      exact high.puts.seq (low.congr next rest fun _ => Iff.rfl).puts

variable {at_ : ItPosition} {n : Nat}

private theorem width_toNat {l : UInt32} (small : 8 * l.toNat < 2 ^ 16) :
    (l * 8).toUInt16.toNat = 8 * l.toNat := by
  have product : (l * 8).toNat = 8 * l.toNat := by
    rw [UInt32.toNat_mul, Nat.mul_comm]
    exact Nat.mod_eq_of_lt (by change 8 * l.toNat < 2 ^ 32; omega)
  rw [UInt32.toNat_toUInt16, product]
  exact Nat.mod_eq_of_lt small

/-- A string is stored where it is sent, if it starts at an octet or its width
    can be counted in 16 bits. -/
theorem encode_puts {length : UInt32} {o : PvOctets}
    (inside : Inside at_ (8 * o.length.toNat) length.toNat)
    (narrow : at_.bits = 0 ∨ 8 * o.length.toNat < 2 ^ 16) :
    Puts (encode length at_ o) at_.toBits (8 * o.length.toNat)
      (value o.cell 0 (8 * o.length.toNat)) := by
  unfold encode
  by_cases aligned : at_.bits > 0
  · have small : 8 * o.length.toNat < 2 ^ 16 := by
      cases narrow with
      | inl zero =>
          rw [zero] at aligned
          exact absurd aligned (by decide)
      | inr small => exact small
    have width := width_toNat small
    have stored := encodeLAs_stores (w := (o.length * 8).toUInt16) o.cell (by rwa [width])
    rw [width] at stored
    rw [if_pos aligned]
    exact stored.puts
  · have zero : at_.bits = 0 := by
      apply UInt16.toNat_inj.mp
      exact Nat.eq_zero_of_not_pos fun h => aligned (UInt16.lt_iff_toNat_lt.mpr h)
    obtain ⟨offset, -⟩ := offset_eq inside.nonneg
    have fits := inside.fits
    have place : at_.toBits = 8 * at_.bytes.toInt := by
      rw [ItPosition.toBits, zero]
      exact Int.add_zero _
    have starts : ¬at_.bytes.toUInt32 > length := by
      apply UInt32.not_lt.mpr
      rw [UInt32.le_iff_toNat_le]
      omega
    have stored := memcpy_puts at_.bytes.toUInt32.toNat o.cell o.length.toNat
    rw [offset, ← place] at stored
    rwa [if_neg aligned, if_neg starts, offset]

theorem zero_value (w : Nat) (p : Int) : value (fun _ => 0) p w = 0 := by
  apply Nat.eq_of_testBit_eq
  intro i
  rw [testBit_value, bit]
  simp

theorem inside_copy {w : Nat} : Inside at_.copy w n ↔ Inside at_ w n := by
  constructor
  · rintro ⟨nonneg, fits, countable⟩
    rw [ItPosition.bytes_copy] at nonneg
    rw [ItPosition.toBits_copy] at fits countable
    exact ⟨nonneg, fits, countable⟩
  · rintro ⟨nonneg, fits, countable⟩
    rw [← ItPosition.bytes_copy] at nonneg
    rw [← ItPosition.toBits_copy] at fits countable
    exact ⟨nonneg, fits, countable⟩

private theorem zeroBytes_puts {length len : UInt32}
    (inside : Inside at_ (8 * len.toNat) length.toNat)
    (narrow : at_.bits = 0 ∨ 8 * len.toNat < 2 ^ 16) :
    Puts (zeroBytes length at_ len) at_.toBits (8 * len.toNat) 0 := by
  unfold zeroBytes
  by_cases some_ : len > 0
  · have stored := encode_puts (o := zeroOctets len) inside narrow
    rw [if_pos some_]
    rwa [show (zeroOctets len).length = len from rfl, zeroOctets, zero_value] at stored
  · have none : len.toNat = 0 :=
      Nat.eq_zero_of_not_pos fun h => some_ (UInt32.lt_iff_toNat_lt.mpr h)
    rw [if_neg some_, none]
    exact (Stores.nothing _ _).puts

private theorem zeroBits_puts (host : ByteOrder) {bitlen : UInt16} (word : bitlen.toNat ≤ 32)
    (inside : 0 < bitlen.toNat → Inside at_ bitlen.toNat n) :
    Puts (zeroBits host at_ bitlen) at_.toBits bitlen.toNat 0 := by
  unfold zeroBits
  by_cases some_ : bitlen > 0
  · have pos : 0 < bitlen.toNat := UInt16.lt_iff_toNat_lt.mp some_
    rw [if_pos some_]
    exact (encodeUint_stores host 0 (inside pos) pos word).puts
  · have none : bitlen.toNat = 0 :=
      Nat.eq_zero_of_not_pos fun h => some_ (UInt16.lt_iff_toNat_lt.mpr h)
    rw [if_neg some_, none]
    exact (Stores.nothing _ _).puts

/-- The position behind the octets of a field. -/
private theorem offset_octets {o : Int32} {k : Nat} (octets : o.toInt = k)
    (nonneg : 0 ≤ at_.bytes.toInt) (reach : at_.toBits + (8 * k : Nat) < 8 * 2 ^ 31) :
    0 ≤ (if o.toUInt32 > 0 then at_.copy.addBytes o.toUInt32.toInt32
      else at_.copy).bytes.toInt ∧
    (if o.toUInt32 > 0 then at_.copy.addBytes o.toUInt32.toInt32 else at_.copy).toBits =
      at_.toBits + (8 * k : Nat) := by
  have start := at_.bits_lt
  have unsigned := (@offset_eq ⟨o, 0⟩ (by rw [ItPosition.bytes_mk (by decide)]; omega)).1
  rw [ItPosition.bytes_mk (by decide)] at unsigned
  have bits := at_.bits_copy
  rw [ItPosition.toBits] at reach
  by_cases some_ : o.toUInt32 > 0
  · have bytes : (at_.copy.addBytes o.toUInt32.toInt32).bytes.toInt = at_.bytes.toInt + k := by
      change (ItPosition.mk (at_.bytes + o) at_.bits).bytes.toInt = _
      rw [ItPosition.bytes_mk start, ItPosition.toInt_add_of_bounds, octets] <;> omega
    have same : (at_.copy.addBytes o.toUInt32.toInt32).bits = at_.bits := bits
    rw [if_pos some_, ItPosition.toBits, ItPosition.toBits, bytes, same]
    omega
  · have none : o.toUInt32.toNat = 0 :=
      Nat.eq_zero_of_not_pos fun h => some_ (UInt32.lt_iff_toNat_lt.mpr h)
    rw [if_neg some_, ItPosition.bytes_copy, ItPosition.toBits_copy]
    omega

/-- A field is cleared, whatever its size, under the same condition. -/
theorem encodeZero_puts (host : ByteOrder) {length : UInt32} {size : ItPosition} {k j : Nat}
    (octets : size.bytes.toInt = k) (bits : size.bits.toNat = j)
    (inside : Inside at_ (8 * k + j) length.toNat) (narrow : at_.bits = 0 ∨ 8 * k < 2 ^ 16) :
    Puts (encodeZero host length at_ size) at_.toBits (8 * k + j) 0 := by
  obtain ⟨nonneg, fits, countable⟩ := inside
  have remainder := size.bits_lt
  have start := at_.bits_lt
  have len : size.bytes.toUInt32.toNat = k := by
    have unsigned := (@offset_eq size (by omega)).1
    omega
  have first : Puts (zeroBytes length at_.copy size.bytes.toUInt32) _ _ 0 := zeroBytes_puts
    (inside_copy.mpr (by rw [len]; exact ⟨nonneg, by omega, by omega⟩))
    (by rwa [ItPosition.bits_copy, len])
  rw [ItPosition.toBits_copy, len] at first
  have word : size.bits.toNat ≤ 32 := by omega
  by_cases more : 0 < j
  · have moved := @offset_octets at_ size.bytes k octets nonneg (by omega)
    obtain ⟨forward, place⟩ := moved
    have second := zeroBits_puts host (n := length.toNat) word fun _ =>
      (⟨forward, by omega, by omega⟩ : Inside (if size.bytes.toUInt32 > 0 then
        at_.copy.addBytes size.bytes.toUInt32.toInt32 else at_.copy) size.bits.toNat length.toNat)
    rw [place, bits] at second
    refine Puts.seq ?_ second
    rwa [Nat.zero_div]
  · have none : ¬size.bits > 0 := fun h => more (bits ▸ UInt16.lt_iff_toNat_lt.mp h)
    have zero : j = 0 := by omega
    have second : Puts (zeroBits host (if size.bytes.toUInt32 > 0 then
        at_.copy.addBytes size.bytes.toUInt32.toInt32 else at_.copy) size.bits)
        (at_.toBits + (8 * k : Nat)) j 0 := by
      rw [zeroBits, if_neg none, zero]
      exact (Stores.nothing _ _).puts
    refine Puts.seq ?_ second
    rwa [Nat.zero_div]

end Tahi.Pz.PvOctets

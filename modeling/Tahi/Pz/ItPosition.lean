import Mathlib.Algebra.Order.Ring.Int

/-! # Positions in a packet

`ItPosition` counts octets in a signed 32-bit member and bits in an unsigned
16-bit member. The accessors carry whole octets of the bit member over; the
adding functions keep its remainder only, so a position is copied, and thereby
normalised, before it is moved.
-/

namespace Tahi.Pz

structure ItPosition where
  bytes_ : Int32
  bits_ : UInt16
deriving DecidableEq, Repr

namespace ItPosition

/-- The accessor, not the member: octets held in `bits_` are carried over. -/
def bytes (i : ItPosition) : Int32 := i.bytes_ + Int32.ofNat (i.bits_ / 8).toNat

def bits (i : ItPosition) : UInt16 := i.bits_ % 8

/-- The copy constructor and the assignment, both of which normalise. -/
def copy (i : ItPosition) : ItPosition := ⟨i.bytes, i.bits⟩

def addBytes (i : ItPosition) (o : Int32) : ItPosition := { i with bytes_ := i.bytes_ + o }

def addBits (i : ItPosition) (w : UInt16) : ItPosition :=
  let n := i.bits + w
  { i.addBytes (Int32.ofNat (n / 8).toNat) with bits_ := n % 8 }

def add (i j : ItPosition) : ItPosition := (i.addBits j.bits).addBytes j.bytes

def subtractBytes (i : ItPosition) (o : Int32) : ItPosition := { i with bytes_ := i.bytes_ - o }

def subtractBits (i : ItPosition) (w : UInt16) : ItPosition :=
  let n := i.bits
  if w ≤ n then { i with bits_ := (n - w) % 8 }
  else
    let d := w - n
    { i.subtractBytes (Int32.ofNat (d / 8 + 1).toNat) with bits_ := (8 - d) % 8 }

def subtract (i j : ItPosition) : ItPosition := (i.subtractBytes j.bytes).subtractBits j.bits

/-- `operator<`: the octets are compared as unsigned words. -/
def lt (i j : ItPosition) : Bool :=
  let mi := i.bits
  let my := (i.bytes + Int32.ofNat (mi / 8).toNat).toUInt32
  let yi := j.bits
  let yy := (j.bytes + Int32.ofNat (yi / 8).toNat).toUInt32
  my < yy || (my == yy && mi % 8 < yi % 8)

/-- `operator==`. -/
def eq (i j : ItPosition) : Bool :=
  let mi := i.bits
  let my := (i.bytes + Int32.ofNat (mi / 8).toNat).toUInt32
  let yi := j.bits
  let yy := (j.bytes + Int32.ofNat (yi / 8).toNat).toUInt32
  my == yy && mi % 8 == yi % 8

/-- `operator<=`. -/
def le (i j : ItPosition) : Bool := i.lt j || i.eq j

/-- `operator>`: the bits are compared as in `operator<`. -/
def gt (i j : ItPosition) : Bool :=
  let mi := i.bits
  let my := (i.bytes + Int32.ofNat (mi / 8).toNat).toUInt32
  let yi := j.bits
  let yy := (j.bytes + Int32.ofNat (yi / 8).toNat).toUInt32
  my > yy || (my == yy && mi % 8 < yi % 8)

/-- `operator>=`. -/
def ge (i j : ItPosition) : Bool := i.gt j || i.eq j

/-- `operator!=`. -/
def ne (i j : ItPosition) : Bool := !i.eq j

/-- The position as one number of bits. -/
def toBits (i : ItPosition) : Int := 8 * i.bytes.toInt + i.bits.toNat

theorem toNat_mod_eight (b : UInt16) : (b % 8).toNat = b.toNat % 8 := UInt16.toNat_mod b 8

theorem toNat_div_eight (b : UInt16) : (b / 8).toNat = b.toNat / 8 := UInt16.toNat_div b 8

theorem bits_lt (i : ItPosition) : i.bits.toNat < 8 := by
  rw [bits, toNat_mod_eight]
  exact Nat.mod_lt _ (by decide)

@[simp] theorem bits_mk (o : Int32) (b : UInt16) : (mk o b).bits = b % 8 := rfl

@[simp] theorem bits_copy (i : ItPosition) : i.copy.bits = i.bits := by
  apply UInt16.toNat_inj.mp
  change (i.bits % 8).toNat = _
  rw [toNat_mod_eight]
  exact Nat.mod_eq_of_lt i.bits_lt

/-- A position whose bit member is below eight reads back its octet member. -/
theorem bytes_mk {o : Int32} {b : UInt16} (small : b.toNat < 8) : (mk o b).bytes = o := by
  have carry : (b / 8).toNat = 0 := by
    rw [toNat_div_eight]
    exact Nat.div_eq_of_lt small
  rw [bytes, carry]
  exact Int32.add_zero o

@[simp] theorem bytes_copy (i : ItPosition) : i.copy.bytes = i.bytes := bytes_mk i.bits_lt

@[simp] theorem toBits_copy (i : ItPosition) : i.copy.toBits = i.toBits := by
  simp only [toBits, bytes_copy, bits_copy]

/-- The accessors leave nothing to carry over. -/
theorem bytes_carried (i : ItPosition) : i.bytes + Int32.ofNat (i.bits / 8).toNat = i.bytes := by
  have none : (i.bits / 8).toNat = 0 := by
    rw [toNat_div_eight]
    exact Nat.div_eq_of_lt i.bits_lt
  rw [none]
  exact Int32.add_zero _

theorem bits_carried (i : ItPosition) : i.bits % 8 = i.bits := by
  apply UInt16.toNat_inj.mp
  rw [toNat_mod_eight]
  exact Nat.mod_eq_of_lt i.bits_lt

theorem toInt_add_of_bounds {a b : Int32} (lo : -2 ^ 31 ≤ a.toInt + b.toInt)
    (hi : a.toInt + b.toInt < 2 ^ 31) : (a + b).toInt = a.toInt + b.toInt := by
  rw [Int32.toInt_add]
  apply Int.bmod_eq_of_le <;> omega

theorem toInt_sub_of_bounds {a b : Int32} (lo : -2 ^ 31 ≤ a.toInt - b.toInt)
    (hi : a.toInt - b.toInt < 2 ^ 31) : (a - b).toInt = a.toInt - b.toInt := by
  rw [Int32.toInt_sub]
  apply Int.bmod_eq_of_le <;> omega

/-- Comparing whole octets. -/
theorem lt_octets {i j : ItPosition} (wholeI : i.bits = 0) (wholeJ : j.bits = 0) :
    i.lt j = decide (i.bytes.toUInt32 < j.bytes.toUInt32) := by
  have carry (o : Int32) : o + Int32.ofNat ((0 : UInt16) / 8).toNat = o := Int32.add_zero o
  simp only [lt, wholeI, wholeJ, carry]
  simp

theorem subtract_octets (o : Int32) {j : ItPosition} (whole : j.bits = 0) :
    (mk o 0).subtract j = ⟨o - j.bytes, 0⟩ := by
  have zero : (mk (o - j.bytes) 0).bits = 0 := by
    change (0 : UInt16) % 8 = 0
    decide
  simp only [subtract, subtractBytes, subtractBits, whole, zero]
  rfl

/-- Moving a normalised position by a width, as long as the octet that is
    reached can still be counted. -/
theorem toBits_addBits {i : ItPosition} {w : UInt16} (normal : i.bits_.toNat < 8)
    (width : w.toNat ≤ 65528) (start : 0 ≤ i.bytes.toInt)
    (reach : i.toBits + w.toNat < 8 * 2 ^ 31) :
    (i.addBits w).bits_.toNat < 8 ∧ 0 ≤ (i.addBits w).bytes.toInt ∧
      (i.addBits w).toBits = i.toBits + w.toNat := by
  have bytesOld : i.bytes = i.bytes_ := bytes_mk normal
  have remainder := i.bits_lt
  have sum : (i.bits + w).toNat = i.bits.toNat + w.toNat := by
    rw [UInt16.toNat_add]
    exact Nat.mod_eq_of_lt (by omega)
  have bitsNew : ((i.bits + w) % 8).toNat = (i.bits.toNat + w.toNat) % 8 := by
    rw [toNat_mod_eight, sum]
  have small : ((i.bits + w) % 8).toNat < 8 := by omega
  have carry : (Int32.ofNat ((i.bits + w) / 8).toNat).toInt =
      ((i.bits.toNat + w.toNat) / 8 : Nat) := by
    rw [toNat_div_eight, sum]
    exact Int32.toInt_ofNat_of_lt (by omega)
  have bytesNew : (i.addBits w).bytes.toInt =
      i.bytes.toInt + ((i.bits.toNat + w.toNat) / 8 : Nat) := by
    have moved : (i.addBits w).bytes = i.bytes_ + Int32.ofNat ((i.bits + w) / 8).toNat :=
      bytes_mk small
    rw [moved, toInt_add_of_bounds, carry, bytesOld]
    · rw [carry, ← bytesOld]
      omega
    · rw [carry, ← bytesOld]
      rw [toBits] at reach
      omega
  refine ⟨small, by omega, ?_⟩
  have normalised : (i.addBits w).bits = (i.bits + w) % 8 := by
    apply UInt16.toNat_inj.mp
    change ((i.bits + w) % 8 % 8).toNat = _
    rw [toNat_mod_eight]
    exact Nat.mod_eq_of_lt small
  simp only [toBits, bytesNew, normalised, bitsNew]
  omega

/-- Moving a normalised position by another one. -/
theorem toBits_add {i j : ItPosition} (normal : i.bits_.toNat < 8) (start : 0 ≤ i.bytes.toInt)
    (forward : 0 ≤ j.bytes.toInt) (reach : i.toBits + j.toBits < 8 * 2 ^ 31) :
    (i.add j).bits_.toNat < 8 ∧ 0 ≤ (i.add j).bytes.toInt ∧
      (i.add j).toBits = i.toBits + j.toBits := by
  have bitsLt := j.bits_lt
  have octets : j.toBits = 8 * j.bytes.toInt + j.bits.toNat := rfl
  obtain ⟨small, nonneg, moved⟩ := toBits_addBits (w := j.bits) normal (by omega) start (by omega)
  have bytesOld : (i.addBits j.bits).bytes = (i.addBits j.bits).bytes_ := bytes_mk small
  have place : (i.addBits j.bits).toBits =
      8 * (i.addBits j.bits).bytes.toInt + (i.addBits j.bits).bits.toNat := rfl
  have bytesNew : (i.add j).bytes.toInt = (i.addBits j.bits).bytes.toInt + j.bytes.toInt := by
    have reached : (i.add j).bytes = (i.addBits j.bits).bytes_ + j.bytes := bytes_mk small
    rw [reached, ← bytesOld, toInt_add_of_bounds] <;> omega
  have bitsNew : (i.add j).bits = (i.addBits j.bits).bits := rfl
  refine ⟨small, by omega, ?_⟩
  rw [toBits, bytesNew, bitsNew]
  omega

/-- Moving a normalised position forward, wherever it starts. -/
theorem toBits_add_forward {i j : ItPosition} (normal : i.bits_.toNat < 8)
    (forward : 0 ≤ j.bytes.toInt) (reach : i.toBits + j.toBits < 8 * 2 ^ 31) :
    (i.add j).bits_.toNat < 8 ∧ (i.add j).toBits = i.toBits + j.toBits := by
  have bitsLt := j.bits_lt
  have bitsLt' := i.bits_lt
  have bytesOld : i.bytes = i.bytes_ := bytes_mk normal
  have lowest := i.bytes_.le_toInt
  have sum : (i.bits + j.bits).toNat = i.bits.toNat + j.bits.toNat := by
    rw [UInt16.toNat_add]
    exact Nat.mod_eq_of_lt (by omega)
  have bitsNew : ((i.bits + j.bits) % 8).toNat = (i.bits.toNat + j.bits.toNat) % 8 := by
    rw [toNat_mod_eight, sum]
  have small : ((i.bits + j.bits) % 8).toNat < 8 := by omega
  have carry : (Int32.ofNat ((i.bits + j.bits) / 8).toNat).toInt =
      ((i.bits.toNat + j.bits.toNat) / 8 : Nat) := by
    rw [toNat_div_eight, sum]
    exact Int32.toInt_ofNat_of_lt (by omega)
  rw [toBits, toBits, bytesOld] at reach
  have carried : (i.bytes_ + Int32.ofNat ((i.bits + j.bits) / 8).toNat).toInt =
      i.bytes_.toInt + ((i.bits.toNat + j.bits.toNat) / 8 : Nat) := by
    rw [toInt_add_of_bounds, carry]
    · rw [carry]
      omega
    · rw [carry]
      omega
  have moved : (i.add j).bytes.toInt =
      i.bytes_.toInt + ((i.bits.toNat + j.bits.toNat) / 8 : Nat) + j.bytes.toInt := by
    have reached : (i.add j).bytes =
        i.bytes_ + Int32.ofNat ((i.bits + j.bits) / 8).toNat + j.bytes := bytes_mk small
    rw [reached, toInt_add_of_bounds, carried]
    · rw [carried]
      omega
    · rw [carried]
      omega
  have normalised : (i.add j).bits.toNat = (i.bits.toNat + j.bits.toNat) % 8 := by
    change ((i.bits + j.bits) % 8 % 8).toNat = _
    rw [toNat_mod_eight, bitsNew]
    exact Nat.mod_mod _ _
  refine ⟨small, ?_⟩
  rw [toBits, moved, normalised, toBits, toBits, bytesOld]
  omega

/-- A width may be given in bits only. -/
theorem toBits_mk {o : Int32} {w : UInt16} (reach : 8 * o.toInt + w.toNat < 8 * 2 ^ 31) :
    (mk o w).toBits = 8 * o.toInt + w.toNat := by
  have lowest := o.le_toInt
  have carry : (Int32.ofNat (w / 8).toNat).toInt = (w.toNat / 8 : Nat) := by
    rw [toNat_div_eight]
    exact Int32.toInt_ofNat_of_lt (by have bound := w.toNat_lt; omega)
  have moved : (mk o w).bytes.toInt = o.toInt + (w.toNat / 8 : Nat) := by
    change (o + Int32.ofNat (w / 8).toNat).toInt = _
    rw [toInt_add_of_bounds, carry]
    · rw [carry]
      omega
    · rw [carry]
      omega
  rw [toBits, moved, bits_mk, toNat_mod_eight]
  omega

theorem eq_iff (i j : ItPosition) : i.eq j = true ↔ i.toBits = j.toBits := by
  have same : i.bytes.toUInt32 = j.bytes.toUInt32 ↔ i.bytes = j.bytes :=
    ⟨fun h => congrArg UInt32.toInt32 h, congrArg Int32.toUInt32⟩
  have bitsLt := i.bits_lt
  have bitsLt' := j.bits_lt
  rw [eq, bytes_carried, bytes_carried, bits_carried, bits_carried, Bool.and_eq_true, beq_iff_eq, beq_iff_eq, same,
    ← Int32.toInt_inj, ← UInt16.toNat_inj, toBits, toBits]
  omega

/-- Moving a normalised position back by another one. The difference of the octets alone may wrap
    before a borrow brings it back. -/
theorem toBits_subtract {i j : ItPosition} (normal : i.bits_.toNat < 8)
    (lo : -(8 * 2 ^ 31) ≤ i.toBits - j.toBits) (hi : i.toBits - j.toBits < 8 * 2 ^ 31) :
    (i.subtract j).bits_.toNat < 8 ∧ (i.subtract j).toBits = i.toBits - j.toBits := by
  have bitsLt := j.bits_lt
  have bytesOld : i.bytes = i.bytes_ := bytes_mk normal
  have bitsOld : i.bits.toNat = i.bits_.toNat := by
    rw [bits, toNat_mod_eight]
    exact Nat.mod_eq_of_lt normal
  rw [toBits, toBits] at lo hi
  have unfolded : i.subtract j = (mk (i.bytes_ - j.bytes) i.bits_).subtractBits j.bits := rfl
  have same : (mk (i.bytes_ - j.bytes) i.bits_).bits = i.bits := rfl
  rw [unfolded, subtractBits, same]
  by_cases enough : j.bits ≤ i.bits
  · have le := UInt16.le_iff_toNat_le.mp enough
    have bitsNew : ((i.bits - j.bits) % 8).toNat = i.bits.toNat - j.bits.toNat := by
      rw [toNat_mod_eight, UInt16.toNat_sub_of_le _ _ enough]
      exact Nat.mod_eq_of_lt (by omega)
    have small : ((i.bits - j.bits) % 8).toNat < 8 := by omega
    have difference : (i.bytes_ - j.bytes).toInt = i.bytes.toInt - j.bytes.toInt := by
      rw [← bytesOld]
      exact toInt_sub_of_bounds (by omega) (by omega)
    rw [if_pos enough]
    refine ⟨small, ?_⟩
    have reduced : ((i.bits - j.bits) % 8 % 8).toNat = i.bits.toNat - j.bits.toNat := by
      rw [toNat_mod_eight, bitsNew]
      exact Nat.mod_eq_of_lt (by omega)
    rw [toBits, bytes_mk small, bits_mk, reduced, difference, toBits, toBits]
    omega
  · have gt : i.bits.toNat < j.bits.toNat :=
      UInt16.lt_iff_toNat_lt.mp (UInt16.not_le.mp enough)
    have borrow : (j.bits - i.bits).toNat = j.bits.toNat - i.bits.toNat :=
      UInt16.toNat_sub_of_le _ _ (UInt16.le_iff_toNat_le.mpr (Nat.le_of_lt gt))
    have one : Int32.ofNat ((j.bits - i.bits) / 8 + 1).toNat = 1 := by
      have zero : (j.bits - i.bits) / 8 = 0 := by
        apply UInt16.toNat_inj.mp
        rw [toNat_div_eight, borrow]
        exact Nat.div_eq_of_lt (by omega)
      rw [zero]
      rfl
    have bitsNew : ((8 - (j.bits - i.bits)) % 8).toNat = 8 + i.bits.toNat - j.bits.toNat := by
      have le : j.bits - i.bits ≤ 8 := UInt16.le_iff_toNat_le.mpr (by rw [borrow]; change _ ≤ 8; omega)
      rw [toNat_mod_eight, UInt16.toNat_sub_of_le _ _ le, borrow]
      change (8 - (j.bits.toNat - i.bits.toNat)) % 8 = _
      omega
    have small : ((8 - (j.bits - i.bits)) % 8).toNat < 8 := by omega
    rw [if_neg enough]
    refine ⟨small, ?_⟩
    have reduced : ((8 - (j.bits - i.bits)) % 8 % 8).toNat = 8 + i.bits.toNat - j.bits.toNat := by
      rw [toNat_mod_eight, bitsNew]
      exact Nat.mod_eq_of_lt (by omega)
    have down : (i.bytes_ - j.bytes - 1).toInt = i.bytes.toInt - j.bytes.toInt - 1 := by
      have unit : (1 : Int32).toInt = 1 := rfl
      rw [Int32.toInt_sub, Int32.toInt_sub, Int.bmod_sub_bmod, unit, bytesOld]
      rw [bytesOld] at lo hi
      apply Int.bmod_eq_of_le <;> omega
    simp only [subtractBytes, one]
    rw [toBits, bytes_mk small, bits_mk, reduced, down, toBits, toBits]
    omega

theorem toInt_toInt32 {u : UInt32} (small : u.toNat < 2 ^ 31) : u.toInt32.toInt = u.toNat := by
  change u.toBitVec.toInt = _
  rw [BitVec.toInt_eq_toNat_of_lt]
  · rfl
  · change 2 * u.toNat < 2 ^ 32
    omega

theorem toNat_toUInt32 {o : Int32} (nonneg : 0 ≤ o.toInt) : (o.toUInt32.toNat : Int) = o.toInt := by
  have read : o.toInt = (o.toUInt32.toNat : Int).bmod (2 ^ 32) :=
    BitVec.toInt_eq_toNat_bmod o.toBitVec
  have below := o.toUInt32.toNat_lt
  rw [read] at nonneg ⊢
  simp only [Int.bmod] at nonneg ⊢
  split at nonneg <;> split <;> omega

theorem toBits_octets {u : UInt32} (small : u.toNat < 2 ^ 31) :
    (mk u.toInt32 0).toBits = 8 * (u.toNat : Int) := by
  rw [toBits, bytes_mk (by decide), toInt_toInt32 small, bits_mk]
  simp

end ItPosition

/-- A field of `w` bits at `at` lies inside a buffer of `n` octets. The octets of
    the field have offsets that `int32_t` can count, which any buffer of at most
    `2 ^ 31` octets gives for free. -/
structure Inside (at_ : ItPosition) (w n : Nat) : Prop where
  nonneg : 0 ≤ at_.bytes.toInt
  fits : at_.toBits + w ≤ 8 * (n : Int)
  countable : at_.toBits + w ≤ 8 * 2 ^ 31

namespace ItPosition

/-! ## Comparing positions

Positions are ordered by their number of bits. All operators but those that use
`operator>` follow this order; that one compares the bits of positions in the same
octet the wrong way round. -/

variable {a b : ItPosition}

/-- The octets are compared as unsigned words, which is right from zero on. -/
theorem octets_lt (start : 0 ≤ a.bytes.toInt) (start' : 0 ≤ b.bytes.toInt) :
    a.bytes.toUInt32 < b.bytes.toUInt32 ↔ a.bytes.toInt < b.bytes.toInt := by
  have left := toNat_toUInt32 start
  have right := toNat_toUInt32 start'
  rw [UInt32.lt_iff_toNat_lt]
  omega

theorem octets_eq (start : 0 ≤ a.bytes.toInt) (start' : 0 ≤ b.bytes.toInt) :
    a.bytes.toUInt32 = b.bytes.toUInt32 ↔ a.bytes.toInt = b.bytes.toInt := by
  have left := toNat_toUInt32 start
  have right := toNat_toUInt32 start'
  rw [← UInt32.toNat_inj]
  omega

theorem lt_iff (start : 0 ≤ a.bytes.toInt) (start' : 0 ≤ b.bytes.toInt) :
    a.lt b = true ↔ a.toBits < b.toBits := by
  have small := a.bits_lt
  have small' := b.bits_lt
  simp only [lt, bytes_carried, bits_carried, Bool.or_eq_true, Bool.and_eq_true, decide_eq_true_eq,
    beq_iff_eq, octets_lt start start', octets_eq start start', UInt16.lt_iff_toNat_lt, toBits]
  omega

/-- What `operator>` says: in the same octet the position with fewer bits is the greater one. -/
theorem gt_iff (start : 0 ≤ a.bytes.toInt) (start' : 0 ≤ b.bytes.toInt) :
    a.gt b = true ↔ b.bytes.toInt < a.bytes.toInt ∨
      a.bytes.toInt = b.bytes.toInt ∧ a.bits.toNat < b.bits.toNat := by
  simp only [gt, bytes_carried, bits_carried, Bool.or_eq_true, Bool.and_eq_true, decide_eq_true_eq,
    beq_iff_eq, gt_iff_lt, octets_lt start' start, octets_eq start start', UInt16.lt_iff_toNat_lt]

/-- The operators order two positions as their numbers of bits are ordered. -/
structure Ordered (a b : ItPosition) : Prop where
  eq : a.eq b = true ↔ a.toBits = b.toBits
  lt : a.lt b = true ↔ a.toBits < b.toBits
  le : a.le b = true ↔ a.toBits ≤ b.toBits
  gt : a.gt b = true ↔ a.toBits > b.toBits
  ge : a.ge b = true ↔ a.toBits ≥ b.toBits
  ne : a.ne b = true ↔ a.toBits ≠ b.toBits
  /-- Exactly one of them holds. -/
  one : (a.lt b, a.eq b, a.gt b) ∈ [(true, false, false), (false, true, false), (false, false, true)]

/-- The order of the numbers of bits, once `operator>` follows it. -/
theorem ordered_of_gt (start : 0 ≤ a.bytes.toInt) (start' : 0 ≤ b.bytes.toInt)
    (greater : a.gt b = true ↔ a.toBits > b.toBits) : Ordered a b := by
  have less := lt_iff start start'
  have same := eq_iff a b
  refine ⟨same, less, ?_, greater, ?_, ?_, ?_⟩
  · rw [le, Bool.or_eq_true, less, same]
    omega
  · rw [ge, Bool.or_eq_true, greater, same]
    omega
  · rw [ne, Bool.not_eq_true', ← Bool.not_eq_true, same]
  · cases below : a.lt b <;> cases equal : a.eq b <;> cases above : a.gt b <;>
      simp_all <;> omega

/-- The operators agree with the numbers of bits for positions in different octets and for equal
    positions, and for no others. -/
theorem ordered_iff (a b : ItPosition) (start : 0 ≤ a.bytes.toInt) (start' : 0 ≤ b.bytes.toInt) :
    Ordered a b ↔ a.bytes ≠ b.bytes ∨ a.bits = b.bits := by
  have small := a.bits_lt
  have small' := b.bits_lt
  have greater := gt_iff start start'
  rw [ne_eq, ← Int32.toInt_inj, ← UInt16.toNat_inj]
  constructor
  · intro ordered
    have agree := greater.symm.trans ordered.gt
    simp only [toBits] at agree
    omega
  · intro apart
    apply ordered_of_gt start start'
    rw [greater]
    simp only [toBits]
    omega

/-- Two positions in neighbouring octets. -/
theorem ordered_neighbours : Ordered ⟨1, 7⟩ ⟨2, 3⟩ :=
  (ordered_iff ⟨1, 7⟩ ⟨2, 3⟩ (by decide) (by decide)).mpr (.inl (by decide))

/-- In one octet, the position of bit 3 is not greater than the position of bit 2. -/
theorem not_ordered_octet : ¬ ∀ a b : ItPosition, 0 ≤ a.bytes.toInt → 0 ≤ b.bytes.toInt →
    Ordered a b := by
  intro claim
  have greater := (claim ⟨0, 3⟩ ⟨0, 2⟩ (by decide) (by decide)).gt
  exact absurd (greater.mpr (by decide)) (by decide)

end ItPosition

end Tahi.Pz

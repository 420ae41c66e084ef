import Tahi.Pz.ItPosition

/-! # Moving positions

A position is moved by whole octets, by bits or by another position. What its members
hold is followed here modulo the `2 ^ 35` bits that the octets can count, so that a
move either goes as far as it should or falls short by what it drops.
-/

namespace Tahi.Pz.ItPosition

/-- `add` of a position to itself. The octets are read after the bits have been added. -/
def addSelf (i : ItPosition) : ItPosition :=
  let i := i.addBits i.bits
  i.addBytes i.bytes

/-- `subtract` of a position from itself. -/
def subtractSelf (i : ItPosition) : ItPosition :=
  let i := i.subtractBytes i.bytes
  i.subtractBits i.bits

/-- What the members hold, as a number of bits. -/
@[grind =]
def held (i : ItPosition) : Int := 8 * i.bytes_.toInt + i.bits_.toNat

/-- The bits that the accessors carry over to the octets. -/
@[grind =]
def carried (i : ItPosition) : Nat := 8 * (i.bits_.toNat / 8)

theorem add_wraps (a b : Int32) : ∃ k, (a + b).toInt = a.toInt + b.toInt + 2 ^ 32 * k := by
  rw [Int32.toInt_add, Int.bmod]
  split
  · exact ⟨-((a.toInt + b.toInt) / 2 ^ 32), by omega⟩
  · exact ⟨-((a.toInt + b.toInt) / 2 ^ 32) - 1, by omega⟩

theorem sub_wraps (a b : Int32) : ∃ k, (a - b).toInt = a.toInt - b.toInt + 2 ^ 32 * k := by
  rw [Int32.toInt_sub, Int.bmod]
  split
  · exact ⟨-((a.toInt - b.toInt) / 2 ^ 32), by omega⟩
  · exact ⟨-((a.toInt - b.toInt) / 2 ^ 32) - 1, by omega⟩

theorem toInt_octets (w : UInt16) : (Int32.ofNat (w / 8).toNat).toInt = (w.toNat / 8 : Nat) := by
  have word := w.toNat_lt
  rw [toNat_div_eight]
  exact Int32.toInt_ofNat_of_lt (by omega)

theorem bits_toNat (i : ItPosition) : i.bits.toNat = i.bits_.toNat % 8 := toNat_mod_eight _

theorem toBits_held (i : ItPosition) : ∃ k, i.toBits = i.held + 2 ^ 35 * k := by
  obtain ⟨k, wraps⟩ := add_wraps i.bytes_ (Int32.ofNat (i.bits_ / 8).toNat)
  rw [toInt_octets] at wraps
  refine ⟨k, ?_⟩
  rw [toBits, bytes, wraps, bits_toNat, held]
  omega

/-- The numbers of bits that a position can stand for. -/
def Countable (n : Int) : Prop := -(8 * 2 ^ 31) ≤ n ∧ n < 8 * 2 ^ 31

instance : DecidablePred Countable := fun n =>
  inferInstanceAs (Decidable (-(8 * 2 ^ 31) ≤ n ∧ n < 8 * 2 ^ 31))

theorem toBits_countable (i : ItPosition) : Countable i.toBits := by
  have low := i.bytes.le_toInt
  have high := i.bytes.toInt_lt
  have small := i.bits_lt
  rw [Countable, toBits]
  omega

/-- A move is exact when it drops nothing. -/
theorem exact_iff_dropped {i j : ItPosition} {n dropped : Int}
    (moved : ∃ k, j.held = i.held + n - dropped + 2 ^ 35 * k) (reach : Countable (i.toBits + n))
    (small : -2 ^ 34 < dropped ∧ dropped < 2 ^ 34) : j.toBits = i.toBits + n ↔ dropped = 0 := by
  obtain ⟨k, moved⟩ := moved
  obtain ⟨p, before⟩ := i.toBits_held
  obtain ⟨q, behind⟩ := j.toBits_held
  have range := j.toBits_countable
  rw [Countable] at range reach
  omega

/-! ## The members after a move -/

section

variable (i j : ItPosition)

theorem held_addBytes (o : Int32) :
    ∃ k, (i.addBytes o).held = i.held + 8 * o.toInt + 2 ^ 35 * k := by
  obtain ⟨k, wraps⟩ := add_wraps i.bytes_ o
  refine ⟨k, ?_⟩
  simp only [held, addBytes, wraps]
  omega

theorem held_subtractBytes (o : Int32) :
    ∃ k, (i.subtractBytes o).held = i.held - 8 * o.toInt + 2 ^ 35 * k := by
  obtain ⟨k, wraps⟩ := sub_wraps i.bytes_ o
  refine ⟨k, ?_⟩
  simp only [held, subtractBytes, wraps]
  omega

/-- The octets of the bit member are dropped, and so is a carry out of its word. -/
theorem held_addBits (w : UInt16) :
    ∃ k, (i.addBits w).held = i.held + w.toNat -
      (i.carried + if i.bits_.toNat % 8 + w.toNat < 2 ^ 16 then 0 else 2 ^ 16 : Nat) +
        2 ^ 35 * k := by
  have word := w.toNat_lt
  have sum : (i.bits + w).toNat = (i.bits_.toNat % 8 + w.toNat) % 2 ^ 16 := by
    rw [UInt16.toNat_add, bits_toNat]
  obtain ⟨k, wraps⟩ := add_wraps i.bytes_ (Int32.ofNat ((i.bits + w) / 8).toNat)
  rw [toInt_octets] at wraps
  refine ⟨k, ?_⟩
  simp only [held, addBits, addBytes, wraps, toNat_mod_eight, sum, carried]
  split <;> omega

theorem bits_addBits (w : UInt16) : (i.addBits w).bits_.toNat < 8 := by
  simp only [addBits, toNat_mod_eight]
  omega

/-- The octets of the bit member are dropped, and an octet too many is borrowed for a width that
    ends where an octet does. -/
theorem held_subtractBits (w : UInt16) :
    ∃ k, (i.subtractBits w).held = i.held - w.toNat -
      (i.carried + if w.toNat ≤ i.bits_.toNat % 8 ∨ (w.toNat - i.bits_.toNat % 8) % 8 ≠ 0 then 0
        else 8 : Nat) + 2 ^ 35 * k := by
  have word := w.toNat_lt
  have bits := i.bits_toNat
  by_cases enough : w ≤ i.bits
  · have le := UInt16.le_iff_toNat_le.mp enough
    rw [bits] at le
    refine ⟨0, ?_⟩
    simp only [subtractBits, enough, if_true, held, toNat_mod_eight,
      UInt16.toNat_sub_of_le _ _ enough, bits, carried, le, true_or]
    omega
  · have gt := UInt16.lt_iff_toNat_lt.mp (UInt16.not_le.mp enough)
    have below : i.bits ≤ w := UInt16.le_iff_toNat_le.mpr (Nat.le_of_lt gt)
    have borrow : (w - i.bits).toNat = w.toNat - i.bits_.toNat % 8 := by
      rw [UInt16.toNat_sub_of_le _ _ below, bits]
    have octets : ((w - i.bits) / 8 + 1).toNat = (w.toNat - i.bits_.toNat % 8) / 8 + 1 := by
      rw [UInt16.toNat_add, toNat_div_eight, borrow]
      change (_ + 1) % 2 ^ 16 = _
      omega
    have octets' : (Int32.ofNat ((w - i.bits) / 8 + 1).toNat).toInt =
        ((w.toNat - i.bits_.toNat % 8) / 8 + 1 : Nat) := by
      rw [octets]
      exact Int32.toInt_ofNat_of_lt (by omega)
    have rest : ((8 - (w - i.bits)) % 8).toNat =
        (8 - (w.toNat - i.bits_.toNat % 8) % 8) % 8 := by
      rw [toNat_mod_eight, UInt16.toNat_sub, borrow]
      change (2 ^ 16 - _ + 8) % 2 ^ 16 % 8 = _
      omega
    obtain ⟨k, wraps⟩ := sub_wraps i.bytes_ (Int32.ofNat ((w - i.bits) / 8 + 1).toNat)
    rw [octets'] at wraps
    refine ⟨k, ?_⟩
    rw [bits] at gt
    simp only [subtractBits, enough, if_false, held, subtractBytes, wraps, rest, carried]
    split <;> omega

end

/-! ## Runs -/

/-- What a caller can do to a position it holds. -/
inductive Op where
  | copy
  | addBytes (o : Int32)
  | addBits (w : UInt16)
  | add (j : ItPosition)
  | addSelf
  | subtractBytes (o : Int32)
  | subtractBits (w : UInt16)
  | subtract (j : ItPosition)
  | subtractSelf
deriving DecidableEq, Repr

namespace Op

def run (i : ItPosition) : Op → ItPosition
  | copy => i.copy
  | addBytes o => i.addBytes o
  | addBits w => i.addBits w
  | add j => i.add j
  | addSelf => i.addSelf
  | subtractBytes o => i.subtractBytes o
  | subtractBits w => i.subtractBits w
  | subtract j => i.subtract j
  | subtractSelf => i.subtractSelf

/-- The amount that is to be added. -/
def amount (i : ItPosition) : Op → Int
  | copy => 0
  | addBytes o => 8 * o.toInt
  | addBits w => w.toNat
  | add j => j.toBits
  | addSelf => i.toBits
  | subtractBytes o => -(8 * o.toInt)
  | subtractBits w => -w.toNat
  | subtract j => -j.toBits
  | subtractSelf => -i.toBits

/-- A bit member that holds octets is only copied or moved by octets, a width fits in its word
    and does not end with the octet from which it borrows. -/
def Proper (i : ItPosition) : Op → Prop
  | copy | addBytes _ | subtractBytes _ => True
  | addBits w => i.bits_.toNat < 8 ∧ i.bits_.toNat % 8 + w.toNat < 2 ^ 16
  | addSelf => i.bits_.toNat < 4
  | subtractBits w => i.bits_.toNat < 8 ∧
      (w.toNat ≤ i.bits_.toNat % 8 ∨ (w.toNat - i.bits_.toNat % 8) % 8 ≠ 0)
  | add _ | subtract _ | subtractSelf => i.bits_.toNat < 8

instance (i : ItPosition) : (op : Op) → Decidable (op.Proper i)
  | copy | addBytes _ | subtractBytes _ => isTrue trivial
  | addBits _ | subtractBits _ => instDecidableAnd
  | add _ | addSelf | subtract _ | subtractSelf => Nat.decLt _ _

/-- The bits by which a move falls short. -/
@[grind =]
def dropped (i : ItPosition) : Op → Int
  | copy | addBytes _ | subtractBytes _ => 0
  | addBits w => (i.carried + if i.bits_.toNat % 8 + w.toNat < 2 ^ 16 then 0 else 2 ^ 16 : Nat)
  | addSelf => 2 * i.carried - 8 * (2 * (i.bits_.toNat % 8) / 8 : Nat)
  | subtractBits w => (i.carried +
      if w.toNat ≤ i.bits_.toNat % 8 ∨ (w.toNat - i.bits_.toNat % 8) % 8 ≠ 0 then 0 else 8 : Nat)
  | add _ | subtract _ | subtractSelf => i.carried

variable (i : ItPosition) (op : Op)

theorem dropped_eq_zero : op.dropped i = 0 ↔ op.Proper i := by
  cases op with
  | copy | addBytes _ | subtractBytes _ => simp only [dropped, Proper]
  | addBits w => simp only [dropped, Proper, carried]; split <;> omega
  | addSelf => simp only [dropped, Proper, carried]; omega
  | subtractBits w => simp only [dropped, Proper, carried]; split <;> omega
  | add _ | subtract _ | subtractSelf => simp only [dropped, Proper, carried]; omega

theorem dropped_small : -2 ^ 34 < op.dropped i ∧ op.dropped i < 2 ^ 34 := by
  have word := i.bits_.toNat_lt
  cases op with
  | copy | addBytes _ | subtractBytes _ => simp only [dropped]; omega
  | addBits w => simp only [dropped, carried]; split <;> omega
  | addSelf => simp only [dropped, carried]; omega
  | subtractBits w => simp only [dropped, carried]; split <;> omega
  | add _ | subtract _ | subtractSelf => simp only [dropped, carried]; omega

end Op

section

variable (i j : ItPosition)

theorem held_copy : ∃ k, i.copy.held = i.held + 2 ^ 35 * k := i.toBits_held

theorem held_add : ∃ k, (i.add j).held = i.held + j.toBits - i.carried + 2 ^ 35 * k := by
  have small := j.bits_lt
  obtain ⟨k, bits⟩ := i.held_addBits j.bits
  obtain ⟨l, octets⟩ := (i.addBits j.bits).held_addBytes j.bytes
  have fits : i.bits_.toNat % 8 + j.bits.toNat < 2 ^ 16 := by omega
  rw [if_pos fits] at bits
  refine ⟨k + l, ?_⟩
  rw [add, octets, bits, toBits]
  omega

theorem held_subtract : ∃ k, (i.subtract j).held = i.held - j.toBits - i.carried + 2 ^ 35 * k := by
  have small := j.bits_lt
  obtain ⟨k, octets⟩ := i.held_subtractBytes j.bytes
  obtain ⟨l, bits⟩ := (i.subtractBytes j.bytes).held_subtractBits j.bits
  have same : (i.subtractBytes j.bytes).bits_ = i.bits_ := rfl
  have borrows : j.bits.toNat ≤ i.bits_.toNat % 8 ∨
      (j.bits.toNat - i.bits_.toNat % 8) % 8 ≠ 0 := by omega
  rw [carried, same, if_pos borrows, octets] at bits
  refine ⟨k + l, ?_⟩
  rw [subtract, bits, toBits, carried]
  omega

theorem held_addSelf : ∃ k, i.addSelf.held =
    i.held + i.toBits - (2 * i.carried - 8 * (2 * (i.bits_.toNat % 8) / 8 : Nat)) +
      2 ^ 35 * k := by
  have own := i.bits_toNat
  obtain ⟨k, bits⟩ := i.held_addBits i.bits
  obtain ⟨l, octets⟩ := (i.addBits i.bits).held_addBytes (i.addBits i.bits).bytes
  obtain ⟨p, read⟩ := i.toBits_held
  obtain ⟨q, read'⟩ := (i.addBits i.bits).toBits_held
  have rest : (i.addBits i.bits).bits.toNat = 2 * (i.bits_.toNat % 8) % 8 := by
    rw [bits_toNat, addBits, toNat_mod_eight, UInt16.toNat_add, own]
    omega
  have fits : i.bits_.toNat % 8 + i.bits.toNat < 2 ^ 16 := by omega
  rw [if_pos fits] at bits
  rw [toBits, rest] at read'
  refine ⟨2 * k + l + q - p, ?_⟩
  rw [addSelf, octets]
  omega

theorem Op.held_run (op : Op) :
    ∃ k, (op.run i).held = i.held + op.amount i - op.dropped i + 2 ^ 35 * k := by
  cases op with
  | copy => simpa only [run, amount, dropped, Int.add_zero, Int.sub_zero] using i.held_copy
  | addBytes o => simpa only [run, amount, dropped, Int.sub_zero] using i.held_addBytes o
  | addBits w => exact i.held_addBits w
  | add j => exact i.held_add j
  | addSelf => exact i.held_addSelf
  | subtractBytes o =>
      simpa only [run, amount, dropped, Int.sub_zero, ← Int.sub_eq_add_neg] using
        i.held_subtractBytes o
  | subtractBits w => exact i.held_subtractBits w
  | subtract j => exact i.held_subtract j
  | subtractSelf => exact i.held_subtract i

end

/-- One move changes the number of bits by its amount exactly when it is proper. -/
theorem Op.exact_iff {i : ItPosition} {op : Op} (reach : Countable (i.toBits + op.amount i)) :
    (op.run i).toBits = i.toBits + op.amount i ↔ op.Proper i :=
  (exact_iff_dropped (op.held_run i) reach (op.dropped_small i)).trans (op.dropped_eq_zero i)

def runs (i : ItPosition) (ops : List Op) : ItPosition := ops.foldl Op.run i

/-- The true result of every move can be counted. -/
def Within (i : ItPosition) : List Op → Prop
  | [] => True
  | op :: ops => Countable (i.toBits + op.amount i) ∧ Within (op.run i) ops

/-- Every move changes the number of bits by its amount. -/
def Exact (i : ItPosition) : List Op → Prop
  | [] => True
  | op :: ops => (op.run i).toBits = i.toBits + op.amount i ∧ Exact (op.run i) ops

/-- Every move is proper where it is made. -/
def Proper (i : ItPosition) : List Op → Prop
  | [] => True
  | op :: ops => op.Proper i ∧ Proper (op.run i) ops

theorem exact_iff_proper {i : ItPosition} {ops : List Op} (within : Within i ops) :
    Exact i ops ↔ Proper i ops := by
  induction ops generalizing i with
  | nil => exact Iff.rfl
  | cons op ops ih => exact and_congr (Op.exact_iff within.1) (ih within.2)

/-- What a position has lost when it is moved there and back are the octets in its bit member. -/
theorem held_restored (i j : ItPosition) :
    ∃ k, ((i.add j).subtract j).held = i.held + 0 - i.carried + 2 ^ 35 * k := by
  obtain ⟨k, there⟩ := i.held_add j
  obtain ⟨l, back⟩ := (i.add j).held_subtract j
  have normal : (i.add j).carried = 0 := by
    have small := i.bits_addBits j.bits
    have same : (i.add j).bits_ = (i.addBits j.bits).bits_ := rfl
    rw [carried, same]
    omega
  refine ⟨k + l, ?_⟩
  rw [back, normal, there]
  omega

theorem restored_iff (i j : ItPosition) :
    ((i.add j).subtract j).toBits = i.toBits ↔ i.bits_.toNat < 8 := by
  have reach : Countable (i.toBits + 0) := by simpa only [Int.add_zero] using i.toBits_countable
  have word := i.bits_.toNat_lt
  have restored := exact_iff_dropped (i.held_restored j) reach (by rw [carried]; omega)
  rw [Int.add_zero] at restored
  rw [restored, carried]
  omega

/-- From any constructed position on, the moves of a run change the number of bits by their
    amounts exactly when they are proper; and where the run ends, a move forth and back restores
    the position exactly when its bit member holds no octet. -/
theorem moved_by_amounts (o : Int32) (b : UInt16) (ops : List Op) (within : Within ⟨o, b⟩ ops) :
    (Exact ⟨o, b⟩ ops ↔ Proper ⟨o, b⟩ ops) ∧
      ∀ j, (((runs ⟨o, b⟩ ops).add j).subtract j).toBits = (runs ⟨o, b⟩ ops).toBits ↔
        (runs ⟨o, b⟩ ops).bits_.toNat < 8 :=
  ⟨exact_iff_proper within, fun j => restored_iff _ j⟩

/-- Eleven bits, copied, then moved by four and back by three. -/
theorem moved_eleven : Exact ⟨0, 11⟩ [.copy, .addBits 4, .subtract ⟨0, 3⟩] :=
  (moved_by_amounts 0 11 [.copy, .addBits 4, .subtract ⟨0, 3⟩]
    ⟨by decide, by decide, by decide, trivial⟩).1.mpr ⟨trivial, by decide, by decide, trivial⟩

/-- Sixteen bits moved by none are none. -/
theorem not_moved_by_amounts : ¬ ∀ (o : Int32) (b : UInt16) (ops : List Op), Within ⟨o, b⟩ ops →
    Exact ⟨o, b⟩ ops := by
  intro claim
  have moved := (claim 0 16 [.addBits 0] ⟨by decide, trivial⟩).1
  exact absurd moved (by decide)

end Tahi.Pz.ItPosition

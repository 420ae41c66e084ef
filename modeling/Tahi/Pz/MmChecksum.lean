import Mathlib.Algebra.Order.BigOperators.Group.List
import Tahi.General.OnesComplement
import Tahi.Pz.IPinfo
import Tahi.Pz.PvNumber
import Tahi.Pz.PvOctetsEncode

/-! # The upper layer checksum

The generator computes the checksum of a datagram it has just encoded, over a copy
in which the field is zero, and stores it. The decoder computes it again over the
same kind of copy and compares. Both use `ChecksumCalculater`, so they agree as
long as what it returns fits the 16 bits of the field.
-/

namespace Tahi.Pz

open BitField TracedMemory OnesComplement

def xSum (s : UInt32) : UInt16 :=
  let s := (s >>> 16) + (s &&& 0xffff)
  let s := s + (s >>> 16)
  (~~~s &&& 0xffff).toUInt16

namespace PvOctets

/-- The loop of `sum2Octets` over the `l` octets that remain at `s`. -/
def sum2From (s : Memory) (t : UInt32) : Nat → UInt32
  | 0 => t
  | 1 => t + ⟨(s 0).setWidth 32 <<< 8⟩
  | l + 2 => sum2From (fun i => s (i + 2)) (t + ⟨(s 0).setWidth 32 <<< 8 ||| (s 1).setWidth 32⟩) l

def sum2Octets (o : PvOctets) : UInt32 := sum2From o.cell 0 o.length.toNat

end PvOctets

namespace ChecksumCalculater

/-- If the computed checksum is zero, it is transmitted as all ones. -/
def transmitted (optionable : Bool) (sum : UInt32) : UInt32 :=
  let checksum := (xSum sum).toUInt32
  if optionable && checksum == 0 then ~~~checksum else checksum

def calculate (info : Con_IPinfo) (upptype : Int32) (uppbuf : PvOctets) (optionable : Bool) :
    UInt32 :=
  match info.SrcAddr, info.LastDstAddr with
  | some src, some dst =>
      if upptype = -1 then 0
      else
        let upplen := uppbuf.length
        transmitted optionable
          (src.sum2Octets + dst.sum2Octets + upplen + upptype.toUInt32 + uppbuf.sum2Octets)
  | _, _ => 0

/-- `calculate` without a pseudo header. -/
def calculateOctets (buf : PvOctets) (optionable : Bool) : UInt32 :=
  transmitted optionable buf.sum2Octets

end ChecksumCalculater

structure MmChecksum where
  optionable_ : Bool
  usepseudo_ : Bool

namespace MmChecksum

/-- All checksum members are declared with 16 bits. -/
def width : UInt16 := 16

/-- With the pseudo header or without. -/
def calculate (m : MmChecksum) (info : Con_IPinfo) (basetype : Int32) (checkbuf : PvOctets) :
    UInt32 :=
  if m.usepseudo_ then ChecksumCalculater.calculate info basetype checkbuf m.optionable_
  else ChecksumCalculater.calculateOctets checkbuf m.optionable_

/-- The common part of `post_generate` and `post_reverse`: the checksum of the
    buffer of a compound, in a copy of which the field at `at` is zeroed. -/
def calc_ (m : MmChecksum) (host : ByteOrder) (info : Con_IPinfo) (basetype : Int32)
    (basebuf : PvOctets) (at_ size : ItPosition) : Option UInt32 := do
  let cell ← finalMemory (PvOctets.encodeZero host basebuf.length at_ size) basebuf.cell
  let checkbuf : PvOctets := ⟨basebuf.length, cell⟩
  some (m.calculate info basetype checkbuf)

end MmChecksum

/-- A compound of the packet that is sent, with its place in the frame. -/
structure WcObject where
  headerType : Int32
  offset : ItPosition
  size : ItPosition

/-- The octets of a compound, a window into the frame. -/
def WcObject.rgenerate (w : WcObject) (s : PvOctets) : Option PvOctets :=
  let sl := s.length
  let o := w.offset.bytes.toUInt32
  let l := w.size.bytes.toUInt32
  if o + l ≤ sl then s.substr o l else none

structure WmChecksum where
  checksum : MmChecksum
  offset : ItPosition

structure RmChecksum where
  checksum : MmChecksum
  /-- Its own offset, and those of its ancestors below the base. -/
  offsets : List ItPosition
  pvalue : PvNumber

namespace WmChecksum

def size : ItPosition := (ItPosition.mk 0 MmChecksum.width).copy

/-- Stores the checksum in the frame `buf`, and keeps the number it stored. -/
def post_generate (w : WmChecksum) (host : ByteOrder) (info : Con_IPinfo) (buf : PvOctets)
    (base : WcObject) : Option (PvOctets × PvNumber) := do
  let basebuf ← base.rgenerate buf
  let at_ := w.offset.copy.subtract base.offset
  let calc_ ← w.checksum.calc_ host info base.headerType basebuf at_ size
  let rgenerate : PvNumber := ⟨calc_.toInt32⟩
  let cell ← finalMemory
    (PvOctets.encodeUint host rgenerate.value.toUInt32 w.offset MmChecksum.width) buf.cell
  some (⟨buf.length, cell⟩, rgenerate)

end WmChecksum

namespace RmChecksum

def size : ItPosition := (ItPosition.mk 0 0).addBits MmChecksum.width

/-- The way from the base down to the member. -/
def distance (offsets : List ItPosition) : ItPosition := offsets.foldl ItPosition.add ⟨0, 0⟩

structure PostReversed where
  calc_pvalue : PvNumber
  unmatchMessage : Bool
  control : PControl
deriving DecidableEq, Repr

def post_reverse (r : RmChecksum) (host : ByteOrder) (info : Con_IPinfo) (c : PControl)
    (basebuf : PvOctets) (basetype : Int32) : Option PostReversed := do
  let at_ := distance r.offsets
  let calc_ ← r.checksum.calc_ host info basetype basebuf at_ size
  let pvcalc : PvNumber := ⟨calc_.toInt32⟩
  let dec := r.pvalue.value.toUInt32
  some (if dec != calc_ then ⟨pvcalc, true, c.setWarning 0⟩ else ⟨pvcalc, false, c⟩)

/-- The member as the decoder creates it. -/
def reverse (checksum : MmChecksum) (offsets : List ItPosition) (basebuf : PvOctets) : RmChecksum :=
  ⟨checksum, offsets, ⟨(basebuf.uintAt (distance offsets) MmChecksum.width).toInt32⟩⟩

end RmChecksum

/-- An automatic member is compared with the checksum that the decoder computed. -/
def WmChecksum.doEvaluate (operation : UInt32) (revaluate : Option PvNumber) (ro : PvNumber)
    (calc_pvalue : PvNumber) (c : PControl) : Bool × PControl :=
  let eo := revaluate.getD calc_pvalue
  WObject.valueEvaluate operation ro eo c

private theorem low_toNat (x : UInt32) : (x &&& 0xffff).toNat = x.toNat % 65536 := by
  rw [UInt32.toNat_and]
  exact Nat.and_two_pow_sub_one_eq_mod x.toNat 16

private theorem high_toNat (x : UInt32) : (x >>> 16).toNat = x.toNat / 65536 := by
  rw [UInt32.toNat_shiftRight]
  exact Nat.shiftRight_eq_div_pow x.toNat 16

theorem xSum_toNat (s : UInt32) : (xSum s).toNat = 65535 - residue s.toNat := by
  have bound := fold_lt s.toNat_lt
  unfold xSum
  have first : (s >>> 16 + (s &&& 0xffff) : UInt32).toNat = fold s.toNat := by
    rw [UInt32.toNat_add, high_toNat, low_toNat]
    exact Nat.mod_eq_of_lt (by rw [fold] at bound; omega)
  generalize s >>> 16 + (s &&& 0xffff) = folded at first ⊢
  have second : (folded + folded >>> 16).toNat = fold s.toNat + fold s.toNat / 65536 := by
    rw [UInt32.toNat_add, high_toNat, first]
    exact Nat.mod_eq_of_lt (by omega)
  rw [UInt32.toNat_toUInt16, low_toNat, UInt32.toNat_not, second, residue]
  change (2 ^ 32 - 1 - _) % 65536 % 2 ^ 16 = _
  omega

namespace PvOctets

/-- The words of `l` octets, the last one filled up with zero. -/
def wordSum (s : Memory) : Nat → Nat
  | 0 => 0
  | 1 => (s 0).toNat * 256
  | l + 2 => (s 0).toNat * 256 + (s 1).toNat + wordSum (fun i => s (i + 2)) l

private theorem shifted_toNat (a : Octet) : (a.setWidth 32 <<< 8).toNat = a.toNat * 256 := by
  have size := a.isLt
  rw [BitVec.toNat_shiftLeft, BitVec.toNat_setWidth, Nat.shiftLeft_eq]
  omega

private theorem word_toNat (a b : Octet) :
    (a.setWidth 32 <<< 8 ||| b.setWidth 32).toNat = a.toNat * 256 + b.toNat := by
  have sizeA := a.isLt
  have sizeB := b.isLt
  have low : (b.setWidth 32).toNat = b.toNat := by
    rw [BitVec.toNat_setWidth]
    exact Nat.mod_eq_of_lt (by omega)
  have disjoint := Nat.shiftLeft_add_eq_or_of_lt sizeB a.toNat
  rw [Nat.shiftLeft_eq] at disjoint
  rw [BitVec.toNat_or, shifted_toNat, low, ← disjoint]

theorem sum2From_toNat (s : Memory) (t : UInt32) (l : Nat) :
    (sum2From s t l).toNat = (t.toNat + wordSum s l) % 2 ^ 32 := by
  fun_induction sum2From s t l with
  | case1 s t => exact (Nat.mod_eq_of_lt t.toNat_lt).symm
  | case2 s t =>
      have word : (⟨(s 0).setWidth 32 <<< 8⟩ : UInt32).toNat = (s 0).toNat * 256 :=
        shifted_toNat (s 0)
      rw [UInt32.toNat_add, word, wordSum]
  | case3 s t l ih =>
      have word : (⟨(s 0).setWidth 32 <<< 8 ||| (s 1).setWidth 32⟩ : UInt32).toNat =
          (s 0).toNat * 256 + (s 1).toNat := word_toNat (s 0) (s 1)
      rw [ih, UInt32.toNat_add, word, Nat.mod_add_mod, wordSum, Nat.add_assoc t.toNat]

theorem sum2Octets_toNat (o : PvOctets) :
    o.sum2Octets.toNat = wordSum o.cell o.length.toNat % 2 ^ 32 := by
  rw [sum2Octets, sum2From_toNat]
  exact congrArg (· % 2 ^ 32) (Nat.zero_add _)

end PvOctets

namespace ChecksumCalculater

/-- What is transmitted fits the field, except for the all ones that stand for a
    sum of zero, which are 32 ones. -/
theorem transmitted_fits_iff (optionable : Bool) (sum : UInt32) :
    (transmitted optionable sum).toNat < 2 ^ 16 ↔
      ¬(optionable = true ∧ 0 < sum.toNat ∧ 65535 ∣ sum.toNat) := by
  have bound : (xSum sum).toUInt32.toNat < 2 ^ 16 := by
    rw [UInt16.toNat_toUInt32]
    exact (xSum sum).toNat_lt
  have zero : (xSum sum).toUInt32 = 0 ↔ 0 < sum.toNat ∧ 65535 ∣ sum.toNat := by
    rw [← residue_allOnes_iff sum.toNat_lt, ← UInt32.toNat_inj, UInt16.toNat_toUInt32, xSum_toNat]
    have low : residue sum.toNat < 65536 := Nat.mod_lt _ (by decide)
    change 65535 - residue sum.toNat = 0 ↔ _
    omega
  unfold transmitted
  by_cases allOnes : optionable = true ∧ (xSum sum).toUInt32 = 0
  · have taken : (optionable && (xSum sum).toUInt32 == 0) = true := by
      rw [allOnes.1, allOnes.2]
      rfl
    have large : ¬(~~~(xSum sum).toUInt32).toNat < 2 ^ 16 := by
      rw [allOnes.2]
      decide
    rw [if_pos taken]
    exact iff_of_false large (not_not.mpr ⟨allOnes.1, zero.mp allOnes.2⟩)
  · have passed : ¬(optionable && (xSum sum).toUInt32 == 0) = true := by simpa using allOnes
    rw [if_neg passed]
    exact iff_of_true bound fun both => allOnes ⟨both.1, zero.mpr both.2⟩

/-- The sum that a checksum is taken of, as a number: with a pseudo header the
    addresses, the length and the type of the upper layer belong to it. There is
    none when the pseudo header is not known. -/
def total (m : MmChecksum) (info : Con_IPinfo) (upptype : Int32) (o : PvOctets) : Option Nat :=
  let datagram := PvOctets.wordSum o.cell o.length.toNat
  if m.usepseudo_ then
    match info.SrcAddr, info.LastDstAddr with
    | some src, some dst =>
        if upptype = -1 then none
        else some (PvOctets.wordSum src.cell src.length.toNat +
          PvOctets.wordSum dst.cell dst.length.toNat + o.length.toNat +
          upptype.toUInt32.toNat + datagram)
    | _, _ => none
  else some datagram

end ChecksumCalculater

namespace MmChecksum

variable (m : MmChecksum) (host : ByteOrder) (info : Con_IPinfo) (basetype : Int32)

/-- Both sides compute the checksum of the datagram with its field cleared. -/
theorem calc_eq {o : PvOctets} {at_ size : ItPosition} (inside : Inside at_ 16 o.length.toNat)
    (octets : size.bytes.toInt = 2) (bits : size.bits.toNat = 0) :
    m.calc_ host info basetype o at_ size =
      some (m.calculate info basetype ⟨o.length, put o.cell at_.toBits 16 0⟩) := by
  have cleared := PvOctets.encodeZero_puts host (k := 2) (j := 0) octets bits inside
    (.inr (by decide))
  obtain ⟨cell, run, writes⟩ := cleared.finalMemory o.cell
  rw [calc_, run, writes.unique (writes_put o.cell at_.toBits 16 0)]
  rfl

theorem calculate_fits_iff (o : PvOctets) :
    (m.calculate info basetype o).toNat < 2 ^ 16 ↔
      ¬(m.optionable_ = true ∧ ∃ t, ChecksumCalculater.total m info basetype o = some t ∧
        0 < t % 2 ^ 32 ∧ 65535 ∣ t % 2 ^ 32) := by
  unfold calculate ChecksumCalculater.total
  cases m.usepseudo_ with
  | false =>
      simp only [Bool.false_eq_true, if_false, ChecksumCalculater.calculateOctets,
        ChecksumCalculater.transmitted_fits_iff, PvOctets.sum2Octets_toNat, Option.some.injEq,
        exists_eq_left']
  | true =>
      unfold ChecksumCalculater.calculate
      cases info.SrcAddr with
      | none => simp
      | some src =>
          cases info.LastDstAddr with
          | none => simp
          | some dst =>
              by_cases unknown : basetype = -1
              · simp [unknown]
              · simp only [unknown, if_true, if_false, ChecksumCalculater.transmitted_fits_iff,
                  UInt32.toNat_add, PvOctets.sum2Octets_toNat, Option.some.injEq,
                  exists_eq_left', Nat.mod_add_mod, Nat.add_mod_mod]
end MmChecksum

/-- The member lies in the compound and the compound in the frame, and the decoder
    finds the member where the generator put it. -/
structure Placed (w : WmChecksum) (base : WcObject) (offsets : List ItPosition)
    (length : UInt32) : Prop where
  whole : base.offset.bits = 0
  start : 0 ≤ base.offset.bytes.toInt
  size : 0 ≤ base.size.bytes.toInt
  window : base.offset.bytes.toInt + base.size.bytes.toInt ≤ length.toNat
  countable : base.offset.bytes.toInt + base.size.bytes.toInt ≤ 2 ^ 31
  nonneg : 0 ≤ w.offset.bytes.toInt
  after : base.offset.toBits ≤ w.offset.toBits
  before : w.offset.toBits + 16 ≤ base.offset.toBits + 8 * base.size.bytes.toInt
  down : ∀ i ∈ offsets, 0 ≤ i.bytes.toInt
  meets : base.offset.toBits + (offsets.map ItPosition.toBits).sum = w.offset.toBits

/-- The way down from the base, added up. -/
theorem distance_toBits (offsets : List ItPosition) (i : ItPosition) (normal : i.bits_.toNat < 8)
    (start : 0 ≤ i.bytes.toInt) (down : ∀ j ∈ offsets, 0 ≤ j.bytes.toInt)
    (reach : i.toBits + (offsets.map ItPosition.toBits).sum < 8 * 2 ^ 31) :
    0 ≤ (offsets.foldl ItPosition.add i).bytes.toInt ∧
      (offsets.foldl ItPosition.add i).toBits =
        i.toBits + (offsets.map ItPosition.toBits).sum := by
  induction offsets generalizing i with
  | nil => exact ⟨start, (Int.add_zero _).symm⟩
  | cons j offsets ih =>
      have forward := down j List.mem_cons_self
      have rest : ∀ k ∈ offsets, 0 ≤ k.bytes.toInt := fun k mem =>
        down k (List.mem_cons_of_mem _ mem)
      have restNonneg : 0 ≤ (offsets.map ItPosition.toBits).sum := by
        apply List.sum_nonneg
        intro b mem
        obtain ⟨k, inside, rfl⟩ := List.mem_map.mp mem
        have := rest k inside
        rw [ItPosition.toBits]
        omega
      rw [List.map_cons, List.sum_cons] at reach ⊢
      obtain ⟨normal', start', moved⟩ :=
        ItPosition.toBits_add normal start forward (by omega)
      obtain ⟨nonneg, total⟩ := ih (i.add j) normal' start' rest (by omega)
      refine ⟨nonneg, ?_⟩
      rw [List.foldl_cons, total, moved]
      omega

/-- The decoder and the evaluator accept, without a warning, the checksum that the
    generator stored. -/
def Accepted (m : MmChecksum) (host : ByteOrder) (info : Con_IPinfo) (buf : PvOctets)
    (base : WcObject) (offset : ItPosition) (offsets : List ItPosition) : Prop :=
  ∃ frame stored basebuf result,
    (WmChecksum.mk m offset).post_generate host info buf base = some (frame, stored) ∧
    base.rgenerate frame = some basebuf ∧
    (RmChecksum.reverse m offsets basebuf).post_reverse host info {} basebuf base.headerType =
      some result ∧
    result.calc_pvalue = (RmChecksum.reverse m offsets basebuf).pvalue ∧
    result.unmatchMessage = false ∧
    (WmChecksum.doEvaluate eOPEQ_ none (RmChecksum.reverse m offsets basebuf).pvalue
      result.calc_pvalue {}).1 = true


theorem doEvaluate_auto (ro calc_pvalue : PvNumber) (c : PControl) :
    (WmChecksum.doEvaluate eOPEQ_ none ro calc_pvalue c).1 = true ↔ ro = calc_pvalue :=
  WObject.valueEvaluate_equal ro calc_pvalue c

theorem post_reverse_of_calc {r : RmChecksum} {host : ByteOrder} {info : Con_IPinfo}
    {c : PControl} {basebuf : PvOctets} {basetype : Int32} {x : UInt32}
    (computed : r.checksum.calc_ host info basetype basebuf (RmChecksum.distance r.offsets)
      RmChecksum.size = some x) :
    ∃ result, r.post_reverse host info c basebuf basetype = some result ∧
      result.calc_pvalue = ⟨x.toInt32⟩ ∧
      (result.unmatchMessage = false ↔ r.pvalue.value.toUInt32 = x) := by
  rw [RmChecksum.post_reverse, computed]
  by_cases same : r.pvalue.value.toUInt32 = x
  · exact ⟨_, rfl, by simp [same], by simp [same]⟩
  · exact ⟨_, rfl, by simp [same], by simp [same]⟩

namespace Placed

variable {w : WmChecksum} {base : WcObject} {offsets : List ItPosition} {length : UInt32}

/-- The octets of the compound in the frame. -/
theorem rgenerate_eq (placed : Placed w base offsets length) (cell : Memory) :
    base.rgenerate ⟨length, cell⟩ =
      some ⟨base.size.bytes.toUInt32, fun i => cell (i + base.offset.bytes.toInt)⟩ := by
  have first := (PvOctets.offset_eq placed.start).1
  have second := (PvOctets.offset_eq placed.size).1
  have window := placed.window
  have startLt := base.offset.bytes.toInt_lt
  have sizeLt := base.size.bytes.toInt_lt
  have sum : (base.offset.bytes.toUInt32 + base.size.bytes.toUInt32).toNat =
      base.offset.bytes.toUInt32.toNat + base.size.bytes.toUInt32.toNat := by
    rw [UInt32.toNat_add]
    exact Nat.mod_eq_of_lt (by omega)
  have fits : base.offset.bytes.toUInt32 + base.size.bytes.toUInt32 ≤ length := by
    rw [UInt32.le_iff_toNat_le]
    omega
  have starts : ¬base.offset.bytes.toUInt32 > length := by
    apply UInt32.not_lt.mpr
    rw [UInt32.le_iff_toNat_le]
    omega
  rw [WcObject.rgenerate, if_pos fits, PvOctets.substr, if_neg starts, first]

theorem base_toBits (placed : Placed w base offsets length) :
    base.offset.toBits = 8 * base.offset.bytes.toInt := by
  rw [ItPosition.toBits, placed.whole]
  exact Int.add_zero _

/-- Where the field is in the compound, whichever side computes the position. -/
private theorem inside_base (placed : Placed w base offsets length) {at_ : ItPosition}
    (nonneg : 0 ≤ at_.bytes.toInt) (place : at_.toBits = w.offset.toBits - base.offset.toBits) :
    Inside at_ 16 base.size.bytes.toUInt32.toNat := by
  have size := (PvOctets.offset_eq placed.size).1
  have before := placed.before
  have sizeLt := base.size.bytes.toInt_lt
  exact ⟨nonneg, by omega, by omega⟩

theorem generated_toBits (placed : Placed w base offsets length) :
    0 ≤ (w.offset.copy.subtract base.offset).bytes.toInt ∧
      (w.offset.copy.subtract base.offset).toBits = w.offset.toBits - base.offset.toBits := by
  have after := placed.after
  have start := placed.start
  have nonneg := placed.nonneg
  have offsetLt := w.offset.bytes.toInt_lt
  have bits := w.offset.bits_lt
  have octets : w.offset.toBits = 8 * w.offset.bytes.toInt + w.offset.bits.toNat := rfl
  have whole := placed.base_toBits
  obtain ⟨-, moved⟩ := @ItPosition.toBits_subtract w.offset.copy base.offset w.offset.bits_lt
    (by rw [ItPosition.toBits_copy]; omega) (by rw [ItPosition.toBits_copy]; omega)
  rw [ItPosition.toBits_copy] at moved
  refine ⟨?_, moved⟩
  have remainder := (w.offset.copy.subtract base.offset).bits_lt
  rw [ItPosition.toBits] at moved
  omega

theorem reversed_toBits (placed : Placed w base offsets length) :
    0 ≤ (RmChecksum.distance offsets).bytes.toInt ∧
      (RmChecksum.distance offsets).toBits = w.offset.toBits - base.offset.toBits := by
  have before := placed.before
  have meets := placed.meets
  have sizeLt := base.size.bytes.toInt_lt
  have zero : (ItPosition.mk 0 0).toBits = 0 := rfl
  obtain ⟨nonneg, total⟩ := distance_toBits offsets ⟨0, 0⟩ (by decide) (by decide) placed.down
    (by omega)
  refine ⟨nonneg, ?_⟩
  rw [RmChecksum.distance, total]
  omega

theorem inside_frame (placed : Placed w base offsets length) :
    Inside w.offset 16 length.toNat := by
  have window := placed.window
  have countable := placed.countable
  have before := placed.before
  have place := placed.base_toBits
  exact ⟨placed.nonneg, by omega, by omega⟩

end Placed

private theorem low_word_iff (x : UInt32) :
    UInt32.ofNat (x.toNat % 2 ^ 16) = x ↔ x.toNat < 2 ^ 16 := by
  have low := Nat.mod_lt x.toNat (Nat.two_pow_pos 16)
  have bound := x.toNat_lt
  rw [← UInt32.toNat_inj, UInt32.toNat_ofNat_of_lt' (by rw [UInt32.size]; omega)]
  omega

/-- The stored checksum is accepted exactly when it fits the field: it does not
    when the rule of the optional checksum turns a zero into 32 ones. -/
theorem accepted_iff_fits (m : MmChecksum) (host : ByteOrder) (info : Con_IPinfo)
    {length : UInt32} (cell : Memory) {base : WcObject} {offset : ItPosition}
    {offsets : List ItPosition} (placed : Placed ⟨m, offset⟩ base offsets length) :
    Accepted m host info ⟨length, cell⟩ base offset offsets ↔
      (m.calculate info base.headerType ⟨base.size.bytes.toUInt32,
        put (fun i => cell (i + base.offset.bytes.toInt))
          (offset.toBits - base.offset.toBits) 16 0⟩).toNat < 2 ^ 16 := by
  obtain ⟨generatedNonneg, generated⟩ := placed.generated_toBits
  obtain ⟨reversedNonneg, reversed⟩ := placed.reversed_toBits
  have insideGenerated := placed.inside_base generatedNonneg generated
  have insideReversed := placed.inside_base reversedNonneg reversed
  have size : WmChecksum.size.bytes.toInt = 2 ∧ WmChecksum.size.bits.toNat = 0 := by decide
  have size' : RmChecksum.size.bytes.toInt = 2 ∧ RmChecksum.size.bits.toNat = 0 := by decide
  have computed := m.calc_eq host info base.headerType (o := ⟨base.size.bytes.toUInt32,
    fun i => cell (i + base.offset.bytes.toInt)⟩) insideGenerated size.1 size.2
  rw [generated] at computed
  generalize value_eq : m.calculate info base.headerType ⟨base.size.bytes.toUInt32,
    put (fun i => cell (i + base.offset.bytes.toInt))
      (offset.toBits - base.offset.toBits) 16 0⟩ = x at computed ⊢
  have stored : Puts (PvOctets.encodeUint host x offset MmChecksum.width) offset.toBits 16
      x.toNat := (PvOctets.encodeUint_stores host x (w := 16) placed.inside_frame
    (by decide) (by decide)).puts
  obtain ⟨cell', run, writes⟩ := stored.finalMemory cell
  have window := writes.window base.offset.bytes.toInt
  rw [← placed.base_toBits] at window
  have generate : (WmChecksum.mk m offset).post_generate host info ⟨length, cell⟩ base =
      some (⟨length, cell'⟩, ⟨x.toInt32⟩) := by
    have number : (PvNumber.mk x.toInt32).value.toUInt32 = x := UInt32.toUInt32_toInt32 x
    simp only [WmChecksum.post_generate, placed.rgenerate_eq, computed, number, run,
      Option.bind_eq_bind, Option.bind_some]
  -- The field is cleared in the copy, so what the generator stored there is not seen.
  have again := m.calc_eq host info base.headerType (o := ⟨base.size.bytes.toUInt32,
    fun i => cell' (i + base.offset.bytes.toInt)⟩) insideReversed size'.1 size'.2
  rw [reversed, (window.overwrite (writes_put _ _ _ _)).unique (writes_put _ _ _ _),
    value_eq] at again
  have decoded : (PvOctets.mk base.size.bytes.toUInt32
      fun i => cell' (i + base.offset.bytes.toInt)).uintAt (RmChecksum.distance offsets)
        MmChecksum.width = UInt32.ofNat (x.toNat % 2 ^ 16) := by
    rw [PvOctets.uintAt, reversed]
    exact congrArg UInt32.ofNat window.value_eq
  obtain ⟨result, run', calc_value, unmatch⟩ := post_reverse_of_calc (c := {})
    (r := RmChecksum.reverse m offsets _) again
  have same : (RmChecksum.reverse m offsets ⟨base.size.bytes.toUInt32,
      fun i => cell' (i + base.offset.bytes.toInt)⟩).pvalue = ⟨x.toInt32⟩ ↔
      x.toNat < 2 ^ 16 := by
    rw [RmChecksum.reverse, decoded, PvNumber.mk.injEq,
      (Function.LeftInverse.injective UInt32.toUInt32_toInt32).eq_iff]
    exact low_word_iff x
  constructor
  · rintro ⟨frame, number, basebuf, result', generate', basebuf_eq, reverse', equal, -⟩
    obtain ⟨rfl, -⟩ := Prod.mk.inj (Option.some.inj (generate.symm.trans generate'))
    obtain rfl := Option.some.inj ((placed.rgenerate_eq cell').symm.trans basebuf_eq)
    obtain rfl := Option.some.inj (run'.symm.trans reverse')
    exact same.mp (equal.symm.trans calc_value)
  · intro fits
    refine ⟨_, _, _, result, generate, placed.rgenerate_eq cell', run', ?_, ?_, ?_⟩
    · rw [calc_value, same.mpr fits]
    · rw [unmatch, same.mpr fits]
      exact UInt32.toUInt32_toInt32 x
    · rw [doEvaluate_auto, calc_value, same.mpr fits]


/-- Every checksum is accepted, except where an optional checksum is computed and
    is zero: where the words of the datagram and of the pseudo header add up, in 32
    bits, to a multiple of 65535 other than zero. -/
theorem post_reverse_post_generate_iff (m : MmChecksum) (host : ByteOrder) (info : Con_IPinfo)
    {length : UInt32} (cell : Memory) {base : WcObject} {offset : ItPosition}
    {offsets : List ItPosition} (placed : Placed ⟨m, offset⟩ base offsets length) :
    Accepted m host info ⟨length, cell⟩ base offset offsets ↔
      ¬(m.optionable_ = true ∧ ∃ t, ChecksumCalculater.total m info base.headerType
        ⟨base.size.bytes.toUInt32, put (fun i => cell (i + base.offset.bytes.toInt))
          (offset.toBits - base.offset.toBits) 16 0⟩ = some t ∧
        0 < t % 2 ^ 32 ∧ 65535 ∣ t % 2 ^ 32) := by
  rw [accepted_iff_fits m host info cell placed]
  exact m.calculate_fits_iff info base.headerType _


/-- The addresses `fe80::1` and `fe80::2`. -/
def linkLocals : Con_IPinfo where
  SrcAddr := some (PvOctets.ofList [0xfe, 0x80, 0, 0, 0, 0, 0, 0, 0, 0, 0, 0, 0, 0, 0, 1])
  LastDstAddr := some (PvOctets.ofList [0xfe, 0x80, 0, 0, 0, 0, 0, 0, 0, 0, 0, 0, 0, 0, 0, 2])

/-- A UDP header without data, from port 512 to the given one. -/
def udpHeader (port : Octet) : PvOctets := PvOctets.ofList [2, 0, 0, port, 0, 8, 0, 0]

def udp : WcObject := ⟨17, ⟨0, 0⟩, ⟨8, 0⟩⟩

theorem udp_placed : Placed ⟨⟨true, true⟩, ⟨6, 0⟩⟩ udp [⟨6, 0⟩, ⟨0, 0⟩] 8 := by
  constructor <;> decide

/-- To port 219 the words add up to 131071, one more than a multiple of 65535. -/
theorem post_reverse_post_generate_udp :
    Accepted ⟨true, true⟩ .little linkLocals (udpHeader 219) udp ⟨6, 0⟩ [⟨6, 0⟩, ⟨0, 0⟩] := by
  apply (post_reverse_post_generate_iff _ _ _ _ udp_placed).mpr
  rintro ⟨-, t, total, -, multiple⟩
  have odd : t = 131071 := by
    apply Option.some.inj
    rw [← total]
    decide
  rw [odd] at multiple
  exact absurd multiple (by decide)

/-- To port 218 they add up to 131070. The checksum is zero and goes out as all
    ones; the decoder computes 32 ones and finds 16. -/
theorem not_accepted_allOnes :
    ¬Accepted ⟨true, true⟩ .little linkLocals (udpHeader 218) udp ⟨6, 0⟩ [⟨6, 0⟩, ⟨0, 0⟩] := by
  rw [show udpHeader 218 = ⟨8, (udpHeader 218).cell⟩ from rfl,
    accepted_iff_fits _ _ _ _ udp_placed]
  decide

end Tahi.Pz

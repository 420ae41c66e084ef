import Tahi.Pz.OptionProgress
import Tahi.Pz.PrologueTiles

/-! # Lengths that are generated

Headers and options have an octet for their own length. The composer computes it from the size of the
composed object, and the decoder the size from it.
-/

namespace Tahi.Pz

open BitField TracedMemory WtNode

/-! ## The values of the composer

`wc` is the compound of the length member. -/

/-- `HCGENE(HeaderExtLength)` -/
def McHdr_Ext.HCGENE_HeaderExtLength (wc : WtNode.Placed) : UInt32 :=
  let reallen := wc.size.bytes.toUInt32
  (reallen - 8) / 8

/-- `HCGENE(HeaderExtLength)` -/
def McHdr_Ext_AH.HCGENE_HeaderExtLength (wc : WtNode.Placed) : UInt32 :=
  let reallen := wc.size.bytes.toUInt32
  (reallen - 8) / 4

/-- `HCGENE(OptDataLength)` -/
def McOpt_Ext.HCGENE_OptDataLength (wc : WtNode.Placed) : UInt32 :=
  let reallen := wc.size.bytes.toUInt32
  reallen - 2

/-- `HCGENE(Length)` -/
def McOpt_ICMPv6.HCGENE_Length (wc : WtNode.Placed) : UInt32 :=
  let reallen := wc.size.bytes.toUInt32
  reallen / 8

def WtNode.Placed.children : WtNode.Placed → List WtNode.Placed
  | .leaf .. => []
  | .tree _ _ _ children => children

/-- The kinds of compounds with a length of their own. -/
inductive Lengthed where
  | McHdr_Ext
  | McHdr_Ext_AH
  | McOpt_Ext
  | McOpt_ICMPv6
deriving DecidableEq, Repr

namespace Lengthed

def HCGENE : Lengthed → WtNode.Placed → UInt32
  | McHdr_Ext => McHdr_Ext.HCGENE_HeaderExtLength
  | McHdr_Ext_AH => McHdr_Ext_AH.HCGENE_HeaderExtLength
  | McOpt_Ext => McOpt_Ext.HCGENE_OptDataLength
  | McOpt_ICMPv6 => McOpt_ICMPv6.HCGENE_Length

def length_for_reverse : Lengthed → RControl → ItPosition → PvOctets → UInt32
  | McHdr_Ext => Pz.McHdr_Ext.length_for_reverse
  | McHdr_Ext_AH => Pz.McHdr_Ext_AH.length_for_reverse
  | McOpt_Ext => Pz.McOpt_Ext.length_for_reverse
  | McOpt_ICMPv6 => Pz.McOpt_ICMPv6.length_for_reverse

/-- `DEF_LENGTH_ELEM` -/
def elem : Lengthed → ℕ
  | McHdr_Ext => 8
  | McHdr_Ext_AH => 4
  | McOpt_Ext => 1
  | McOpt_ICMPv6 => 8

/-- `DEF_LENGTH_OFFSET` -/
def offset : Lengthed → ℕ
  | McHdr_Ext => 8
  | McHdr_Ext_AH => 8
  | McOpt_Ext => 2
  | McOpt_ICMPv6 => 0

/-- A compound whose length is automatic. In front of it is the octet for the next header or the
    type. -/
def compound (m : Option MObjectKind) (o type : Option PObject) (rest : List WtNode) : WtNode :=
  .tree m o (.member (some (.uint 8)) type :: .member (some (.uint 8)) none :: rest)

/-- `PvNumber::generate` for the length member `wmem`. -/
def generate (kind : Lengthed) (host : ByteOrder) (wc wmem : WtNode.Placed) : Access Unit :=
  PvOctets.encodeUint host (kind.HCGENE wc) wmem.offset 8

/-- The decoder finds the size that has been composed, from the length that has been generated. -/
def ComesBack (kind : Lengthed) (host : ByteOrder) (w : WtNode) (at_ : ItPosition)
    (buf : PvOctets) : Prop :=
  let wc := (w.generatePrologue at_).1
  ∃ wmem s, wc.children[1]? = some wmem ∧ kind.generate host wc wmem ⟨buf.cell, []⟩ = some ((), s) ∧
    ∀ c, kind.length_for_reverse c at_ ⟨buf.length, s.cell⟩ = wc.size.bytes.toUInt32

/-- Sizes that an octet can stand for. -/
def Expressible (kind : Lengthed) (size : ℕ) : Prop :=
  ∃ v < 256, size = v * kind.elem + kind.offset

/-! ## What the length stands for -/

variable {kind : Lengthed}

theorem length_for_reverse_toNat (kind : Lengthed) (c : RControl) (at_ : ItPosition)
    (buf : PvOctets) : (kind.length_for_reverse c at_ buf).toNat =
      (McOption.lengthValue at_ buf).toNat * kind.elem + kind.offset := by
  have octet := McOption.lengthValue_lt at_ buf
  cases kind with
  | McHdr_Ext =>
      simp only [length_for_reverse, Pz.McHdr_Ext.length_for_reverse, elem, offset,
        UInt32.toNat_add, UInt32.toNat_mul, UInt32.reduceToNat]
      omega
  | McHdr_Ext_AH =>
      simp only [length_for_reverse, Pz.McHdr_Ext_AH.length_for_reverse, elem, offset,
        UInt32.toNat_add, UInt32.toNat_mul, UInt32.reduceToNat]
      omega
  | McOpt_Ext =>
      simp only [length_for_reverse, Pz.McOpt_Ext.length_for_reverse, elem, offset,
        UInt32.toNat_add, UInt32.reduceToNat]
      omega
  | McOpt_ICMPv6 =>
      simp only [length_for_reverse, Pz.McOpt_ICMPv6.length_for_reverse, elem, offset,
        UInt32.toNat_mul, UInt32.reduceToNat]
      omega

/-- The octet that is generated stands for the size, if some octet does. -/
theorem expressible_iff (kind : Lengthed) (wc : WtNode.Placed) :
    (kind.HCGENE wc).toNat % 256 * kind.elem + kind.offset = wc.size.bytes.toUInt32.toNat ↔
      kind.Expressible wc.size.bytes.toUInt32.toNat := by
  have bound := wc.size.bytes.toUInt32.toNat_lt
  constructor
  · intro same
    exact ⟨_, Nat.mod_lt _ (by decide), same.symm⟩
  · rintro ⟨v, octet, size⟩
    have stands : (kind.HCGENE wc).toNat = v := by
      cases kind with
      | McHdr_Ext =>
          simp only [HCGENE, McHdr_Ext.HCGENE_HeaderExtLength, elem, offset, UInt32.toNat_div,
            UInt32.toNat_sub, UInt32.reduceToNat] at size ⊢
          omega
      | McHdr_Ext_AH =>
          simp only [HCGENE, McHdr_Ext_AH.HCGENE_HeaderExtLength, elem, offset, UInt32.toNat_div,
            UInt32.toNat_sub, UInt32.reduceToNat] at size ⊢
          omega
      | McOpt_Ext =>
          simp only [HCGENE, McOpt_Ext.HCGENE_OptDataLength, elem, offset,
            UInt32.toNat_sub, UInt32.reduceToNat] at size ⊢
          omega
      | McOpt_ICMPv6 =>
          simp only [HCGENE, McOpt_ICMPv6.HCGENE_Length, elem, offset, UInt32.toNat_div,
            UInt32.reduceToNat] at size ⊢
          omega
    rw [stands, Nat.mod_eq_of_lt octet, size]

/-- The length member stands behind the octet for the next header or the type. -/
theorem compound_wmem (m : Option MObjectKind) (o type : Option PObject) (rest : List WtNode)
    {at_ : ItPosition} (reach : at_.toBits + 8 < 8 * 2 ^ 31) :
    ∃ wmem, ((compound m o type rest).generatePrologue at_).1.children[1]? = some wmem ∧
      wmem.offset.bits_.toNat < 8 ∧ wmem.offset.toBits = at_.toBits + 8 := by
  have first := stands (.member (some (.uint 8)) type) at_.copy at_.normal_copy trivial
    (by change 8 < 8 * 2 ^ 31; decide) (by rw [ItPosition.toBits_copy]; exact reach)
  have moved := first.moved
  rw [ItPosition.toBits_copy] at moved
  refine ⟨_, rfl, ItPosition.normal_copy _, ?_⟩
  exact (ItPosition.toBits_copy _).trans moved

/-- Where the decoder looks for the length. -/
theorem toBits_length {at_ : ItPosition} (reach : at_.toBits + 8 < 8 * 2 ^ 31) :
    (at_.copy.add (McOption.octet.stepPostion ⟨0, 0⟩)).toBits = at_.toBits + 8 := by
  have step : (McOption.octet.stepPostion ⟨0, 0⟩).toBits = 8 := by decide
  obtain ⟨-, moved⟩ := ItPosition.toBits_add_forward at_.normal_copy
    (j := McOption.octet.stepPostion ⟨0, 0⟩) (by decide)
    (by rw [ItPosition.toBits_copy, step]; exact reach)
  rw [moved, ItPosition.toBits_copy, step]

/-- The decoder reads the low octet of what has been generated. -/
theorem generate_lengthValue (kind : Lengthed) (host : ByteOrder) (wc wmem : WtNode.Placed)
    {at_ : ItPosition} {buf : PvOctets} (nonneg : 0 ≤ wmem.offset.bytes.toInt)
    (place : wmem.offset.toBits = at_.toBits + 8)
    (room : at_.toBits + 16 ≤ 8 * (buf.length.toNat : ℤ))
    (reach : at_.toBits + 16 ≤ 8 * 2 ^ 31) :
    ∃ s, kind.generate host wc wmem ⟨buf.cell, []⟩ = some ((), s) ∧
      (McOption.lengthValue at_ ⟨buf.length, s.cell⟩).toNat = (kind.HCGENE wc).toNat % 256 := by
  have width : (8 : UInt16).toNat = 8 := rfl
  have inside : Inside wmem.offset (8 : UInt16).toNat buf.length.toNat :=
    ⟨nonneg, by rw [width]; omega, by rw [width]; omega⟩
  obtain ⟨mem, ts, stored, writes, -⟩ :=
    PvOctets.encodeUint_stores host (kind.HCGENE wc) inside (by decide) (by decide) ⟨buf.cell, []⟩
  refine ⟨_, stored, ?_⟩
  have fetched := writes.value_eq
  rw [place] at fetched
  have behind : at_.toBits + 8 < 8 * 2 ^ 31 := by omega
  have where_ := toBits_length behind
  rw [McOption.lengthValue, MmUint.value, PvOctets.uintAt, where_]
  change (UInt32.ofNat (value mem (at_.toBits + 8) (8 : UInt16).toNat)).toNat = _
  rw [fetched, width, UInt32.toNat_ofNat_of_lt' (by rw [UInt32.size]; omega)]
  rfl

/-- What comes back is what the octet that is generated stands for. -/
theorem comesBack_iff_octet (kind : Lengthed) (host : ByteOrder) (m : Option MObjectKind)
    (o type : Option PObject) (rest : List WtNode) (at_ : ItPosition) (buf : PvOctets)
    (nonneg : 0 ≤ at_.bytes.toInt) (room : at_.toBits + 16 ≤ 8 * (buf.length.toNat : ℤ))
    (countable : buf.length.toNat < 2 ^ 31) : kind.ComesBack host (compound m o type rest) at_ buf ↔
      (kind.HCGENE ((compound m o type rest).generatePrologue at_).1).toNat % 256 * kind.elem +
          kind.offset =
        ((compound m o type rest).generatePrologue at_).1.size.bytes.toUInt32.toNat := by
  have reach : at_.toBits + 8 < 8 * 2 ^ 31 := by omega
  obtain ⟨wmem, second, small, place⟩ := compound_wmem m o type rest reach
  have front : 0 ≤ wmem.offset.bytes.toInt := by
    have bits := at_.bits_lt
    have bits' := wmem.offset.bits_lt
    rw [ItPosition.toBits, ItPosition.toBits] at place
    omega
  rw [ComesBack]
  generalize ((compound m o type rest).generatePrologue at_).1 = wc at second ⊢
  obtain ⟨s, generated, value⟩ := generate_lengthValue kind host wc wmem front place room (by omega)
  rw [← value]
  constructor
  · rintro ⟨wmem', s', second', generated', back⟩
    obtain rfl := Option.some.inj (second.symm.trans second')
    obtain ⟨-, rfl⟩ := Prod.mk.inj (Option.some.inj (generated.symm.trans generated'))
    have back := congrArg UInt32.toNat (back {})
    rwa [length_for_reverse_toNat] at back
  · intro back
    refine ⟨wmem, s, second, generated, fun c => UInt32.toNat_inj.mp ?_⟩
    rw [length_for_reverse_toNat, back]

/-- What has been composed comes back when an octet can stand for its size: a whole number of the
    units that the length counts, no smaller than what it does not count, and no more than 255 of
    them. -/
theorem lengthComesBack_iff (kind : Lengthed) (host : ByteOrder) (m : Option MObjectKind)
    (o type : Option PObject) (rest : List WtNode) (at_ : ItPosition) (buf : PvOctets)
    (nonneg : 0 ≤ at_.bytes.toInt) (room : at_.toBits + 16 ≤ 8 * (buf.length.toNat : ℤ))
    (countable : buf.length.toNat < 2 ^ 31) : kind.ComesBack host (compound m o type rest) at_ buf ↔
      kind.Expressible
        ((compound m o type rest).generatePrologue at_).1.size.bytes.toUInt32.toNat := by
  rw [comesBack_iff_octet kind host m o type rest at_ buf nonneg room countable, expressible_iff]

/-- A hop-by-hop header of eight octets. -/
theorem lengthComesBack_hopByHop :
    McHdr_Ext.ComesBack .little
      (compound (some .compound) none none [.member (some (.octets 6)) none]) ⟨0, 0⟩
      (.ofList (List.replicate 8 0)) := by
  apply (lengthComesBack_iff .McHdr_Ext .little (some .compound) none none _ ⟨0, 0⟩
    (.ofList (List.replicate 8 0)) (by decide) (by decide) (by decide)).mpr
  exact ⟨0, by decide, by decide⟩

/-- With one octet more, the length is for a header without it. -/
theorem not_lengthComesBack : ¬ ∀ (kind : Lengthed) (rest : List WtNode) (buf : PvOctets),
    16 ≤ 8 * (buf.length.toNat : ℤ) → buf.length.toNat < 2 ^ 31 →
      kind.ComesBack .little (compound (some .compound) none none rest) ⟨0, 0⟩ buf := by
  intro claim
  have back := claim .McHdr_Ext [.member (some (.octets 7)) none] (.ofList (List.replicate 9 0))
    (by decide) (by decide)
  have nine := (comesBack_iff_octet .McHdr_Ext .little (some .compound) none none _ ⟨0, 0⟩
    (.ofList (List.replicate 9 0)) (by decide) (by decide) (by decide)).mp back
  exact absurd nine (by decide)

end Lengthed

end Tahi.Pz

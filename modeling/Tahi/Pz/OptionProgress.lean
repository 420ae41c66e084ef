import Tahi.Pz.McHdrExt
import Tahi.Pz.McLayout

/-! # Progress of the decode loops

`MmReference_More0::reverse` goes on as long as a compound returns an object and there is
no error. Nothing checks that the position has moved: an option whose length is zero gets
an empty window, in which its first member does not fit.
-/

namespace Tahi.Pz

open MObject

namespace ItPosition

/-- The octets in front of a position, counted as the buffer is. -/
def octets (i : ItPosition) : Nat := i.bytes.toUInt32.toNat

theorem bytes_addBytes (i : ItPosition) (o : Int32) : (i.addBytes o).bytes = i.bytes + o := by
  change i.bytes_ + o + Int32.ofNat (i.bits_ / 8).toNat =
    i.bytes_ + Int32.ofNat (i.bits_ / 8).toNat + o
  rw [Int32.add_assoc, Int32.add_comm o, ← Int32.add_assoc]

/-- Moving forward inside a buffer. -/
theorem octets_addBytes {i : ItPosition} {length buf : UInt32}
    (inside : i.octets + length.toNat ≤ buf.toNat) :
    (i.addBytes length.toInt32).octets = i.octets + length.toNat := by
  have below := buf.toNat_lt
  unfold octets at *
  rw [bytes_addBytes, Int32.toUInt32_add, UInt32.toUInt32_toInt32, UInt32.toNat_add]
  exact Nat.mod_eq_of_lt (by omega)

end ItPosition

/-- With an object and without an error, the decoder has moved forward inside the buffer. -/
def Advances (mc : Reverse) : Prop :=
  ∀ ⦃c at_ buf r⦄, mc c at_ buf = .ok r → r.rc.isSome → r.c.error = false →
    at_.octets < r.at_.octets ∧ r.at_.octets ≤ buf.length.toNat

/-- The member does not fit a window without octets. -/
def Member.Occupies (mem : Member) : Prop :=
  ∀ ⦃c buf r⦄, buf.length = 0 → mem.reverse c ⟨0, 0⟩ buf = .ok r → r.c.error = true

namespace MmUint

theorem occupies (m : MmUint) (string : String)
    (ForIPinfo : Option (Con_IPinfo → Decoded → PvOctets → Con_IPinfo)) :
    (m.member string ForIPinfo).Occupies := by
  intro c buf r empty run
  by_contra noError
  have noError : r.c.error = false := by simpa using noError
  change m.reverse string ForIPinfo c ⟨0, 0⟩ buf = .ok r at run
  rw [reverse] at run
  obtain ⟨fits, -⟩ := MmElement.reverseWith_ok run noError
  obtain ⟨forward, size⟩ := m.size_toBits
  have zero : buf.length.toNat = 0 := by
    rw [empty]
    rfl
  have origin : (ItPosition.mk 0 0).toBits = 0 := rfl
  have countable : buf.length.toNat < 2 ^ 31 := by omega
  have inside : (ItPosition.mk 0 0).toBits ≤ 8 * buf.length.toNat := by omega
  rw [check_decode_limit_toBits countable (by decide) inside forward, decide_eq_true_eq, size,
    origin, zero] at fits
  have width := m.pos
  omega

end MmUint

namespace McObject

/-- A compound whose first member occupies octets, and whose length is below `2 ^ 31` or all
    that is left. -/
theorem advances {mc : McObject} {mem : Member} {members : List Member}
    (first : mc.members_ = mem :: members) (occupies : mem.Occupies)
    (length : ∀ c at_ buf, (mc.length_for_reverse c at_ buf).toNat < 2 ^ 31 ∨
      mc.length_for_reverse c at_ buf = buf.length - at_.bytes.toUInt32) :
    Advances mc.reverse := by
  intro c at_ buf r run some_ noError
  obtain ⟨c₀, buf_self, children, -, fits, window, decoded, moved, -⟩ := reverse_ok run noError
  have start := PvOctets.le_of_substr window
  have size := PvOctets.length_substr window
  have counted := length c at_ buf
  generalize mc.length_for_reverse c at_ buf = l at *
  have rest : (buf.length - at_.bytes.toUInt32).toNat = buf.length.toNat - at_.octets :=
    UInt32.toNat_sub_of_le _ _ start
  have ahead : at_.octets ≤ buf.length.toNat := UInt32.le_iff_toNat_le.mp start
  have inside : at_.octets + l.toNat ≤ buf.length.toNat := by
    rcases counted with small | all
    · have := le_of_check small fits
      omega
    · rw [all, rest]
      omega
  have nonempty : l.toNat ≠ 0 := by
    intro zero
    obtain ⟨memat, made, loop, -⟩ := members_reverse_ok decoded noError
    rw [first] at loop
    obtain ⟨r', others, one, noError', -⟩ := membersLoop_cons loop noError
    have empty : buf_self.length = 0 := by
      rw [size]
      exact UInt32.toNat_inj.mp zero
    rw [occupies empty one] at noError'
    cases noError'
  rw [moved, ItPosition.octets_addBytes inside]
  exact ⟨by omega, inside⟩

end McObject

namespace McNeedless

theorem advances : Advances reverse := by
  intro c at_ buf r run some_ noError
  rw [reverse_eq] at run
  split at run
  · cases run
    cases some_
  · rename_i left_
    split at run
    · cases window : buf.substr at_.bytes.toUInt32 (buf.length - at_.bytes.toUInt32) with
      | none => simp [window] at run
      | some w =>
          rw [window] at run
          cases run
          have start := PvOctets.le_of_substr window
          have size := PvOctets.length_substr window
          have rest : (buf.length - at_.bytes.toUInt32).toNat = buf.length.toNat - at_.octets :=
            UInt32.toNat_sub_of_le _ _ start
          have ahead : at_.octets ≤ buf.length.toNat := UInt32.le_iff_toNat_le.mp start
          have nonempty : (buf.length - at_.bytes.toUInt32).toNat ≠ 0 := fun zero =>
            left_ (UInt32.toNat_inj.mp zero)
          have inside : at_.octets + w.length.toNat ≤ buf.length.toNat := by
            rw [size, rest]
            omega
          simp only
          rw [ItPosition.octets_addBytes inside, size, rest]
          omega
    · cases run
      cases some_

end McNeedless

/-! ## The compounds of the dictionaries -/

theorem Advances.header {mc : McObject} (advances : Advances mc.reverse)
    (nextType_meta_ : Option String) : Advances (McHeader.reverse nextType_meta_ mc) := by
  intro c at_ buf r run some_ noError
  obtain ⟨s, run, error, at', rc, -⟩ := McHeader.reverse_ok run
  rw [← rc] at some_
  rw [← error] at noError
  rw [← at']
  exact advances run some_ noError

/-- The decoder of a dictionary entry, with changes of the control around it. -/
theorem Advances.around {mc rev : Reverse} (advances : Advances mc)
    (same : ∀ {c at_ buf r}, rev c at_ buf = .ok r → ∃ c' s, mc c' at_ buf = .ok s ∧
      s.at_ = r.at_ ∧ s.rc = r.rc ∧ s.c.error = r.c.error) : Advances rev := by
  intro c at_ buf r run some_ noError
  obtain ⟨c', s, run, at', rc, error⟩ := same run
  rw [← rc] at some_
  rw [← error] at noError
  rw [← at']
  exact advances run some_ noError

namespace McOption

theorem lengthValue_lt (at_ : ItPosition) (buf : PvOctets) : (lengthValue at_ buf).toNat < 256 := by
  have word : BitField.value buf.cell
      (at_.copy.add (octet.stepPostion ⟨0, 0⟩)).toBits octet.width.toNat < 2 ^ 8 :=
    BitField.value_lt _ _ _
  have small := Nat.lt_trans word (by decide : 2 ^ 8 < UInt32.size)
  rw [lengthValue, MmUint.value, PvOctets.uintAt, UInt32.toNat_ofNat_of_lt' small]
  exact word

/-- A compound that begins with an octet and counts its octets from its length octet. -/
theorem counted_advances {mc : McObject} {string : String} {members : List Member} {a b : UInt32}
    (first : mc.members_ = octet.member string :: members) (small : a.toNat * 256 + b.toNat < 2 ^ 31)
    (length : ∀ c at_ buf, mc.length_for_reverse c at_ buf = lengthValue at_ buf * a + b) :
    Advances mc.reverse := by
  refine McObject.advances first (octet.occupies string none) fun c at_ buf => Or.inl ?_
  have octets := lengthValue_lt at_ buf
  have product : (lengthValue at_ buf).toNat * a.toNat ≤ 256 * a.toNat :=
    Nat.mul_le_mul_right _ octets.le
  rw [length, UInt32.toNat_add, UInt32.toNat_mul]
  have inner := Nat.mod_le ((lengthValue at_ buf).toNat * a.toNat) (2 ^ 32)
  have outer := Nat.mod_le ((lengthValue at_ buf).toNat * a.toNat % 2 ^ 32 + b.toNat) (2 ^ 32)
  omega

theorem fixed_advances {string first : String} {members : List Member}
    (small : (McObject.size_ (octet.member first :: members)).bytes.toUInt32.toNat < 2 ^ 31) :
    Advances (fixed string (octet.member first :: members)).reverse :=
  McObject.advances rfl (octet.occupies first none) fun _ _ _ => Or.inl small

theorem endofOptionList_advances (string type_ : String)
    (small : (McObject.size_ [octet.member type_]).bytes.toUInt32.toNat < 2 ^ 31) :
    Advances (endofOptionList string type_) := by
  have option_advances : Advances (fixed string [octet.member type_]).reverse :=
    fixed_advances small
  refine option_advances.around ?_
  intro c at_ buf r run
  rw [endofOptionList] at run
  split at run
  · cases run
  · rename_i s decoded
    cases run
    exact ⟨c, s, decoded, rfl, rfl, rfl⟩

end McOption

/-- Every compound of the dictionary moves forward. -/
structure TypevsMcDict.Advances (d : TypevsMcDict) : Prop where
  list_ : ∀ rec_ ∈ d.list_, Pz.Advances rec_.2
  other_ : ∀ mc ∈ d.other_, Pz.Advances mc

theorem TypevsMcDict.Advances.find {d : TypevsMcDict} (advances : d.Advances) {t : Con_DictType}
    {mc : Reverse} (found : d.find t = some mc) : Pz.Advances mc := by
  rcases find_cases found with rfl | other_ | ⟨type, mem⟩
  · exact McNeedless.advances
  · exact advances.other_ mc other_
  · exact advances.list_ _ mem

theorem MmReference_More0.turn_advances {overwrite_DictType : Overwrite} {d : TypevsMcDict}
    (advances : d.Advances) : Advances (turn overwrite_DictType d) := by
  intro c at_ buf r run some_ noError
  rw [turn] at run
  cases type_ : overwrite_DictType c at_ buf with
  | error h => simp [type_] at run
  | ok result =>
      obtain ⟨goes, c'⟩ := result
      cases goes with
      | false =>
          simp only [type_] at run
          cases run
          cases some_
      | true =>
          cases found : d.find c'.DictType with
          | none =>
              simp only [type_, found] at run
              cases run
              cases some_
          | some mc =>
              simp only [type_, found] at run
              exact advances.find found run some_ noError

namespace McOpt_Ext

theorem option_advances (string : String) (members : List Member) (alignment_requirement : UInt32) :
    Advances (option string members alignment_requirement).reverse :=
  McOption.counted_advances (a := 1) (b := 2) rfl (by decide) fun _ _ _ => by
    rw [UInt32.mul_one]
    rfl

end McOpt_Ext

theorem MmOption_onExt.dict_advances : dict_.Advances where
  list_ := by
    simp only [dict_, List.forall_mem_cons]
    exact ⟨McOption.fixed_advances (by decide), McOpt_Ext.option_advances _ _ _,
      McOpt_Ext.option_advances _ _ _, McOpt_Ext.option_advances _ _ _,
      McOpt_Ext.option_advances _ _ _, McOpt_Ext.option_advances _ _ _,
      fun _ mem => by cases mem⟩
  other_ := by
    rintro mc ⟨⟩
    exact McOpt_Ext.option_advances _ _ _

namespace McOpt_ICMPv6

/-- An option of length zero gets an empty window, where its type does not fit. -/
theorem option_advances (string : String) (members : List Member) :
    Advances (option string members).reverse :=
  McOption.counted_advances (a := 8) (b := 0) rfl (by decide) fun _ _ _ => by
    rw [UInt32.add_zero]
    rfl

end McOpt_ICMPv6

theorem MmOption_onICMPv6.dict_advances : dict_.Advances where
  list_ := by
    simp only [dict_, List.forall_mem_cons]
    exact ⟨McOpt_ICMPv6.option_advances _ _, McOpt_ICMPv6.option_advances _ _,
      McOpt_ICMPv6.option_advances _ _, McOpt_ICMPv6.option_advances _ _,
      McOpt_ICMPv6.option_advances _ _, McOpt_ICMPv6.option_advances _ _,
      McOpt_ICMPv6.option_advances _ _, McOpt_ICMPv6.option_advances _ _,
      fun _ mem => by cases mem⟩
  other_ := by
    rintro mc ⟨⟩
    exact McOpt_ICMPv6.option_advances _ _

namespace McOpt_IPv4

theorem option_advances (string : String) (members : List Member) (alignment_requirement : UInt32) :
    Advances (option string members alignment_requirement).reverse :=
  McOption.counted_advances (a := 1) (b := 0) rfl (by decide) fun _ _ _ => by
    rw [UInt32.mul_one, UInt32.add_zero]
    rfl

end McOpt_IPv4

theorem MmOption_onIPv4.dict_advances : dict_.Advances where
  list_ := by
    simp only [dict_, List.forall_mem_cons]
    exact ⟨McOption.endofOptionList_advances _ _ (by decide), McOption.fixed_advances (by decide),
      McOpt_IPv4.option_advances _ _ _, McOpt_IPv4.option_advances _ _ _,
      McOpt_IPv4.option_advances _ _ _, McOpt_IPv4.option_advances _ _ _,
      McOpt_IPv4.option_advances _ _ _, fun _ mem => by cases mem⟩
  other_ := by
    rintro mc ⟨⟩
    exact McOpt_IPv4.option_advances _ _ _

namespace McOpt_TCP

theorem option_advances (string : String) (members : List Member) (alignment_requirement : UInt32) :
    Advances (option string members alignment_requirement).reverse :=
  McOption.counted_advances (a := 1) (b := 0) rfl (by decide) fun _ _ _ => by
    rw [UInt32.mul_one, UInt32.add_zero]
    rfl

end McOpt_TCP

theorem MmOption_onTCP.dict_advances : dict_.Advances where
  list_ := by
    simp only [dict_, List.forall_mem_cons]
    exact ⟨McOption.endofOptionList_advances _ _ (by decide), McOption.fixed_advances (by decide),
      McOpt_TCP.option_advances _ _ _, fun _ mem => by cases mem⟩
  other_ := by
    rintro mc ⟨⟩
    exact McOpt_TCP.option_advances _ _ _

namespace McOpt_MH

theorem option_advances (string : String) (members : List Member) :
    Advances (option string members).reverse :=
  McOption.counted_advances (a := 1) (b := 2) rfl (by decide) fun _ _ _ => by
    rw [UInt32.mul_one]
    rfl

end McOpt_MH

theorem MmOption_onMH.dict_advances : dict_.Advances where
  list_ := by
    simp only [dict_, List.forall_mem_cons]
    exact ⟨McOption.fixed_advances (by decide), McOpt_MH.option_advances _ _,
      McOpt_MH.option_advances _ _, McOpt_MH.option_advances _ _, McOpt_MH.option_advances _ _,
      McOpt_MH.option_advances _ _, McOpt_MH.option_advances _ _, fun _ mem => by cases mem⟩
  other_ := by
    rintro mc ⟨⟩
    exact McOpt_MH.option_advances _ _

/-! ## Extension headers -/

theorem McHdr_Ext.header_advances (string : String) (members : List Member) :
    Advances (McHeader.reverse (some "NextHeader") (McHdr_Ext.header string members)) :=
  (McOption.counted_advances (a := 8) (b := 8) rfl (by decide) fun _ _ _ => rfl).header _

theorem McHdr_Ext_Fragment.advances : Advances reverse := by
  have compound_advances : Advances compound.reverse :=
    McObject.advances rfl (McOption.octet.occupies "NextHeader" none) fun _ _ _ => Or.inl
      (show (McObject.size_ compound.members_).bytes.toUInt32.toNat < 2 ^ 31 by decide)
  refine (compound_advances.header (some "NextHeader")).around ?_
  intro c at_ buf r run
  rw [reverse] at run
  split at run
  · cases run
  · rename_i s decoded
    cases run
    exact ⟨c, s, decoded, rfl, rfl, rfl⟩

theorem McHdr_Ext_AH.advances (V : Bool) (provisional_AH_alignment_v4_v6_ : UInt32) :
    Advances (reverse V provisional_AH_alignment_v4_v6_) := by
  have compound_advances : Advances (compound V provisional_AH_alignment_v4_v6_).reverse :=
    McOption.counted_advances (a := 4) (b := 8) rfl (by decide) fun _ _ _ => rfl
  refine (compound_advances.header (some "NextHeader")).around ?_
  intro c at_ buf r run
  rw [reverse] at run
  simp only at run
  split at run
  · cases run
  · rename_i s decoded
    cases run
    exact ⟨_, s, decoded, rfl, rfl, rfl⟩

namespace McHdr_Ext_ESP

variable (payload : List Member) (ICV_Calculate : PaObject → PvOctets → Option PvOctets)

theorem SPI_occupies : (Member.mk id (MmSPI.reverse SPI_ "SPI")).Occupies := by
  intro c buf r empty run
  change MmSPI.reverse SPI_ "SPI" c ⟨0, 0⟩ buf = .ok r at run
  rw [MmSPI.reverse] at run
  cases number : SPI_.reverse "SPI" none c ⟨0, 0⟩ buf with
  | error h => simp [number] at run
  | ok s =>
      have error := SPI_.occupies "SPI" none empty number
      simp only [number] at run
      cases self : s.rc with
      | none =>
          simp only [self] at run
          cases run
          exact error
      | some r_self =>
          simp only [self] at run
          cases run
          exact error

theorem advances : Advances (reverse payload ICV_Calculate) := by
  have compound_advances : Advances (compound payload ICV_Calculate).reverse :=
    McObject.advances rfl SPI_occupies fun c at_ buf => Or.inr (UInt32.toUInt32_toInt32 _)
  refine (compound_advances.header none).around ?_
  intro c at_ buf r run
  rw [reverse] at run
  simp only at run
  split at run
  · cases run
  · rename_i s decoded
    cases run
    exact ⟨_, s, decoded, rfl, rfl, rfl⟩

end McHdr_Ext_ESP

namespace McHdr_Ext_MH

theorem header_advances (string : String) (members : List Member) :
    Advances (header string members) :=
  (McOption.counted_advances (a := 8) (b := 8) rfl (by decide) fun _ _ _ => rfl).header _

end McHdr_Ext_MH

theorem MmHeader_onMH.dict_advances (fuel : Nat) : (dict_ fuel).Advances where
  list_ := by
    simp only [dict_, List.forall_mem_cons]
    exact ⟨McHdr_Ext_MH.header_advances _ _, McHdr_Ext_MH.header_advances _ _,
      McHdr_Ext_MH.header_advances _ _, McHdr_Ext_MH.header_advances _ _,
      McHdr_Ext_MH.header_advances _ _, McHdr_Ext_MH.header_advances _ _,
      McHdr_Ext_MH.header_advances _ _, McHdr_Ext_MH.header_advances _ _,
      fun _ mem => by cases mem⟩
  other_ := by
    rintro mc ⟨⟩
    exact McHdr_Ext_MH.header_advances _ _

/-- A reference to one compound moves as the compound does. -/
theorem MmReference_Must1.advances {keepType_ : Bool} {overwrite_DictType : Overwrite}
    {d : TypevsMcDict} (advances : d.Advances) :
    Advances (reverse keepType_ overwrite_DictType d) := by
  intro c at_ buf r run some_ noError
  rw [reverse] at run
  cases type_ : overwrite_DictType c at_ buf with
  | error h => simp [type_] at run
  | ok result =>
      obtain ⟨goes, c'⟩ := result
      cases goes with
      | false =>
          simp only [type_] at run
          cases run
          cases some_
      | true =>
          cases found : d.find c'.DictType with
          | none =>
              simp only [type_, found] at run
              cases run
              cases some_
          | some mc =>
              cases decoded : mc c' at_ buf with
              | error h => simp [type_, found, decoded] at run
              | ok s =>
                  simp only [type_, found, decoded] at run
                  cases run
                  have error : s.c.error = false := by
                    cases keepType_ <;> exact noError
                  have moved := advances.find found decoded some_ error
                  exact moved

theorem MmExtent_onIP.dict_advances (k : ExtentContext) (payload : List Member) (fuel : Nat) :
    (dict_ k payload fuel).Advances where
  list_ := by
    simp only [dict_, List.forall_mem_cons]
    exact ⟨McHdr_Ext.header_advances _ _, McHdr_Ext.header_advances _ _,
      McHdr_Ext.header_advances _ _, McHdr_Ext_Fragment.advances, McHdr_Ext_AH.advances _ _,
      McHdr_Ext_ESP.advances _ _, MmReference_Must1.advances (MmHeader_onMH.dict_advances fuel),
      fun _ mem => by cases mem⟩
  other_ := by
    rintro mc ⟨⟩

end Tahi.Pz

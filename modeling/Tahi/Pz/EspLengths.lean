import Tahi.Pz.McESP

/-! # The lengths inside an ESP header

The length of the encrypted octets and the length of the plain text are differences
of unsigned words, and the limit check lets a negative size pass. They are right
exactly where the integrity check value and the initial vector fit the header.
-/

namespace Tahi.Pz

open MObject

/-! ## Whole octets -/

/-- A word read as a signed one is not negative below `2 ^ 31`. -/
theorem toInt32_nonneg_iff (u : UInt32) : 0 ≤ u.toInt32.toInt ↔ u.toNat < 2 ^ 31 := by
  have read : u.toInt32.toInt = (u.toNat : Int).bmod (2 ^ 32) :=
    BitVec.toInt_eq_toNat_bmod u.toBitVec
  have below := u.toNat_lt
  rw [read]
  simp only [Int.bmod]
  split <;> omega

namespace MObject

/-- Between whole octets the check asks whether the difference of words is below
    `2 ^ 31`. -/
theorem check_decode_limit_whole (o s : UInt32) (buf : PvOctets) :
    check_decode_limit ⟨o.toInt32, 0⟩ buf ⟨s.toInt32, 0⟩ =
      decide ((buf.length - o - s).toNat < 2 ^ 31) := by
  have octets : (ItPosition.mk o.toInt32 0).bytes = o.toInt32 := ItPosition.bytes_mk (by decide)
  have whole : (ItPosition.mk o.toInt32 0).bits = 0 := rfl
  have difference : buf.length.toInt32 - o.toInt32 - 0 - s.toInt32 =
      (buf.length - o - s).toInt32 := by
    rw [UInt32.toInt32_sub, UInt32.toInt32_sub, Int32.sub_zero]
  rw [check_decode_limit_octets, octets, if_pos whole, difference, decide_eq_decide,
    ← toInt32_nonneg_iff, Int32.le_iff_toInt_le]
  rfl

end MObject

/-- The member has a size that is not negative and ends inside the first `L` octets. -/
structure RObject.Within (L : UInt32) (m : Decoded) : Prop where
  octets : m.offset.bits = 0 ∧ m.size.bits = 0
  nonneg : 0 ≤ m.size.bytes.toInt
  inside : m.offset.bytes.toUInt32.toNat + m.size.bytes.toUInt32.toNat ≤ L.toNat

namespace RObject.Within

/-- An object of whole octets. -/
theorem of_octets {L o s : UInt32} (small : s.toNat < 2 ^ 31) (inside : o.toNat + s.toNat ≤ L.toNat)
    (string : String) (pv : PvObject) (children : List Decoded) :
    Within L (.mk string ⟨o.toInt32, 0⟩ ⟨s.toInt32, 0⟩ pv children) := by
  have octets (u : UInt32) : (ItPosition.mk u.toInt32 0).bytes = u.toInt32 :=
    ItPosition.bytes_mk (by decide)
  refine ⟨⟨rfl, rfl⟩, ?_, ?_⟩
  · rw [RObject.size, octets]
    exact (toInt32_nonneg_iff s).mpr small
  · rw [RObject.size, RObject.offset, octets, octets, UInt32.toUInt32_toInt32,
      UInt32.toUInt32_toInt32]
    exact inside

end RObject.Within

namespace MmElement

/-- A member that is not one for the IP layer, and becomes a leaf. -/
theorem reverseWith_none (length_for_reverse : RControl → ItPosition → PvOctets → ItPosition)
    (reversePv : ItPosition → ItPosition → PvOctets → PvObject) (string : String) (c : RControl)
    (at_ : ItPosition) (buf : PvOctets) :
    reverseWith length_for_reverse reversePv (leaf string) none c at_ buf =
      if check_decode_limit at_ buf (length_for_reverse c at_ buf) then
        let r_self : Decoded := .mk string at_ (length_for_reverse c at_ buf)
          (reversePv at_ (length_for_reverse c at_ buf) buf) []
        .ok ⟨c, at_.add (length_for_reverse c at_ buf), some r_self, [r_self]⟩
      else .ok ⟨c.result 1, at_, none, []⟩ := rfl

end MmElement

namespace PaObject

theorem ICV_Length_lt (sa : PaObject) : sa.ICV_Length.toNat < 256 := by
  have octet (a : PfAuth) : a.ICV_Length.toNat < 256 := by
    rw [PfAuth.ICV_Length, UInt8.toNat_toUInt32]
    exact a.metaClass.icvLength.toNat_lt
  cases sa with
  | ah auth_ =>
      cases auth_ with
      | none => decide
      | some a => exact octet a
  | esp sa =>
      rw [ICV_Length, PaESP.ICV_Length]
      cases sa.auth_ with
      | none => decide
      | some a => exact octet a

theorem ivecLength_lt (sa : PaObject) : sa.ivecLength.toNat < 256 := by
  cases sa with
  | ah auth_ => exact (by decide : (0 : UInt32).toNat < 256)
  | esp sa =>
      rw [ivecLength, PaESP.ivecLength]
      cases sa.crypt_ with
      | none => decide
      | some c =>
          rw [UInt8.toNat_toUInt32]
          exact c.metaClass.ivecLength.toNat_lt

/-- The plain text lacks the initial vector. -/
theorem length_Decrypted_Octets {sa : PaObject} {cipher text : PvOctets} {ivec : Option PvOctets}
    (decrypted : sa.Decrypted_Octets cipher = (some text, ivec)) :
    text.length = cipher.length - sa.ivecLength := by
  cases sa with
  | ah auth_ => cases decrypted
  | esp sa =>
      rw [Decrypted_Octets, PaESP.Decrypted_Octets] at decrypted
      rw [ivecLength, PaESP.ivecLength]
      cases crypt : sa.crypt_ with
      | none =>
          simp only [crypt] at decrypted
          cases decrypted
          exact (UInt32.sub_zero _).symm
      | some c =>
          simp only [crypt] at decrypted
          cases decrypted
          rfl

/-- The plain text is no longer than the encrypted octets exactly if the initial vector
    fits. -/
theorem plain_iff {sa : PaObject} {cipher text : PvOctets} {ivec : Option PvOctets}
    (decrypted : sa.Decrypted_Octets cipher = (some text, ivec)) :
    text.length ≤ cipher.length ↔ sa.ivecLength.toNat ≤ cipher.length.toNat := by
  have small := sa.ivecLength_lt
  have below := cipher.length.toNat_lt
  rw [length_Decrypted_Octets decrypted, UInt32.le_iff_toNat_le, UInt32.toNat_sub]
  omega

end PaObject

namespace McHdr_Ext_ESP

/-! ## Getting to the encrypted octets -/

theorem SPI_size : SPI_.stepPostion ⟨0, 0⟩ = ⟨(4 : UInt32).toInt32, 0⟩ := by decide

theorem SequenceNumber_size : SequenceNumber_.stepPostion ⟨0, 0⟩ = ⟨(4 : UInt32).toInt32, 0⟩ := by
  decide

/-- Two words fit the octets of the header. -/
def Words (L : UInt32) : Prop := 8 ≤ L.toNat ∧ L.toNat < 2 ^ 31 + 4

theorem words_iff (w : PvOctets) :
    (check_decode_limit ⟨0, 0⟩ w ⟨(4 : UInt32).toInt32, 0⟩ = true ∧
      check_decode_limit ⟨(4 : UInt32).toInt32, 0⟩ w ⟨(4 : UInt32).toInt32, 0⟩ = true) ↔
    Words w.length := by
  have first := check_decode_limit_whole 0 4 w
  have second := check_decode_limit_whole 4 4 w
  have zero : (0 : UInt32).toInt32 = 0 := rfl
  rw [zero] at first
  rw [first, second, decide_eq_true_iff, decide_eq_true_iff, Words]
  have below := w.length.toNat_lt
  simp only [UInt32.toNat_sub, UInt32.reduceToNat]
  omega

theorem reverse_SPI (c : RControl) (w : PvOctets) :
    MmSPI.reverse SPI_ "SPI" c ⟨0, 0⟩ w =
      if check_decode_limit ⟨0, 0⟩ w ⟨(4 : UInt32).toInt32, 0⟩ then
        let r_self : Decoded := .mk "SPI" ⟨(0 : UInt32).toInt32, 0⟩ ⟨(4 : UInt32).toInt32, 0⟩
          (.number ⟨(w.uintAt ⟨0, 0⟩ 32).toInt32⟩) []
        .ok ⟨{ c with SPI := (w.uintAt ⟨0, 0⟩ 32).toInt32.toUInt32 },
          ⟨(4 : UInt32).toInt32, 0⟩, some r_self, [r_self]⟩
      else .ok ⟨c.result 1, ⟨0, 0⟩, none, []⟩ := by
  have moved : (ItPosition.mk 0 0).add ⟨(4 : UInt32).toInt32, 0⟩ = ⟨(4 : UInt32).toInt32, 0⟩ := by
    decide
  simp only [MmSPI.reverse, MmUint.reverse, MmElement.reverseWith_none, SPI_size, moved]
  cases check_decode_limit ⟨0, 0⟩ w ⟨(4 : UInt32).toInt32, 0⟩ with
  | true => rfl
  | false => rfl

theorem reverse_SequenceNumber (c : RControl) (w : PvOctets) :
    (SequenceNumber_.member "SequenceNumber").reverse c ⟨(4 : UInt32).toInt32, 0⟩ w =
      if check_decode_limit ⟨(4 : UInt32).toInt32, 0⟩ w ⟨(4 : UInt32).toInt32, 0⟩ then
        let r_self : Decoded := .mk "SequenceNumber" ⟨(4 : UInt32).toInt32, 0⟩
          ⟨(4 : UInt32).toInt32, 0⟩
          (SequenceNumber_.reversePv ⟨(4 : UInt32).toInt32, 0⟩ ⟨(4 : UInt32).toInt32, 0⟩ w) []
        .ok ⟨c, ⟨(8 : UInt32).toInt32, 0⟩, some r_self, [r_self]⟩
      else .ok ⟨c.result 1, ⟨(4 : UInt32).toInt32, 0⟩, none, []⟩ := by
  have moved : (ItPosition.mk (4 : UInt32).toInt32 0).add ⟨(4 : UInt32).toInt32, 0⟩ =
      ⟨(8 : UInt32).toInt32, 0⟩ := by
    decide
  simp only [MmUint.member, MmUint.reverse, MmElement.reverseWith_none, SequenceNumber_size,
    moved]

theorem reverse_algorithm (c : RControl) (at_ : ItPosition) (w : PvOctets) :
    MmAlgorithm_onESP.reverse c at_ w =
      let made : List Decoded :=
        (c.algorithms.head?.map fun _ => RObject.mk "algorithm" at_ ⟨0, 0⟩ .name []).toList
      .ok ⟨c.set_pop_SA, at_, made.head?, made⟩ := by
  cases sas : c.algorithms with
  | nil => simp [MmAlgorithm_onESP.reverse, RControl.set_pop_SA, RControl.pop_SA, sas]
  | cons sa rest => simp [MmAlgorithm_onESP.reverse, RControl.set_pop_SA, RControl.pop_SA, sas]

/-- The first three members: two words, and the security association is selected. -/
theorem opening_ok {l : List Member} {c c' : RControl} {w : PvOctets} {memat : ItPosition}
    {made : List Decoded}
    (run : McObject.membersLoop (opening ++ l) c ⟨0, 0⟩ w = .ok (c', memat, made))
    (noError : c'.error = false) :
    c.error = false ∧ Words w.length ∧ ∃ c₁ made₁ made₂,
      c₁.poping_SA = c.algorithms.head? ∧
      McObject.membersLoop l c₁ ⟨(8 : UInt32).toInt32, 0⟩ w = .ok (c', memat, made₂) ∧
      made = made₁ ++ made₂ ∧ ∀ m ∈ made₁, RObject.Within w.length m := by
  obtain ⟨spi, _, first, noError₁, run₁, rfl⟩ := McObject.membersLoop_cons run noError
  obtain ⟨number, _, second, noError₂, run₂, rfl⟩ := McObject.membersLoop_cons run₁ noError
  obtain ⟨selected, made_, third, _, run₃, rfl⟩ := McObject.membersLoop_cons run₂ noError
  simp only [reverse_SPI] at first
  split at first
  · cases first
    simp only [reverse_SequenceNumber] at second
    split at second
    · cases second
      have words := (words_iff w).mp ⟨‹_›, ‹_›⟩
      have room := words.1
      simp only [reverse_algorithm] at third
      cases third
      refine ⟨noError₁, words, _, [_, _] ++ _, made_, ?_, run₃, rfl, fun m member => ?_⟩
      · simp [RControl.set_pop_SA, RControl.pop_SA]
      · rcases List.mem_append.mp member with words_ | algorithm
        · rcases List.mem_cons.mp words_ with rfl | words_
          · exact .of_octets (by decide) (by simpa using Nat.le_trans (by decide) room) _ _ _
          · rw [List.mem_singleton] at words_
            rw [words_]
            exact .of_octets (by decide) (by simpa using room) _ _ _
        · cases sas : c.algorithms.head? with
          | none => simp [sas] at algorithm
          | some sa =>
              simp [sas] at algorithm
              rw [algorithm]
              exact .of_octets (o := 8) (s := 0) (by decide) (by simpa using room) _ _ _
    · cases second
      cases noError₂
  · cases first
    cases noError₁

/-- The three members are passed if the two words are there. -/
theorem opening_run {c : RControl} {w : PvOctets} (noError : c.error = false)
    (words : Words w.length) :
    ∃ c₁ made, McObject.membersLoop opening c ⟨0, 0⟩ w =
        .ok (c₁, ⟨(8 : UInt32).toInt32, 0⟩, made) ∧
      c₁.error = false ∧ c₁.poping_SA = c.algorithms.head? := by
  obtain ⟨first, second⟩ := (words_iff w).mpr words
  have spi := reverse_SPI c w
  rw [if_pos first] at spi
  have number := reverse_SequenceNumber
    { c with SPI := (w.uintAt ⟨0, 0⟩ 32).toInt32.toUInt32 } w
  rw [if_pos second] at number
  exact ⟨_, _, McObject.membersLoop_cons_ok spi noError
    (McObject.membersLoop_cons_ok number noError
      (McObject.membersLoop_cons_ok (reverse_algorithm _ _ w) (by simpa using noError) rfl)),
    by simpa using noError, by simp [RControl.set_pop_SA, RControl.pop_SA]⟩

/-- The decoder of a header gets to `Crypted` with the control `c₁`, at a position in the
    octets `w` of the header. -/
structure Reaches (c : RControl) (at_ : ItPosition) (buf : PvOctets) (c₁ : RControl)
    (memat : ItPosition) (w : PvOctets) : Prop where
  fits : check_decode_limit at_ buf ⟨(buf.length - at_.bytes.toUInt32).toInt32, 0⟩ = true
  window : buf.substr at_.bytes.toUInt32 (buf.length - at_.bytes.toUInt32) = some w
  members : ∃ made, McObject.membersLoop opening { c with poping_SA := none, ESPinfo := {} }
    ⟨0, 0⟩ w = .ok (c₁, memat, made)
  noError : c₁.error = false

theorem Reaches.spec {c c₁ : RControl} {at_ memat : ItPosition} {buf w : PvOctets}
    (reaches : Reaches c at_ buf c₁ memat w) :
    c.error = false ∧ at_.bits = 0 ∧ at_.bytes.toUInt32 ≤ buf.length ∧
      w.length = buf.length - at_.bytes.toUInt32 ∧ Words w.length ∧
      memat = ⟨(8 : UInt32).toInt32, 0⟩ ∧ c₁.poping_SA = c.algorithms.head? := by
  obtain ⟨fits, window, ⟨made, run⟩, noError⟩ := reaches
  rw [check_decode_limit_rest, decide_eq_true_iff] at fits
  have inside := PvOctets.le_of_substr window
  obtain ⟨noError', words, c₂, _, _, selected, run, _⟩ := opening_ok (l := []) run noError
  cases run
  exact ⟨noError', fits, inside, PvOctets.length_substr window, words, rfl, selected⟩

/-- `Crypted` stands behind two words and before the integrity check value. -/
theorem length_Crypted (c : RControl) (w : PvOctets) :
    MmESP_Crypted.length_for_reverse c ⟨(8 : UInt32).toInt32, 0⟩ w =
      ⟨(w.length - 8 - (c.poping_SA.map PaObject.ICV_Length).getD 0).toInt32, 0⟩ := by
  have start : (ItPosition.mk (8 : UInt32).toInt32 0).bytes.toUInt32 = 8 := rfl
  have rest : (w.remainLength 8).toUInt32 = w.length - 8 := UInt32.toUInt32_toInt32 _
  rw [MmESP_Crypted.length_for_reverse]
  simp only [start, rest]
  cases c.poping_SA with
  | none => simp
  | some sa => simp

/-- Every decode of a header ends in an error or in members that lie inside the header,
    and neither of the two lengths wraps. -/
structure Contained (payload : List Member)
    (ICV_Calculate : PaObject → PvOctets → Option PvOctets) (c : RControl) (at_ : ItPosition)
    (buf : PvOctets) : Prop where
  crypted : ∀ {c₁ memat w}, Reaches c at_ buf c₁ memat w →
    0 ≤ (MmESP_Crypted.length_for_reverse c₁ memat w).bytes.toInt
  plain : ∀ {c₁ memat w sa cipher text ivec}, Reaches c at_ buf c₁ memat w →
    c₁.poping_SA = some sa →
    MmVarOctets.reversePv memat (MmESP_Crypted.length_for_reverse c₁ memat w) w =
      .octets cipher →
    cipher.length ≠ 0 → sa.Decrypted_Octets cipher = (some text, ivec) →
    text.length ≤ cipher.length
  members : ∀ {r}, reverse payload ICV_Calculate c at_ buf = .ok r → r.c.error = true ∨
    ∃ w children, r.made = [.mk "Hdr_ESP" at_
        ⟨(buf.length - at_.bytes.toUInt32).toInt32, 0⟩ (.octets w) children] ∧
      ∀ m ∈ children, RObject.Within (buf.length - at_.bytes.toUInt32) m

/-- A header whose decoder gets to `Crypted` under a security association has the octets
    of the integrity check value, and of the initial vector unless nothing is left. -/
def Fits (c : RControl) (at_ : ItPosition) (buf : PvOctets) : Prop :=
  ∀ sa, c.algorithms.head? = some sa → c.error = false → at_.bits = 0 →
    at_.bytes.toUInt32 ≤ buf.length → Words (buf.length - at_.bytes.toUInt32) →
    let behind := (buf.length - at_.bytes.toUInt32).toNat - 8
    sa.ICV_Length.toNat ≤ behind ∧
      (behind = sa.ICV_Length.toNat ∨
        sa.ivecLength.toNat ≤ behind - sa.ICV_Length.toNat)

/-- The length of `Crypted` does not wrap if the integrity check value fits. -/
theorem toNat_crypted {L icv : UInt32} (words : Words L) (fits : icv.toNat ≤ L.toNat - 8) :
    (L - 8 - icv).toNat = L.toNat - 8 - icv.toNat := by
  obtain ⟨room, _⟩ := words
  have eight : (L - 8).toNat = L.toNat - 8 :=
    UInt32.toNat_sub_of_le _ _ (UInt32.le_iff_toNat_le.mpr room)
  rw [UInt32.toNat_sub_of_le _ _ (UInt32.le_iff_toNat_le.mpr (by rw [eight]; exact fits)), eight]

/-- The length of `Crypted` is not negative exactly if the integrity check value fits. -/
theorem crypted_nonneg_iff {L icv : UInt32} (words : Words L) (small : icv.toNat < 256) :
    0 ≤ (L - 8 - icv).toInt32.toInt ↔ icv.toNat ≤ L.toNat - 8 := by
  obtain ⟨room, limit⟩ := words
  have eight : (L - 8).toNat = L.toNat - 8 :=
    UInt32.toNat_sub_of_le _ _ (UInt32.le_iff_toNat_le.mpr room)
  rw [toInt32_nonneg_iff, UInt32.toNat_sub, eight]
  omega

/-- Whatever becomes of the plain text, the object has the place of the member. -/
theorem reverseRm_Crypted {payload : List Member} {c c₁ : RControl} {at_ size : ItPosition}
    {pv : PvObject} {r_self : Decoded}
    (run : MmESP_Crypted.reverseRm payload c at_ size pv = .ok (c₁, r_self)) :
    ∃ children, r_self = .mk "Crypted" at_ size pv children := by
  simp only [MmESP_Crypted.reverseRm] at run
  split at run
  · split at run
    · cases run
      exact ⟨_, rfl⟩
    · split at run
      · cases run
        exact ⟨_, rfl⟩
      · split at run
        · cases run
        · cases run
          exact ⟨_, rfl⟩
  · cases run
    exact ⟨_, rfl⟩

theorem reverse_Crypted_ok {payload : List Member} {c : RControl} {at_ : ItPosition}
    {w : PvOctets} {r : Reversed} (run : MmESP_Crypted.reverse payload c at_ w = .ok r)
    (noError : r.c.error = false) :
    r.at_ = at_.add (MmESP_Crypted.length_for_reverse c at_ w) ∧ ∃ pv children,
      r.made = [.mk "Crypted" at_ (MmESP_Crypted.length_for_reverse c at_ w) pv children] := by
  obtain ⟨_, moved, c₁, r_self, object, made⟩ := MmElement.reverseWith_ok run noError
  obtain ⟨children, rfl⟩ := reverseRm_Crypted object
  exact ⟨moved, _, children, made⟩

theorem reverse_ICV_ok {ICV_Calculate : PaObject → PvOctets → Option PvOctets} {c : RControl}
    {at_ : ItPosition} {w : PvOctets} {r : Reversed}
    (run : MmESP_ICV.reverse ICV_Calculate c at_ w = .ok r) (noError : r.c.error = false) :
    check_decode_limit at_ w (MmESP_ICV.length_for_reverse c at_ w) = true ∧
      r.at_ = at_.add (MmESP_ICV.length_for_reverse c at_ w) ∧ ∃ pv,
        r.made = [.mk "ICV" at_ (MmESP_ICV.length_for_reverse c at_ w) pv []] := by
  simp only [MmESP_ICV.reverse, MmElement.reverseWith_none] at run
  cases fits : check_decode_limit at_ w (MmESP_ICV.length_for_reverse c at_ w) with
  | true =>
      simp only [fits, if_true] at run
      split at run
      · cases run
        exact ⟨rfl, rfl, _, rfl⟩
      · cases run
        exact ⟨rfl, rfl, _, rfl⟩
  | false =>
      simp [fits] at run
      rw [← run] at noError
      cases noError

theorem reverse_ok {payload : List Member}
    {ICV_Calculate : PaObject → PvOctets → Option PvOctets} {c : RControl} {at_ : ItPosition}
    {buf : PvOctets} {r : Reversed} (run : reverse payload ICV_Calculate c at_ buf = .ok r)
    (noError : r.c.error = false) :
    ∃ w children c₀ c₁, c₀.algorithms = c.algorithms ∧ c₀.error = c.error ∧ c₁.error = false ∧
      check_decode_limit at_ buf ⟨(buf.length - at_.bytes.toUInt32).toInt32, 0⟩ = true ∧
      buf.substr at_.bytes.toUInt32 (buf.length - at_.bytes.toUInt32) = some w ∧
      McObject.members_reverse McNeedless.reverse (compound payload ICV_Calculate).members_
        c₀ ⟨0, 0⟩ w = .ok (c₁, children) ∧
      r.made = [.mk "Hdr_ESP" at_ ⟨(buf.length - at_.bytes.toUInt32).toInt32, 0⟩
        (.octets w) children] := by
  have rest : (buf.remainLength at_.bytes.toUInt32).toUInt32 =
      buf.length - at_.bytes.toUInt32 := UInt32.toUInt32_toInt32 _
  simp only [reverse] at run
  split at run
  · cases run
  · cases run
    obtain ⟨s, compound_, error, _, _, made⟩ := McHeader.reverse_ok ‹_›
    have noError' : s.c.error = false := error.trans noError
    obtain ⟨c₀, w, children, kept, fits, window, members, _, object, made'⟩ :=
      McObject.reverse_ok compound_ noError'
    simp only [compound, rest] at fits window object
    refine ⟨w, children, c₀, s.c, ?_, ?_, noError', fits, window, members, ?_⟩
    · rcases kept with rfl | rfl
      · rfl
      · rfl
    · rcases kept with rfl | rfl
      · rfl
      · exact RControl.error_setWarning _ _
    · rw [← made, made', object]
      rfl

theorem octets_add (o x : UInt32) :
    (ItPosition.mk o.toInt32 0).add ⟨x.toInt32, 0⟩ = ⟨(o + x).toInt32, 0⟩ := by
  rw [ItPosition.add_octets, UInt32.toInt32_add]

theorem length_ICV (c : RControl) (at_ : ItPosition) (w : PvOctets) :
    ∃ icv : UInt32, icv.toNat < 256 ∧
      MmESP_ICV.length_for_reverse c at_ w = ⟨icv.toInt32, 0⟩ := by
  rw [MmESP_ICV.length_for_reverse]
  cases c.poping_SA with
  | none => exact ⟨0, by decide, rfl⟩
  | some sa => exact ⟨sa.ICV_Length, sa.ICV_Length_lt, rfl⟩

/-- What is left over behind a whole octet of the header is inside the header. -/
theorem within_needless {o : UInt32} {w rest : PvOctets} (small : (w.length - o).toNat < 2 ^ 31)
    (inside : o ≤ w.length) (size : rest.length = w.length - o) :
    RObject.Within w.length (McNeedless.object ⟨o.toInt32, 0⟩ rest) := by
  rw [McNeedless.object, size]
  refine .of_octets small ?_ _ _ _
  rw [UInt32.toNat_sub_of_le _ _ inside]
  have le := UInt32.le_iff_toNat_le.mp inside
  omega

/-- The members of a header whose integrity check value fits lie inside the header. -/
theorem members_within {payload : List Member}
    {ICV_Calculate : PaObject → PvOctets → Option PvOctets} {c₀ c₁ : RControl} {w : PvOctets}
    {children : List Decoded}
    (run : McObject.members_reverse McNeedless.reverse
      (compound payload ICV_Calculate).members_ c₀ ⟨0, 0⟩ w = .ok (c₁, children))
    (noError : c₁.error = false)
    (fits : ∀ sa, c₀.algorithms.head? = some sa → c₀.error = false → Words w.length →
      sa.ICV_Length.toNat ≤ w.length.toNat - 8) :
    ∀ m ∈ children, RObject.Within w.length m := by
  obtain ⟨memat, made, loop, left_⟩ := McObject.members_reverse_ok run noError
  obtain ⟨noError₀, words, c₂, first, rest, selected, loop₁, rfl, firstWithin⟩ :=
    opening_ok loop noError
  obtain ⟨crypted, rest₁, run₁, noError₁, loop₂, rfl⟩ := McObject.membersLoop_cons loop₁ noError
  obtain ⟨icv, rest₂, run₂, noError₂, loop₃, rfl⟩ := McObject.membersLoop_cons loop₂ noError
  cases loop₃
  obtain ⟨moved₁, pv₁, plain, made₁⟩ := reverse_Crypted_ok run₁ noError₁
  obtain ⟨check, moved₂, pv₂, made₂⟩ := reverse_ICV_ok run₂ noError₂
  obtain ⟨x, _, size⟩ := length_ICV crypted.c crypted.at_ w
  rw [length_Crypted, selected] at moved₁ made₁
  have enough : ((c₀.algorithms.head?.map PaObject.ICV_Length).getD 0).toNat ≤
      w.length.toNat - 8 := by
    cases sas : c₀.algorithms.head? with
    | none => exact Nat.zero_le _
    | some sa => exact fits sa sas noError₀ words
  generalize (c₀.algorithms.head?.map PaObject.ICV_Length).getD 0 = icv₀ at moved₁ made₁ enough
  have length := toNat_crypted words enough
  have room := words.1
  have limit := words.2
  rw [octets_add] at moved₁
  generalize crypt : w.length - 8 - icv₀ = l at moved₁ made₁ length
  have reached : (8 + l).toNat = w.length.toNat - icv₀.toNat := by
    have eight : (8 : UInt32).toNat = 8 := rfl
    rw [UInt32.toNat_add, length, eight]
    omega
  generalize 8 + l = o at moved₁ reached
  rw [size, moved₁] at check moved₂ made₂
  rw [check_decode_limit_whole, decide_eq_true_iff, UInt32.toNat_sub, UInt32.toNat_sub,
    reached] at check
  rw [octets_add] at moved₂
  have last : (o + x).toNat = o.toNat + x.toNat := by
    rw [UInt32.toNat_add]
    omega
  have members : ∀ m ∈ first ++ (crypted.made ++ (icv.made ++ [])), RObject.Within w.length m := by
    intro m member
    rcases List.mem_append.mp member with member | member
    · exact firstWithin m member
    · rw [made₁, made₂] at member
      rcases List.mem_cons.mp member with rfl | member
      · exact .of_octets (by omega) (by change 8 + _ ≤ _; omega) _ _ _
      · rcases List.mem_cons.mp member with rfl | member
        · exact .of_octets (by omega) (by omega) _ _ _
        · cases member
  rcases left_ with ⟨_, rfl⟩ | ⟨_, _, rest, window, rfl⟩
  · exact members
  · intro m member
    rcases List.mem_append.mp member with member | member
    · exact members m member
    · rw [List.mem_singleton] at member
      have octets : (ItPosition.mk (o + x).toInt32 0).bytes.toUInt32 = o + x := by
        rw [ItPosition.bytes_mk (by decide), UInt32.toUInt32_toInt32]
      rw [moved₂, octets] at window
      rw [member, moved₂]
      have le : o + x ≤ w.length := UInt32.le_iff_toNat_le.mpr (by rw [last]; omega)
      refine within_needless ?_ le (PvOctets.length_substr window)
      rw [UInt32.toNat_sub_of_le _ _ le]
      omega

/-- The length that is computed for `Crypted`, where the decoder gets to it. -/
theorem Reaches.length_Crypted_eq {c c₁ : RControl} {at_ memat : ItPosition} {buf w : PvOctets}
    (reaches : Reaches c at_ buf c₁ memat w) :
    MmESP_Crypted.length_for_reverse c₁ memat w =
      ⟨(w.length - 8 - (c.algorithms.head?.map PaObject.ICV_Length).getD 0).toInt32, 0⟩ := by
  obtain ⟨_, _, _, _, _, position, selected⟩ := reaches.spec
  rw [position, length_Crypted, selected]

/-- The encrypted octets, where the decoder gets to them. -/
theorem Reaches.length_icv {c c₁ : RControl} {at_ memat : ItPosition} {buf w cipher : PvOctets}
    {sa : PaObject} (reaches : Reaches c at_ buf c₁ memat w)
    (selected : c.algorithms.head? = some sa)
    (value : MmVarOctets.reversePv memat (MmESP_Crypted.length_for_reverse c₁ memat w) w =
      .octets cipher) :
    cipher.length = w.length - 8 - sa.ICV_Length := by
  rw [reaches.length_Crypted_eq, selected] at value
  cases value
  change (ItPosition.mk _ 0).bytes.toUInt32 = _
  rw [ItPosition.bytes_mk (by decide), UInt32.toUInt32_toInt32]
  rfl

/-- A decode is contained in its header exactly if the integrity check value and the
    initial vector of the security association fit behind the two words. -/
theorem contained_iff (payload : List Member)
    (ICV_Calculate : PaObject → PvOctets → Option PvOctets) (c : RControl) (at_ : ItPosition)
    (buf : PvOctets) : Contained payload ICV_Calculate c at_ buf ↔ Fits c at_ buf := by
  constructor
  · intro contained sa selected noError whole inside words behind
    obtain ⟨w, window⟩ : ∃ w,
        buf.substr at_.bytes.toUInt32 (buf.length - at_.bytes.toUInt32) = some w :=
      ⟨_, if_neg (UInt32.not_lt.mpr inside)⟩
    have size := PvOctets.length_substr window
    obtain ⟨c₁, made, run, noError₁, popped⟩ := @opening_run
      { c with poping_SA := none, ESPinfo := {} } w noError (size ▸ words)
    have reaches : Reaches c at_ buf c₁ _ w :=
      ⟨by rw [check_decode_limit_rest, decide_eq_true whole], window, ⟨made, run⟩, noError₁⟩
    have crypted := contained.crypted reaches
    rw [reaches.length_Crypted_eq, selected, ItPosition.bytes_mk (by decide), size] at crypted
    have enough : sa.ICV_Length.toNat ≤ behind :=
      (crypted_nonneg_iff words sa.ICV_Length_lt).mp crypted
    refine ⟨enough, ?_⟩
    cases sa with
    | ah auth_ => exact .inr (Nat.zero_le _)
    | esp sa =>
        by_cases none_ : behind = (PaObject.esp sa).ICV_Length.toNat
        · exact .inl none_
        · refine .inr ?_
          obtain ⟨cipher, value⟩ : ∃ cipher,
              MmVarOctets.reversePv ⟨(8 : UInt32).toInt32, 0⟩
                (MmESP_Crypted.length_for_reverse c₁ ⟨(8 : UInt32).toInt32, 0⟩ w) w =
              .octets cipher := ⟨_, rfl⟩
          obtain ⟨text, ivec, decrypted⟩ : ∃ text ivec,
              (PaObject.esp sa).Decrypted_Octets cipher = (some text, ivec) := ⟨_, _, rfl⟩
          have length := toNat_crypted words enough
          rw [← size, ← reaches.length_icv selected value, size] at length
          have some_ : cipher.length ≠ 0 := by
            intro zero
            rw [zero] at length
            change 0 = behind - _ at length
            omega
          have plain := contained.plain reaches (popped.trans selected) value some_ decrypted
          rw [PaObject.plain_iff decrypted, length] at plain
          exact plain
  · intro fits
    have enough {L : UInt32} (noError : c.error = false) (whole : at_.bits = 0)
        (inside : at_.bytes.toUInt32 ≤ buf.length) (size : L = buf.length - at_.bytes.toUInt32)
        (words : Words L) :
        ((c.algorithms.head?.map PaObject.ICV_Length).getD 0).toNat ≤ L.toNat - 8 := by
      cases selected : c.algorithms.head? with
      | none => exact Nat.zero_le _
      | some sa =>
          rw [size] at words ⊢
          exact (fits sa selected noError whole inside words).1
    refine ⟨fun reaches => ?_, fun {_ _ _ _ cipher _ _} reaches popped value some_ decrypted => ?_,
      fun {r} run => ?_⟩
    · obtain ⟨noError, whole, inside, size, words, _, _⟩ := reaches.spec
      rw [reaches.length_Crypted_eq, ItPosition.bytes_mk (by decide), toInt32_nonneg_iff,
        toNat_crypted words (enough noError whole inside size words)]
      have limit := words.2
      omega
    · obtain ⟨noError, whole, inside, size, words, _, popped'⟩ := reaches.spec
      have selected := popped'.symm.trans popped
      rw [size] at words
      obtain ⟨icv, iv⟩ := fits _ selected noError whole inside words
      have length := toNat_crypted words icv
      rw [← size, ← reaches.length_icv selected value, size] at length
      rw [PaObject.plain_iff decrypted, length]
      have more : cipher.length.toNat ≠ 0 := fun zero => some_ (UInt32.toNat_inj.mp zero)
      omega
    · cases error : r.c.error with
      | true => exact .inl rfl
      | false =>
          obtain ⟨w, children, c₀, c₁, same, error₀, noError, fits_, window, members, made⟩ :=
            reverse_ok run error
          have size := PvOctets.length_substr window
          have within := members_within members noError fun sa selected noError₀ words => by
            rw [check_decode_limit_rest, decide_eq_true_iff] at fits_
            rw [size] at words ⊢
            exact (fits sa (same ▸ selected) (error₀ ▸ noError₀) fits_
              (PvOctets.le_of_substr window) words).1
          exact .inr ⟨w, children, made, size ▸ within⟩

/-- Twelve octets under an association whose integrity check value has twelve: no error
    is set, and `Crypted` has minus eight octets. -/
theorem crypted_negative :
    let c : RControl := { algorithms := [.esp ⟨none, some ⟨MfAuth.hmacsha1⟩, fun _ => 0⟩] }
    let buf : PvOctets := ⟨12, fun i => [0, 0, 1, 0, 0, 0, 0, 1, 0, 0, 0, 0].getD i.toNat 0⟩
    (∃ r w children, reverse [] (fun _ _ => none) c ⟨0, 0⟩ buf = .ok r ∧ r.c.error = false ∧
      r.made = [.mk "Hdr_ESP" ⟨0, 0⟩ ⟨12, 0⟩ (.octets w) children] ∧
      ∃ m ∈ children, m.size.bytes.toInt < 0) ∧
    ¬Contained [] (fun _ _ => none) c ⟨0, 0⟩ buf := by
  refine ⟨⟨_, _, _, rfl, rfl, rfl, ?_⟩, fun contained => ?_⟩
  · refine ⟨_, List.mem_cons_of_mem _ (List.mem_cons_of_mem _ (List.mem_cons_of_mem _
      List.mem_cons_self)), by decide⟩
  · exact absurd (contained.crypted ⟨rfl, rfl, ⟨_, rfl⟩, rfl⟩) (by decide)

end McHdr_Ext_ESP

end Tahi.Pz

import Tahi.Pz.PAlgorithm

/-! # The trailer of an ESP plain text

The plain text of an ESP header is a payload, a padding, the length of the
padding and the type of the payload. It is built from left to right and taken
apart from right to left.
-/

namespace Tahi.Pz

open BitField RoundUp

namespace McESP_Decrypted

/-- The members `PadLength` and `NextHeader`. -/
def PadLength_ : MmUint := ⟨8, by decide, by decide⟩
def NextHeader_ : MmUint := ⟨8, by decide, by decide⟩

structure Trailer where
  nexttype : UInt32
  padlen : UInt32
  paylen : UInt32
deriving DecidableEq, Repr

/-- The first half of `Self_reverse`: the right adjusted members. -/
def trailer (selfdecrypted : PvOctets) : Except String Trailer :=
  let RA_at : ItPosition := ⟨selfdecrypted.length.toInt32, 0⟩
  match NextHeader_.rdecode RA_at selfdecrypted with
  | none =>
      let remain := RA_at.bytes
      .error s!"err: ESP NextHeader field decode over remain size({remain})"
  | some (nexttype, RA_at) =>
      match PadLength_.rdecode RA_at selfdecrypted with
      | none =>
          let remain := RA_at.bytes
          .error s!"err: ESP PadLength field decode over remain size({remain})"
      | some (padlen, RA_at) =>
          let PDsize : ItPosition := ⟨padlen.toInt32, 0⟩
          let remain := RA_at.bytes
          if RA_at.lt PDsize then
            .error s!"err: ESP Padding size({padlen}) over remain size({remain})"
          else .ok ⟨nexttype, padlen, (RA_at.subtract PDsize).bytes.toUInt32⟩

end McESP_Decrypted

namespace WmESP_Padding

/-- The length that `internalGeneratePrologue` gives the padding of a payload. -/
def length (sa : PaESP) (paylen : UInt32) : UInt32 := sa.Padding_Length (paylen + 2)

end WmESP_Padding

namespace McESP_Decrypted

/-- The plain text that is generated for a payload whose compound has the type
    `next`. `PadLength` and `NextHeader` are members of eight bits. -/
def plainText (sa : PaESP) (payload : List Octet) (next : Octet) : List Octet :=
  let padlen := WmESP_Padding.length sa (UInt32.ofNat payload.length)
  payload ++ sa.Padding_Octets padlen ++ [BitVec.ofNat 8 padlen.toNat, next]

/-! ## Taking the plain text apart -/

private theorem toNat_succ {v : UInt32} (small : v.toNat + 1 < 2 ^ 31) :
    (v + 1).toNat = v.toNat + 1 := by
  rw [UInt32.toNat_add]
  exact Nat.mod_eq_of_lt (by change v.toNat + 1 < 2 ^ 32; omega)

/-- An octet is decoded from the right. -/
private theorem rdecode_octet {m : MmUint} (width : m.width = 8) (src : PvOctets) {v : UInt32}
    (small : v.toNat + 1 < 2 ^ 31) :
    m.rdecode ⟨(v + 1).toInt32, 0⟩ src =
      some (UInt32.ofNat (src.cell v.toNat).toNat, ⟨v.toInt32, 0⟩) := by
  have size : (ItPosition.mk 0 8).bytes = 1 := by decide
  have before : (v + 1).toInt32 - 1 = v.toInt32 := by
    rw [UInt32.toInt32_add]
    exact Int32.add_sub_cancel _ _
  have moved : (ItPosition.mk (v + 1).toInt32 0).subtract ⟨0, 8⟩ = ⟨v.toInt32, 0⟩ := by
    rw [ItPosition.subtract_octets _ (by decide), size, before]
  have enough : (ItPosition.mk (v + 1).toInt32 0).lt ⟨0, 8⟩ = false := by
    rw [ItPosition.lt_octets (ItPosition.bits_mk _ _) (by decide), size,
      ItPosition.bytes_mk (by decide), decide_eq_false_iff_not]
    apply UInt32.not_lt.mpr
    rw [UInt32.le_iff_toNat_le]
    change 1 ≤ (v + 1).toNat
    rw [toNat_succ small]
    omega
  simp only [MmUint.rdecode, width, enough, moved,
    src.uintAt_octet (ItPosition.toBits_octets (by omega : v.toNat < 2 ^ 31))]
  rfl

/-- A plain text that ends in a padding length and a type, with at least as many
    octets before them as the padding length says. -/
theorem trailer_eq (src : PvOctets) {rest padlen : UInt32} (small : rest.toNat + 2 < 2 ^ 31)
    (length : src.length = rest + 2)
    (padding : UInt32.ofNat (src.cell rest.toNat).toNat = padlen) (fits : padlen ≤ rest) :
    trailer src = .ok ⟨UInt32.ofNat (src.cell (rest.toNat + 1 : Nat)).toNat, padlen,
      rest - padlen⟩ := by
  have next : (rest + 1).toNat = rest.toNat + 1 := toNat_succ (by omega)
  have two : rest + 2 = rest + 1 + 1 := (UInt32.add_assoc rest 1 1).symm
  have first := rdecode_octet (m := NextHeader_) rfl src (v := rest + 1) (by omega)
  have second := rdecode_octet (m := PadLength_) rfl src (v := rest) (by omega)
  have enough : (ItPosition.mk rest.toInt32 0).lt ⟨padlen.toInt32, 0⟩ = false := by
    rw [ItPosition.lt_octets (ItPosition.bits_mk _ _) (ItPosition.bits_mk _ _),
      ItPosition.bytes_mk (by decide), ItPosition.bytes_mk (by decide), decide_eq_false_iff_not]
    exact UInt32.not_lt.mpr fits
  have start : ((ItPosition.mk rest.toInt32 0).subtract ⟨padlen.toInt32, 0⟩).bytes.toUInt32 =
      rest - padlen := by
    rw [ItPosition.subtract_octets _ (ItPosition.bits_mk _ _), ItPosition.bytes_mk (by decide),
      ItPosition.bytes_mk (by decide), ← UInt32.toInt32_sub]
    rfl
  rw [next] at first
  rw [padding] at second
  simp only [trailer, length, two, first, second, enough, start]
  rfl

/-! ## Whether a security association composes -/

/-- What a plain text has to satisfy: it fills the alignments of the cipher and of
    the authenticator, the padding length fits its octet, and the decoder finds
    the three values the plain text was made of. -/
structure Composes (sa : PaESP) (cipher auth : UInt32) (payload : List Octet) (next : Octet) :
    Prop where
  cipherAligned : cipher.toNat ∣
    payload.length + (WmESP_Padding.length sa (UInt32.ofNat payload.length)).toNat + 2
  authAligned : auth.toNat ∣
    payload.length + (WmESP_Padding.length sa (UInt32.ofNat payload.length)).toNat + 2
  octet : (WmESP_Padding.length sa (UInt32.ofNat payload.length)).toNat ≤ 255
  recovered : trailer (PvOctets.ofList (plainText sa payload next)) =
    .ok ⟨UInt32.ofNat next.toNat, WmESP_Padding.length sa (UInt32.ofNat payload.length),
      UInt32.ofNat payload.length⟩

/-- The trailer of a generated plain text is read back whenever the padding
    length fits its octet. -/
theorem trailer_plainText {sa : PaESP} {payload : List Octet} (next : Octet)
    (small : payload.length + 257 < 2 ^ 31)
    (octet : (WmESP_Padding.length sa (UInt32.ofNat payload.length)).toNat ≤ 255) :
    trailer (PvOctets.ofList (plainText sa payload next)) =
      .ok ⟨UInt32.ofNat next.toNat, WmESP_Padding.length sa (UInt32.ofNat payload.length),
        UInt32.ofNat payload.length⟩ := by
  generalize padlen_eq : WmESP_Padding.length sa (UInt32.ofNat payload.length) = padlen at octet ⊢
  have paylen : (UInt32.ofNat payload.length).toNat = payload.length :=
    UInt32.toNat_ofNat_of_lt' (by rw [UInt32.size]; omega)
  have padOctets : (sa.Padding_Octets padlen).length = padlen.toNat := by
    rw [PaESP.Padding_Octets, List.length_map, List.length_range]
  have restLength : (payload ++ sa.Padding_Octets padlen).length =
      payload.length + padlen.toNat := by
    rw [List.length_append, padOctets]
  have rest : (UInt32.ofNat payload.length + padlen).toNat = payload.length + padlen.toNat := by
    rw [UInt32.toNat_add, paylen]
    exact Nat.mod_eq_of_lt (by omega)
  have text : plainText sa payload next =
      payload ++ sa.Padding_Octets padlen ++ [BitVec.ofNat 8 padlen.toNat, next] := by
    rw [plainText, padlen_eq]
  have size : (payload ++ sa.Padding_Octets padlen ++
      [BitVec.ofNat 8 padlen.toNat, next]).length = payload.length + padlen.toNat + 2 := by
    rw [List.length_append, restLength]
    rfl
  have length : (PvOctets.ofList (plainText sa payload next)).length =
      UInt32.ofNat payload.length + padlen + 2 := by
    apply UInt32.toNat_inj.mp
    rw [text, UInt32.toNat_add, rest, PvOctets.ofList, size]
    rfl
  have cell (i : Nat) : (PvOctets.ofList (plainText sa payload next)).cell (i : Int) =
      (payload ++ sa.Padding_Octets padlen ++ [BitVec.ofNat 8 padlen.toNat, next]).getD i 0 := by
    rw [text, PvOctets.ofList]
    simp
  have padCell : (PvOctets.ofList (plainText sa payload next)).cell
      ((UInt32.ofNat payload.length + padlen).toNat : Int) = BitVec.ofNat 8 padlen.toNat := by
    rw [cell, rest, ← restLength, List.getD_append_right _ _ _ _ (Nat.le_refl _), Nat.sub_self]
    rfl
  have typeCell : (PvOctets.ofList (plainText sa payload next)).cell
      (((UInt32.ofNat payload.length + padlen).toNat + 1 : Nat) : Int) = next := by
    rw [cell, rest, ← restLength, List.getD_append_right _ _ _ _ (Nat.le_succ _),
      Nat.succ_sub (Nat.le_refl _), Nat.sub_self]
    rfl
  have stored : UInt32.ofNat (BitVec.ofNat 8 padlen.toNat).toNat = padlen := by
    apply UInt32.toNat_inj.mp
    rw [BitVec.toNat_ofNat, Nat.mod_eq_of_lt (by omega), UInt32.ofNat_toNat]
  have read := trailer_eq (PvOctets.ofList (plainText sa payload next))
    (by omega) length
    (by rw [padCell, stored]) (by rw [UInt32.le_iff_toNat_le, rest]; omega)
  rw [typeCell, UInt32.add_sub_cancel] at read
  exact read

/-- The padding fills the plain text of any payload up to the combined alignment. -/
private theorem filled {c : PfCrypt} (ah : Option PfAuth) (pad : Nat → Octet) (paylen : Nat)
    (pos : 0 < c.alignment.toNat) (limited : c.alignment.toNat ≤ 256)
    (small : paylen + 257 < 2 ^ 31) :
    paylen + (WmESP_Padding.length ⟨some c, ah, pad⟩ (UInt32.ofNat paylen)).toNat + 2 =
      roundUp (paylen + 2) (c.combinedAlignment ah).toNat ∧
    0 < (c.combinedAlignment ah).toNat := by
  obtain ⟨authPos, authOctet⟩ := PfCrypt.authAlignment_bounds ah
  have combined := PfCrypt.combinedAlignment_toNat ah limited
  have lower := le_roundUp c.alignment.toNat authPos
  have upper := roundUp_lt c.alignment.toNat authPos
  have len : (UInt32.ofNat paylen + 2).toNat = paylen + 2 := by
    rw [UInt32.toNat_add, UInt32.toNat_ofNat_of_lt' (by rw [UInt32.size]; omega)]
    exact Nat.mod_eq_of_lt (by change paylen + 2 < 2 ^ 32; omega)
  have spec := PfCrypt.Padding_Length_spec c ah (UInt32.ofNat paylen + 2) (by omega) (by omega)
  rw [len] at spec
  refine ⟨?_, by omega⟩
  rw [← spec]
  change _ + (c.Padding_Length (UInt32.ofNat paylen + 2) ah).toNat + 2 = _
  omega

/-- Every payload composes exactly when the alignment of the cipher is at most
    256 octets and one of the two alignments divides the other. -/
theorem composes_iff (c : PfCrypt) (ah : Option PfAuth) (pad : Nat → Octet) :
    (∀ (payload : List Octet) (next : Octet), payload.length + 257 < 2 ^ 31 →
      Composes ⟨some c, ah, pad⟩ c.alignment (PfCrypt.authAlignment ah) payload next) ↔
    0 < c.alignment.toNat ∧ c.alignment.toNat ≤ 256 ∧
      (c.alignment.toNat ∣ (PfCrypt.authAlignment ah).toNat ∨
        (PfCrypt.authAlignment ah).toNat ∣ c.alignment.toNat) := by
  obtain ⟨authPos, authOctet⟩ := PfCrypt.authAlignment_bounds ah
  constructor
  · intro composes
    have empty := composes [] 0 (by decide)
    have long := composes (List.replicate 256 0) 0 (by rw [List.length_replicate]; decide)
    have emptyAligned := empty.cipherAligned
    have emptyOctet := empty.octet
    have longAligned := long.cipherAligned
    have longOctet := long.octet
    rw [List.length_nil] at emptyAligned emptyOctet
    rw [List.length_replicate] at longAligned longOctet
    have pos : 0 < c.alignment.toNat := Nat.pos_of_dvd_of_pos emptyAligned (by omega)
    have small := Nat.le_of_dvd (by omega) emptyAligned
    have limited : c.alignment.toNat ≤ 256 := by
      by_contra excessive
      have exactly : c.alignment.toNat = 257 := by omega
      rw [exactly] at longAligned
      omega
    obtain ⟨total, positive⟩ := filled ah pad 0 pos limited (by decide)
    have combined := PfCrypt.combinedAlignment_toNat ah limited
    refine ⟨pos, limited, (dvd_roundUp_iff pos authPos).mp ?_⟩
    rw [← combined]
    by_cases one : (c.combinedAlignment ah).toNat = 1
    · have lower := le_roundUp c.alignment.toNat authPos
      have unit : c.alignment.toNat = 1 := by omega
      rw [unit]
      exact Nat.one_dvd _
    · rw [total, roundUp_of_le (by omega) (by omega)] at emptyAligned
      exact emptyAligned
  · rintro ⟨pos, limited, nested⟩ payload next small
    obtain ⟨total, positive⟩ := filled ah pad payload.length pos limited small
    have combined := PfCrypt.combinedAlignment_toNat ah limited
    have greater := roundUp_eq_max pos authPos nested
    have upper := roundUp_lt (payload.length + 2) positive
    have octet : (WmESP_Padding.length ⟨some c, ah, pad⟩
        (UInt32.ofNat payload.length)).toNat ≤ 255 := by omega
    have multiple := dvd_roundUp (payload.length + 2) (c.combinedAlignment ah).toNat
    rw [← total] at multiple
    refine ⟨?_, ?_, octet, trailer_plainText next small octet⟩
    · apply Nat.dvd_trans _ multiple
      rw [combined]
      exact (dvd_roundUp_iff pos authPos).mpr nested
    · apply Nat.dvd_trans _ multiple
      rw [combined]
      exact dvd_roundUp _ _

/-- An empty payload under `null_crypt(6)` and a HMAC, whose unit is 4, is filled
    up to 8 octets. -/
theorem not_composes_nullCrypt :
    (PfCrypt.mk MfCrypt.null_crypt [some 6]).alignment = 6 ∧
    PfCrypt.authAlignment (some ⟨MfAuth.hmacsha1⟩) = 4 ∧
    ¬Composes ⟨some ⟨MfCrypt.null_crypt, [some 6]⟩, some ⟨MfAuth.hmacsha1⟩,
      fun i => BitVec.ofNat 8 (i + 1)⟩ 6 4 [] 59 := by
  refine ⟨by decide, by decide, fun composes => ?_⟩
  have aligned := composes.cipherAligned
  revert aligned
  decide

end McESP_Decrypted

end Tahi.Pz

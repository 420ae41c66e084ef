import Tahi.Pz.EspTrailer
import Tahi.Pz.MmHeader

/-! # The ESP header

The header takes what is left of its buffer. Behind the sequence number stand the
encrypted octets and the integrity check value, whose lengths come from the
security association. The plain text is decoded as a compound of its own.
-/

namespace Tahi.Pz

open MObject

namespace MmSPI

def reverse (m : MmUint) (string : String) : Reverse := fun c at_ buf =>
  match m.reverse string none c at_ buf with
  | .error h => .error h
  | .ok r =>
      match r.rc with
      | none => .ok r
      | some r_self => .ok { r with c := { r.c with SPI := r_self.pvalue.value.toUInt32 } }

end MmSPI

namespace MmAlgorithm_onESP

/-- Selects the security association. Nothing is decoded. -/
def reverse : Reverse := fun c at_ _ =>
  let c := c.set_pop_SA
  match c.poping_SA with
  | none => .ok ⟨c, at_, none, []⟩
  | some _ =>
      let r_self : Decoded := .mk "algorithm" at_ ⟨0, 0⟩ .name []
      .ok ⟨c, at_, some r_self, [r_self]⟩

end MmAlgorithm_onESP

namespace McESP_Payload

/-- The members of the payload are the headers and the upper layer. -/
def compound (payload : List Member) : McObject where
  string := "ESPPayload"
  length_for_reverse c _ _ := c.ESPinfo.payloadlen
  members_ := payload

end McESP_Payload

namespace MmESP_Padding

def length_for_reverse (c : RControl) (_ : ItPosition) (_ : PvOctets) : ItPosition :=
  ⟨c.ESPinfo.padlen.toInt32, 0⟩

def reverse : Reverse :=
  MmElement.reverseWith length_for_reverse MmVarOctets.reversePv (MmElement.leaf "Padding") none

end MmESP_Padding

namespace McESP_Decrypted

def members_ (payload : List Member) : List Member :=
  [{ reverse := (McESP_Payload.compound payload).reverse }, { reverse := MmESP_Padding.reverse },
    PadLength_.member "PadLength", NextHeader_.member "NextHeader"]

def Self_reverse (payload : List Member) (c : RControl) (selfdecrypted : PvOctets) :
    Except Halt (RControl × Option Decoded) :=
  match trailer selfdecrypted with
  | .error _ => .ok (c.setError 1, none)
  | .ok t =>
      let c := { c with DictType := .effect t.nexttype.toInt32, ESPinfo := ⟨t.padlen, t.paylen⟩ }
      match McObject.members_reverse McNeedless.reverse (members_ payload) c ⟨0, 0⟩
          selfdecrypted with
      | .error h => .error h
      | .ok (c, children) =>
          .ok (c, some (.mk "Decrypted" ⟨0, 0⟩ ⟨selfdecrypted.length.toInt32, 0⟩
            (.octets selfdecrypted) children))

end McESP_Decrypted

namespace MmESP_IVEC

def Self_reverse (selfivec : PvOctets) : Decoded :=
  .mk "IVEC" ⟨0, 0⟩ ⟨selfivec.length.toInt32, 0⟩ (.octets selfivec) []

end MmESP_IVEC

namespace MmESP_Crypted

/-- The length of the octets between the position and the integrity check value, a
    difference of unsigned words. -/
def length_for_reverse (c : RControl) (at_ : ItPosition) (buf : PvOctets) : ItPosition :=
  let length := (buf.remainLength at_.bytes.toUInt32).toUInt32
  let length := match c.poping_SA with
    | some sa => length - sa.ICV_Length
    | none => length
  ⟨length.toInt32, 0⟩

/-- `rDecrypted_` and `rIVEC_` are the children of the object. -/
def reverseRm (payload : List Member) (c : RControl) (at_ size : ItPosition) (pv : PvObject) :
    Except Halt (RControl × Decoded) :=
  let r_self (children : List Decoded) : Decoded := .mk "Crypted" at_ size pv children
  match c.poping_SA, pv with
  | some sa, .octets cryptedbuf =>
      if cryptedbuf.length == 0 then .ok (c, r_self [])
      else
        match sa.Decrypted_Octets cryptedbuf with
        | (none, _) => .ok (c.setError 1, r_self [])
        | (some decryptedbuf, ivecbuf) =>
            match McESP_Decrypted.Self_reverse payload c decryptedbuf with
            | .error h => .error h
            | .ok (c, rDecrypted) =>
                .ok (c, r_self (rDecrypted.toList ++ (ivecbuf.map MmESP_IVEC.Self_reverse).toList))
  | _, _ => .ok (c, r_self [])

def reverse (payload : List Member) : Reverse :=
  MmElement.reverseWith length_for_reverse MmVarOctets.reversePv (reverseRm payload) none

end MmESP_Crypted

namespace MmESP_ICV

def length_for_reverse (c : RControl) (_ : ItPosition) (_ : PvOctets) : ItPosition :=
  match c.poping_SA with
  | some sa => ⟨sa.ICV_Length.toInt32, 0⟩
  | none => ⟨0, 0⟩

/-- `compareObject` finds no difference. -/
def sameOctets (a b : PvOctets) : Bool :=
  a.length == b.length && (List.range a.length.toNat).all fun i : Nat => a.cell i == b.cell i

/-- Compares the value with the one that is calculated over the octets before it. -/
def post_reverse (ICV_Calculate : PaObject → PvOctets → Option PvOctets) (c : RControl)
    (espbuf : PvOctets) (r_self : Decoded) : RControl :=
  let ahbuf : PvOctets := ⟨r_self.offset.bytes.toUInt32, espbuf.cell⟩
  let calculated := (c.poping_SA.bind fun sa => ICV_Calculate sa ahbuf).getD ⟨0, espbuf.cell⟩
  match r_self.pvalue with
  | .octets rcv => if sameOctets calculated rcv then c else c.setWarning 0
  | _ => c

def reverse (ICV_Calculate : PaObject → PvOctets → Option PvOctets) : Reverse := fun c at_ buf =>
  match MmElement.reverseWith length_for_reverse MmVarOctets.reversePv (MmElement.leaf "ICV") none
      c at_ buf with
  | .error h => .error h
  | .ok r =>
      match r.rc with
      | none => .ok r
      | some r_self =>
          if r.c.error then .ok r
          else .ok { r with c := post_reverse ICV_Calculate r.c buf r_self }

end MmESP_ICV

namespace McHdr_Ext_ESP

def SPI_ : MmUint := ⟨32, by decide, by decide⟩
def SequenceNumber_ : MmUint := ⟨32, by decide, by decide⟩

section

/- The members of the payload, and the authenticators, which belong to a library. -/
variable (payload : List Member) (ICV_Calculate : PaObject → PvOctets → Option PvOctets)

/-- The members before `Crypted`. -/
def opening : List Member :=
  [{ reverse := MmSPI.reverse SPI_ "SPI" }, SequenceNumber_.member "SequenceNumber",
    { reverse := MmAlgorithm_onESP.reverse }]

def compound : McObject where
  string := "Hdr_ESP"
  alignment_requirement := 0
  length_for_reverse _ at_ buf := (buf.remainLength at_.bytes.toUInt32).toUInt32
  members_ := opening ++ [{ reverse := MmESP_Crypted.reverse payload },
    { reverse := MmESP_ICV.reverse ICV_Calculate }]

/-- The security association and the lengths of the plain text are those of the header
    only. -/
def reverse : Reverse := fun c at_ buf =>
  let keepSA := c.poping_SA
  let keep := c.ESPinfo
  match McHeader.reverse none (compound payload ICV_Calculate)
      { c with poping_SA := none, ESPinfo := {} } at_ buf with
  | .error h => .error h
  | .ok r =>
      .ok { r with c := { r.c with ESPinfo := keep, poping_SA := keepSA, DictType := .finish } }

end

end McHdr_Ext_ESP

end Tahi.Pz

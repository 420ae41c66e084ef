import Tahi.Pz.McESP
import Tahi.Pz.McOption

/-! # Extension headers

`MmExtent_onIP` decodes a sequence of extension headers: each says by its next header
field which one follows. An ESP header may hold another sequence in its plain text.
-/

namespace Tahi.Pz

open McOption

namespace McHdr_Ext

/-- `DEF_LENGTH_ELEM_Ext` and `DEF_LENGTH_OFFSET_Ext`: the first eight octets are not
    counted. -/
def length_for_reverse (_ : RControl) (at_ : ItPosition) (buf : PvOctets) : UInt32 :=
  let valulen := lengthValue at_ buf
  valulen * 8 + 8

/-- A header with a length member. -/
def header (string : String) (members : List Member) : McObject :=
  ⟨string, 8, length_for_reverse,
    [octet.member "NextHeader", octet.member "HeaderExtLength"] ++ members⟩

end McHdr_Ext

open McHdr_Ext

namespace McHdr_Ext_HopByHop

def reverse (fuel : Nat) : Reverse :=
  McHeader.reverse (some "NextHeader")
    (header "Hdr_HopByHop" [{ reverse := MmOption_onExt.reverse fuel }])

end McHdr_Ext_HopByHop

namespace McHdr_Ext_Destination

def reverse (fuel : Nat) : Reverse :=
  McHeader.reverse (some "NextHeader")
    (header "Hdr_Destination" [{ reverse := MmOption_onExt.reverse fuel }])

end McHdr_Ext_Destination

namespace McHdr_Ext_Routing

/-- `HC_MLC(Address)`: an address has two of the units that the length counts. -/
def HC_MLC (at_ : ItPosition) (buf : PvOctets) : UInt32 :=
  let length := lengthValue at_ buf
  length / 2

def SegmentsLeft_ForIPinfo (info : Con_IPinfo) (tmem : Decoded) (_ : PvOctets) : Con_IPinfo :=
  ForIPinfo_SegmentsLeft info tmem.pvalue.value.toUInt32

def Address_ForIPinfo (info : Con_IPinfo) (tmem : Decoded) (_ : PvOctets) : Con_IPinfo :=
  match tmem.pvalue.address with
  | some pv => ForIPinfo_Address info pv
  | none => info

def compound : McObject :=
  header "Hdr_Routing" [MmUint.create "RoutingType" 8,
    MmUint.create "SegmentsLeft" 8 (some SegmentsLeft_ForIPinfo), MmUint.create "Reserved" 32,
    MmMultiple.member (MmOctets.create "Address" 16 (some Address_ForIPinfo)) HC_MLC]

def reverse : Reverse := McHeader.reverse (some "NextHeader") compound

end McHdr_Ext_Routing

namespace McHdr_Ext_Fragment

/-- The header has no length member. -/
def compound : McObject :=
  { fixed "Hdr_Fragment" [MmUint.create "NextHeader" 8, MmUint.create "Reserved1" 8,
      MmUint.create "FragmentOffset" 13, MmUint.create "Reserved2" 2, MmUint.create "MFlag" 1,
      MmUint.create "Identification" 32] with alignment_requirement := 8 }

/-- What follows a fragment header is not decoded further. -/
def reverse : Reverse := fun c at_ buf =>
  match McHeader.reverse (some "NextHeader") compound c at_ buf with
  | .error h => .error h
  | .ok r => .ok { r with c := r.c.setDictType .other }

end McHdr_Ext_Fragment

namespace MmAH_ICV

/-- `V` is a debugging flag: without a security association the rest of the header is
    taken for the integrity check value. -/
def length_for_reverse (V : Bool) (c : RControl) (at_ : ItPosition) (buf : PvOctets) :
    ItPosition :=
  let length := if V then (buf.remainLength at_.bytes.toUInt32).toUInt32 else 0
  let length := match c.poping_SA with
    | some sa => sa.ICV_Length
    | none => length
  ⟨length.toInt32, 0⟩

def reverse (V : Bool) : Reverse :=
  MmElement.reverseWith (length_for_reverse V) MmVarOctets.reversePv (MmElement.leaf "ICV") none

end MmAH_ICV

namespace McHdr_Ext_AH

/-- `DEF_LENGTH_ELEM_AH` and `DEF_LENGTH_OFFSET_AH` -/
def length_for_reverse (_ : RControl) (at_ : ItPosition) (buf : PvOctets) : UInt32 :=
  let valulen := lengthValue at_ buf
  valulen * 4 + 8

/-- The alignment depends on the IP header in front, which leaves it behind. -/
def compound (V : Bool) (provisional_AH_alignment_v4_v6_ : UInt32) : McObject :=
  ⟨"Hdr_AH",
    if provisional_AH_alignment_v4_v6_ = 0 then 8 else provisional_AH_alignment_v4_v6_,
    length_for_reverse,
    [octet.member "NextHeader", octet.member "PayloadLength", MmUint.create "Reserved" 16,
      { reverse := MmSPI.reverse McHdr_Ext_ESP.SPI_ "SPI" }, MmUint.create "SequenceNumber" 32,
      { reverse := MmAlgorithm_onESP.reverse }, { reverse := MmAH_ICV.reverse V },
      MmData.member "Padding" true]⟩

def reverse (V : Bool) (provisional_AH_alignment_v4_v6_ : UInt32) : Reverse := fun c at_ buf =>
  let keepSA := c.poping_SA
  match McHeader.reverse (some "NextHeader") (compound V provisional_AH_alignment_v4_v6_)
      { c with poping_SA := none } at_ buf with
  | .error h => .error h
  | .ok r => .ok { r with c := { r.c with poping_SA := keepSA } }

end McHdr_Ext_AH

/-! ## Mobility headers -/

namespace McHdr_Ext_MH

/-- `DEF_LENGTH_ELEM_MH` and `DEF_LENGTH_OFFSET_MH` -/
def length_for_reverse (_ : RControl) (at_ : ItPosition) (buf : PvOctets) : UInt32 :=
  let valulen := lengthValue at_ buf
  valulen * 8 + 8

def common_member : List Member :=
  [octet.member "NextHeader", octet.member "HeaderExtLength", octet.member "Type",
    MmUint.create "Reserved1" 8, MmUint.create "Checksum" 16]

def header (string : String) (members : List Member) : Reverse :=
  McHeader.reverse (some "NextHeader")
    ⟨string, 8, length_for_reverse, common_member ++ members⟩

def ANY : Reverse := header "Hdr_MH_ANY" [MmData.member "data"]

/-- The header is decoded as `ANY`, for its type. -/
def overwrite_DictType : Overwrite := fun c at_ buf =>
  let limit := (buf.remainLength at_.bytes.toUInt32).toUInt32
  if limit == 0 then .ok (false, c)
  else
    let tmpat := at_.copy
    match ANY c tmpat buf with
    | .error h => .error h
    | .ok r =>
        match r.rc with
        | none => .ok (false, r.c)
        | some r_self =>
            match r_self.corresponding "Type" with
            | none => .ok (false, r.c)
            | some rtype => .ok (true, r.c.setDictType (.effect rtype.pvalue.value))

section

/- The fuel of the loop over the options. -/
variable (fuel : Nat)

def BRR : Reverse :=
  header "Hdr_MH_BRR" [MmUint.create "Reserved2" 16, MmOption_onMH.member fuel]

def HoTI : Reverse :=
  header "Hdr_MH_HoTI" [MmUint.create "Reserved2" 16, MmOctets.create "InitCookie" 8,
    MmOption_onMH.member fuel]

def CoTI : Reverse :=
  header "Hdr_MH_CoTI" [MmUint.create "Reserved2" 16, MmOctets.create "InitCookie" 8,
    MmOption_onMH.member fuel]

def HoT : Reverse :=
  header "Hdr_MH_HoT" [MmUint.create "Index" 16, MmOctets.create "InitCookie" 8,
    MmOctets.create "KeygenToken" 8, MmOption_onMH.member fuel]

def CoT : Reverse :=
  header "Hdr_MH_CoT" [MmUint.create "Index" 16, MmOctets.create "InitCookie" 8,
    MmOctets.create "KeygenToken" 8, MmOption_onMH.member fuel]

def BU : Reverse :=
  header "Hdr_MH_BU" [MmUint.create "SequenceNumber" 16, MmUint.create "AFlag" 1,
    MmUint.create "HFlag" 1, MmUint.create "LFlag" 1, MmUint.create "KFlag" 1,
    MmUint.create "MFlag" 1, MmUint.create "RFlag" 1, MmUint.create "Reserved2" 10,
    MmUint.create "Lifetime" 16, MmOption_onMH.member fuel]

def BA : Reverse :=
  header "Hdr_MH_BA" [MmUint.create "Status" 8, MmUint.create "KFlag" 1, MmUint.create "RFlag" 1,
    MmUint.create "Reserved2" 6, MmUint.create "SequenceNumber" 16, MmUint.create "Lifetime" 16,
    MmOption_onMH.member fuel]

def BE : Reverse :=
  header "Hdr_MH_BE" [MmUint.create "Status" 8, MmUint.create "Reserved2" 8,
    MmOctets.create "Address" 16, MmOption_onMH.member fuel]

end

end McHdr_Ext_MH

namespace MmHeader_onMH

open McHdr_Ext_MH

def dict_ (fuel : Nat) : TypevsMcDict where
  list_ := [(0, BRR fuel), (1, HoTI fuel), (2, CoTI fuel), (3, HoT fuel), (4, CoT fuel),
    (5, BU fuel), (6, BA fuel), (7, BE fuel)]
  other_ := some ANY

end MmHeader_onMH

namespace McHdr_Ext_MH_ONE

/-- All mobility headers have one next header value. -/
def reverse (fuel : Nat) : Reverse :=
  MmReference_Must1.reverse false McHdr_Ext_MH.overwrite_DictType (MmHeader_onMH.dict_ fuel)

end McHdr_Ext_MH_ONE

/-! ## The sequence of headers -/

/-- What the headers need from outside: the upper layer in an ESP payload, the
    authenticators, the debugging flag and the alignment of AH headers. -/
structure ExtentContext where
  upper : Member
  ICV_Calculate : PaObject → PvOctets → Option PvOctets
  V : Bool
  provisional_AH_alignment_v4_v6_ : UInt32

namespace MmExtent_onIP

/-- `payload` are the members of an ESP payload. -/
def dict_ (k : ExtentContext) (payload : List Member) (fuel : Nat) : TypevsMcDict where
  list_ := [(0, McHdr_Ext_HopByHop.reverse fuel), (60, McHdr_Ext_Destination.reverse fuel),
    (43, McHdr_Ext_Routing.reverse), (44, McHdr_Ext_Fragment.reverse),
    (51, McHdr_Ext_AH.reverse k.V k.provisional_AH_alignment_v4_v6_),
    (50, McHdr_Ext_ESP.reverse payload k.ICV_Calculate), (135, McHdr_Ext_MH_ONE.reverse fuel)]
  other_ := none

/-- The sequence, given up below `depth` ESP headers. -/
def reverse (k : ExtentContext) (fuel : Nat) : (depth : Nat) → Reverse
  | 0 => fun _ _ _ => .error .unfinished
  | depth + 1 =>
      MmReference_More0.reverse false .none_
        (dict_ k [{ reverse := reverse k fuel depth }, k.upper] fuel) fuel

/-- The members of the payload of an ESP header with `depth` more of them below. -/
def payload (k : ExtentContext) (fuel depth : Nat) : List Member :=
  [{ reverse := reverse k fuel depth }, k.upper]

end MmExtent_onIP

end Tahi.Pz

import Tahi.Pz.MmHeader

/-! # Options

The options of IPv6 extension headers, of ICMPv6 messages, of IPv4 and TCP headers and
of mobility headers begin with a type. All but the shortest have an octet for their
length next, which each family counts in its own way. An option of a type that the
dictionary does not have is decoded as the option `ANY`.
-/

namespace Tahi.Pz

/-! ## Members -/

namespace MmUint

/-- A width between one bit and a word. -/
def isWidth (width : UInt16) : Bool := Nat.blt 0 width.toNat && Nat.ble width.toNat 32

theorem pos_of_isWidth {width : UInt16} (fits : isWidth width = true) : 0 < width.toNat :=
  Nat.blt_eq.mp (Bool.and_eq_true_iff.mp fits).1

theorem fits_of_isWidth {width : UInt16} (fits : isWidth width = true) : width.toNat ≤ 32 :=
  Nat.ble_eq.mp (Bool.and_eq_true_iff.mp fits).2

/-- A numeric member of the given width. -/
@[simp] def create (string : String) (width : UInt16)
    (ForIPinfo : Option (Con_IPinfo → Decoded → PvOctets → Con_IPinfo) := none)
    (fits : isWidth width = true := by exact Eq.refl true) : Member :=
  member ⟨width, pos_of_isWidth fits, fits_of_isWidth fits⟩ string ForIPinfo

end MmUint

namespace MmOctets

/-- A length that a position can count. -/
def isCountable (length : UInt32) : Bool := Nat.blt length.toNat (2 ^ 31)

theorem lt_of_isCountable {length : UInt32} (countable : isCountable length = true) :
    length.toNat < 2 ^ 31 := Nat.blt_eq.mp countable

/-- A member of the given number of octets. -/
@[simp] def create (string : String) (length : UInt32)
    (ForIPinfo : Option (Con_IPinfo → Decoded → PvOctets → Con_IPinfo) := none)
    (countable : isCountable length = true := by exact Eq.refl true) : Member :=
  member ⟨length, lt_of_isCountable countable⟩ string ForIPinfo

end MmOctets

/-- The octets of a decoded address. -/
def PvObject.address : PvObject → Option PvOctets
  | .octets o => some o
  | _ => none

namespace MmMultiple

/-- The loop of `MmMultiple::reverse`. An error does not end it. -/
def loop (body : Reverse) : Nat → Option Decoded → Reverse
  | 0, r, c, at_, _ => .ok ⟨c, at_, r, []⟩
  | cou + 1, _, c, at_, buf =>
      match body c at_ buf with
      | .error h => .error h
      | .ok r =>
          match loop body cou r.rc r.c r.at_ buf with
          | .error h => .error h
          | .ok s => .ok { s with made := r.made ++ s.made }

/-- The number of members is computed from the octets of the compound. -/
def member (body : Member) (HC_MLC : ItPosition → PvOctets → UInt32) : Member :=
  ⟨id, fun c at_ buf => loop body.reverse (HC_MLC ⟨0, 0⟩ buf).toNat none c at_ buf⟩

end MmMultiple

namespace McPayload

def compound : McObject where
  string := "Payload"
  length_for_reverse _ at_ buf := (buf.remainLength at_.bytes.toUInt32).toUInt32
  members_ := [MmData.member "data"]

end McPayload

namespace MmPayload

/-- The dictionary has the payload only, as the other compound. -/
def member : Member :=
  ⟨id, MmReference_Must1.reverse true (fun c _ _ => .ok (true, c.setDictType .other))
    ⟨[], some McPayload.compound.reverse⟩⟩

end MmPayload

namespace McOption

/-- The type and the length of an option are octets. -/
def octet : MmUint := ⟨8, MmUint.octet_pos, MmUint.octet_fits⟩

/-- The value of the length member, which is the second octet. -/
def lengthValue (at_ : ItPosition) (buf : PvOctets) : UInt32 :=
  octet.value (octet.stepPostion ⟨0, 0⟩) at_ buf

/-- `overwrite_DictType`: the type of the option at the position is looked at, unless
    nothing is left. -/
def overwrite_DictType (type_ : String) : Overwrite := fun c at_ buf =>
  let limit := (buf.remainLength at_.bytes.toUInt32).toUInt32
  if limit == 0 then .ok (false, c)
  else
    let tmpat := at_.copy
    match octet.reverse type_ none c tmpat buf with
    | .error h => .error h
    | .ok r =>
        match r.rc with
        | none => .ok (false, r.c)
        | some rtype => .ok (true, r.c.setDictType (.effect rtype.pvalue.value))

/-- `overwrite_DictType` of the lists that an option ends. -/
def overwrite_DictType_onList (type_ : String) : Overwrite := fun c at_ buf =>
  if c.DictType = .finish then .ok (false, c) else overwrite_DictType type_ c at_ buf

/-- An option without a length member has the size of its members. -/
def fixed (string : String) (members_ : List Member) : McObject where
  string := string
  length_for_reverse _ _ _ := (McObject.size_ members_).bytes.toUInt32
  members_ := members_

/-- No option follows the end of the list. -/
def endofOptionList (string type_ : String) : Reverse := fun c at_ buf =>
  match (fixed string [octet.member type_]).reverse c at_ buf with
  | .error h => .error h
  | .ok r => .ok { r with c := r.c.setDictType .finish }

end McOption

open McOption

/-! ## Options of IPv6 extension headers -/

namespace McOpt_Ext

/-- `DEF_LENGTH_OFFSET_OptExt` -/
def length_for_reverse (_ : RControl) (at_ : ItPosition) (buf : PvOctets) : UInt32 :=
  let valulen := lengthValue at_ buf
  valulen + 2

def common_member : List Member :=
  [octet.member "OptionType", octet.member "OptDataLength"]

/-- An option with the common members. -/
def option (string : String) (members : List Member) (alignment_requirement : UInt32 := 0) :
    McObject :=
  ⟨string, alignment_requirement, length_for_reverse, common_member ++ members⟩

def ANY : McObject := option "Opt_ANY" [MmData.member "data"]
def Pad1 : McObject := fixed "Opt_Pad1" [octet.member "OptionType"]
def PadN : McObject := option "Opt_PadN" [MmData.member "pad" true]
def JumboPayload : McObject :=
  option "Opt_JumboPayload" [MmUint.create "JumboPayloadLength" 32] 4
def RouterAlert : McObject := option "Opt_RouterAlert" [MmUint.create "Value" 16] 2
def TunnelEncap : McObject := option "Opt_TunnelEncapslation" [MmUint.create "Limit" 8] 2

/-- `HC_ForIPinfo(HomeAddress)` -/
def HomeAddress_ForIPinfo (info : Con_IPinfo) (tmem : Decoded) (_ : PvOctets) : Con_IPinfo :=
  { info with SrcAddr := tmem.pvalue.address }

def HomeAddress : McObject :=
  option "Opt_HomeAddress" [MmOctets.create "HomeAddress" 16 (some HomeAddress_ForIPinfo)]

end McOpt_Ext

namespace MmOption_onExt

open McOpt_Ext

def dict_ : TypevsMcDict where
  list_ := [(0, Pad1.reverse), (1, PadN.reverse), (0x04, TunnelEncap.reverse),
    (0x05, RouterAlert.reverse), (0xc2, JumboPayload.reverse), (0xc9, HomeAddress.reverse)]
  other_ := some ANY.reverse

def overwrite_DictType : Overwrite := McOption.overwrite_DictType "OptionType"

def reverse (fuel : Nat) : Reverse :=
  MmReference_More0.reverse true overwrite_DictType dict_ fuel

end MmOption_onExt

/-! ## Options of ICMPv6 messages -/

namespace McOpt_ICMPv6

/-- The length counts units of eight octets. -/
def length_for_reverse (_ : RControl) (at_ : ItPosition) (buf : PvOctets) : UInt32 :=
  let valulen := lengthValue at_ buf
  valulen * 8

def common_member : List Member := [octet.member "Type", octet.member "Length"]

def option (string : String) (members : List Member) : McObject :=
  ⟨string, 0, length_for_reverse, common_member ++ members⟩

def ANY : McObject := option "Opt_ICMPv6_ANY" [MmData.member "data"]
def SLL : McObject := option "Opt_ICMPv6_SLL" [MmOctets.create "LinkLayerAddress" 6]
def TLL : McObject := option "Opt_ICMPv6_TLL" [MmOctets.create "LinkLayerAddress" 6]

def Prefix : McObject :=
  option "Opt_ICMPv6_Prefix" [MmUint.create "PrefixLength" 8, MmUint.create "LFlag" 1,
    MmUint.create "AFlag" 1, MmUint.create "RFlag" 1, MmUint.create "Reserved1" 5,
    MmUint.create "ValidLifetime" 32, MmUint.create "PreferredLifetime" 32,
    MmUint.create "Reserved2" 32, MmOctets.create "Prefix" 16]

def Redirected : McObject :=
  option "Opt_ICMPv6_Redirected" [MmUint.create "Reserved1" 16, MmUint.create "Reserved2" 32,
    MmPayload.member]

def MTU : McObject :=
  option "Opt_ICMPv6_MTU" [MmUint.create "Reserved" 16, MmUint.create "MTU" 32]

def AdvInterval : McObject :=
  option "Opt_ICMPv6_AdvInterval" [MmUint.create "Reserved" 16, MmUint.create "Interval" 32]

def HomeAgentInfo : McObject :=
  option "Opt_ICMPv6_HomeAgentInfo" [MmUint.create "RFlag" 1, MmUint.create "Reserved" 15,
    MmUint.create "Preference" 16, MmUint.create "Lifetime" 16]

def RouteInfo : McObject :=
  option "Opt_ICMPv6_RouteInfo" [MmUint.create "PrefixLength" 8, MmUint.create "Reserved1" 3,
    MmUint.create "Preference" 2, MmUint.create "Reserved2" 3, MmUint.create "RouteLifetime" 32,
    MmOctets.create "Prefix" 16]

end McOpt_ICMPv6

namespace MmOption_onICMPv6

open McOpt_ICMPv6

def dict_ : TypevsMcDict where
  list_ := [(1, SLL.reverse), (2, TLL.reverse), (3, Prefix.reverse), (4, Redirected.reverse),
    (5, MTU.reverse), (7, AdvInterval.reverse), (8, HomeAgentInfo.reverse),
    (200, RouteInfo.reverse)]
  other_ := some ANY.reverse

def overwrite_DictType : Overwrite := McOption.overwrite_DictType "Type"

def reverse (fuel : Nat) : Reverse :=
  MmReference_More0.reverse true overwrite_DictType dict_ fuel

end MmOption_onICMPv6

/-! ## Options of IPv4 headers -/

namespace McOpt_IPv4

/-- The length counts the type and itself. -/
def length_for_reverse (_ : RControl) (at_ : ItPosition) (buf : PvOctets) : UInt32 :=
  let valulen := lengthValue at_ buf
  valulen

def common_member : List Member := [octet.member "Type", octet.member "Length"]

def option (string : String) (members : List Member) (alignment_requirement : UInt32 := 0) :
    McObject :=
  ⟨string, alignment_requirement, length_for_reverse, common_member ++ members⟩

def ANY : McObject := option "Opt_IPv4_ANY" [MmData.member "data"]
def EndofOptionList : Reverse := endofOptionList "Opt_IPv4_EndofOptionList" "Type"
def NoOperation : McObject := fixed "Opt_IPv4_NoOperation" [octet.member "Type"]

/-- `HC_MLC` of a source route, of the recorded route and, with four octets before the
    first member, of the timestamps: the members that the length has room for. -/
def HC_MLC (before : UInt32) (at_ : ItPosition) (buf : PvOctets) : UInt32 :=
  let length := lengthValue at_ buf
  (length - before) / 4

/-- `HC_ForIPinfo(Pointer)` of a source route. -/
def Pointer_ForIPinfo (info : Con_IPinfo) (tmem : Decoded) (optbuf : PvOctets) : Con_IPinfo :=
  { info with Route_isLeft := decide (tmem.pvalue.value.toUInt32 ≤ optbuf.length) }

/-- `HC_ForIPinfo(RouteData)` of a source route. -/
def RouteData_ForIPinfo (info : Con_IPinfo) (tmem : Decoded) (_ : PvOctets) : Con_IPinfo :=
  if info.Route_isLeft then { info with LastDstAddr := tmem.pvalue.address } else info

def SourceRoute (string : String) : McObject :=
  option string [MmUint.create "Pointer" 8 (some Pointer_ForIPinfo),
    MmMultiple.member (MmOctets.create "RouteData" 4 (some RouteData_ForIPinfo)) (HC_MLC 3)] 4

def LooseSourceRoute : McObject := SourceRoute "Opt_IPv4_LooseSourceRoute"
def StrictSourceRoute : McObject := SourceRoute "Opt_IPv4_StrictSourceRoute"

def RecordRoute : McObject :=
  option "Opt_IPv4_RecordRoute" [MmUint.create "Pointer" 8,
    MmMultiple.member (MmOctets.create "RouteData" 4) (HC_MLC 3)] 4

def Timestamp : McObject :=
  option "Opt_IPv4_Timestamp" [MmUint.create "Pointer" 8, MmUint.create "Overflow" 4,
    MmUint.create "Flag" 4, MmMultiple.member (MmUint.create "Timestamp" 32) (HC_MLC 4)] 4

def RouterAlert : McObject := option "Opt_IPv4_RouterAlert" [MmUint.create "Value" 16]

end McOpt_IPv4

namespace MmOption_onIPv4

open McOpt_IPv4

def dict_ : TypevsMcDict where
  list_ := [(0, EndofOptionList), (1, NoOperation.reverse), (131, LooseSourceRoute.reverse),
    (137, StrictSourceRoute.reverse), (7, RecordRoute.reverse), (68, Timestamp.reverse),
    (148, RouterAlert.reverse)]
  other_ := some ANY.reverse

def overwrite_DictType : Overwrite := overwrite_DictType_onList "Type"

def reverse (fuel : Nat) : Reverse :=
  MmReference_More0.reverse true overwrite_DictType dict_ fuel

end MmOption_onIPv4

/-! ## Options of TCP headers -/

namespace McOpt_TCP

/-- The length counts the kind and itself. -/
def length_for_reverse (_ : RControl) (at_ : ItPosition) (buf : PvOctets) : UInt32 :=
  let valulen := lengthValue at_ buf
  valulen

def common_member : List Member := [octet.member "Kind", octet.member "Length"]

def option (string : String) (members : List Member) (alignment_requirement : UInt32 := 0) :
    McObject :=
  ⟨string, alignment_requirement, length_for_reverse, common_member ++ members⟩

def ANY : McObject := option "Opt_TCP_ANY" [MmData.member "data"]
def EndofOptionList : Reverse := endofOptionList "Opt_TCP_EndofOptionList" "Kind"
def NoOperation : McObject := fixed "Opt_TCP_NoOperation" [octet.member "Kind"]
def MaximumSegmentSize : McObject :=
  option "Opt_TCP_MaximumSegmentSize" [MmUint.create "MaxSegSize" 16] 2

end McOpt_TCP

namespace MmOption_onTCP

open McOpt_TCP

def dict_ : TypevsMcDict where
  list_ := [(0, EndofOptionList), (1, NoOperation.reverse), (2, MaximumSegmentSize.reverse)]
  other_ := some ANY.reverse

def overwrite_DictType : Overwrite := overwrite_DictType_onList "Kind"

def reverse (fuel : Nat) : Reverse :=
  MmReference_More0.reverse true overwrite_DictType dict_ fuel

end MmOption_onTCP

/-! ## Options of mobility headers -/

namespace McOpt_MH

/-- `DEF_LENGTH_ELEM_OptMH` -/
def length_for_reverse (_ : RControl) (at_ : ItPosition) (buf : PvOctets) : UInt32 :=
  let valulen := lengthValue at_ buf
  valulen + 2

def common_member : List Member := [octet.member "Type", octet.member "Length"]

def option (string : String) (members : List Member) : McObject :=
  ⟨string, 0, length_for_reverse, common_member ++ members⟩

def ANY : McObject := option "Opt_MH_ANY" [MmData.member "data"]
def Pad1 : McObject := fixed "Opt_MH_Pad1" [octet.member "Type"]
def PadN : McObject := option "Opt_MH_PadN" [MmData.member "pad"]

def BindingRefreshAdvice : McObject :=
  option "Opt_MH_BindingRefreshAdvice" [MmUint.create "Interval" 16]

def AlternateCoA : McObject := option "Opt_MH_AlternateCoA" [MmOctets.create "Address" 16]

def NonceIndices : McObject :=
  option "Opt_MH_NonceIndices" [MmUint.create "HoNonceIndex" 16, MmUint.create "CoNonceIndex" 16]

def BindingAuthData : McObject :=
  option "Opt_MH_BindingAuthData" [MmOctets.create "Authenticator" 12]

def MobNetworkPrefix : McObject :=
  option "Opt_MH_MobNetworkPrefix" [MmUint.create "Reserved" 8, MmUint.create "PrefixLength" 8,
    MmOctets.create "Prefix" 16]

end McOpt_MH

namespace MmOption_onMH

open McOpt_MH

def dict_ : TypevsMcDict where
  list_ := [(0, Pad1.reverse), (1, PadN.reverse), (2, BindingRefreshAdvice.reverse),
    (3, AlternateCoA.reverse), (4, NonceIndices.reverse), (5, BindingAuthData.reverse),
    (6, MobNetworkPrefix.reverse)]
  other_ := some ANY.reverse

def overwrite_DictType : Overwrite := McOption.overwrite_DictType "Type"

def member (fuel : Nat) : Member :=
  ⟨id, MmReference_More0.reverse true overwrite_DictType dict_ fuel⟩

end MmOption_onMH

end Tahi.Pz

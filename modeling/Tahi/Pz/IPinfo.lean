import Tahi.General.SourceRoute
import Tahi.Pz.PvOctetsUint

/-! # What the decoder and the generator know of the IP layer

`Con_IPinfo` is filled by the members of the headers as they are met: the
addresses of the IPv6 header, and the last address of a routing header that has
segments left.
-/

namespace Tahi.Pz

open BitField SourceRoute

structure Con_IPinfo where
  SrcAddr : Option PvOctets
  LastDstAddr : Option PvOctets
  Route_isLeft : Bool := false

/-- `MmV6Addr::reversePv`: the 16 octets that stand at octet `a`. -/
def v6addr (m : Memory) (a : Int) : PvOctets := ⟨16, fun i => m (i + a)⟩

namespace McTopHdr_IPv6

/-- `HC_ForIPinfo(SourceAddress)` and `HC_ForIPinfo(DestinationAddress)`. -/
def ForIPinfo (info : Con_IPinfo) (src dst : PvOctets) : Con_IPinfo :=
  { info with SrcAddr := some src, LastDstAddr := some dst }

end McTopHdr_IPv6

namespace McHdr_Ext_Routing

/-- `HC_ForIPinfo(SegmentsLeft)`. -/
def ForIPinfo_SegmentsLeft (info : Con_IPinfo) (segmentsleft : UInt32) : Con_IPinfo :=
  { info with Route_isLeft := decide (segmentsleft > 0) }

/-- `HC_ForIPinfo(Address)`. -/
def ForIPinfo_Address (info : Con_IPinfo) (pv : PvOctets) : Con_IPinfo :=
  if info.Route_isLeft then { info with LastDstAddr := some pv } else info

/-- The members of a routing header, in order. -/
def ForIPinfo (info : Con_IPinfo) (segmentsleft : UInt32) (addresses : List PvOctets) :
    Con_IPinfo :=
  addresses.foldl ForIPinfo_Address (ForIPinfo_SegmentsLeft info segmentsleft)

private theorem foldl_isLeft (addresses : List PvOctets) {info : Con_IPinfo} {d : PvOctets}
    (left : info.Route_isLeft = true) (known : info.LastDstAddr = some d) :
    (addresses.foldl ForIPinfo_Address info).LastDstAddr = some (last d addresses) := by
  induction addresses generalizing info d with
  | nil => exact known
  | cons a addresses ih =>
      rw [List.foldl_cons, ForIPinfo_Address, if_pos left]
      exact ih left rfl

private theorem foldl_notLeft (addresses : List PvOctets) {info : Con_IPinfo}
    (arrived : info.Route_isLeft = false) :
    (addresses.foldl ForIPinfo_Address info).LastDstAddr = info.LastDstAddr := by
  induction addresses with
  | nil => rfl
  | cons a addresses ih =>
      rw [List.foldl_cons, ForIPinfo_Address, if_neg (by simp [arrived])]
      exact ih

theorem SrcAddr_ForIPinfo (info : Con_IPinfo) (s : UInt32) (addresses : List PvOctets) :
    (ForIPinfo info s addresses).SrcAddr = info.SrcAddr := by
  unfold ForIPinfo
  generalize start : ForIPinfo_SegmentsLeft info s = before
  have same : before.SrcAddr = info.SrcAddr := by
    rw [← start]
    rfl
  rw [← same]
  clear start same
  induction addresses generalizing before with
  | nil => rfl
  | cons a addresses ih =>
      rw [List.foldl_cons, ih, ForIPinfo_Address]
      split
      · rfl
      · rfl

/-- The last destination is the last address, if there are segments left. -/
theorem LastDstAddr_ForIPinfo {info : Con_IPinfo} {d : PvOctets} (s : UInt32)
    (addresses : List PvOctets) (known : info.LastDstAddr = some d) :
    (ForIPinfo info s addresses).LastDstAddr =
      some (if s > 0 then last d addresses else d) := by
  unfold ForIPinfo ForIPinfo_SegmentsLeft
  by_cases left : s > 0
  · rw [if_pos left]
    exact foldl_isLeft addresses (decide_eq_true left) known
  · rw [if_neg left, ← known]
    exact foldl_notLeft addresses (decide_eq_false left)

end McHdr_Ext_Routing

end Tahi.Pz

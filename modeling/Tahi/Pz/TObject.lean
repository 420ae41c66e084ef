import Tahi.Pz.IPinfo
import Tahi.Pz.PvNumber
import Tahi.Pz.PvOctetsEncode

/-! # Overwriting a packet for its integrity check value

The check value is computed over a copy of the packet in which the fields that
change on the way are zero and the others are as the final destination sees them.
The objects of the packet overwrite the copy in the order in which they were
decoded, each at its own position, and hand an `ICVControl` on.
-/

namespace Tahi.Pz

open BitField TracedMemory PvOctets

structure ICVControl where
  LastDstAddr : Option PvOctets
  CareOfAddr : Option PvOctets
  HomeAddr : Option PvOctets
  ShiftRoutAddr : Option PvOctets
  RoutAddrmax : UInt32
  RoutAddrindex : UInt32
  SegmentsLeft : UInt32
  isZero_ExtOptData : Bool

namespace ICVControl

/-- The control as `RmAH_ICV::post_reverse` and `WmAH_ICV::post_generate` set it up. -/
def start (info : Con_IPinfo) : ICVControl where
  LastDstAddr := info.LastDstAddr
  CareOfAddr := none
  HomeAddr := info.SrcAddr
  ShiftRoutAddr := none
  RoutAddrmax := 0
  RoutAddrindex := 0
  SegmentsLeft := 0
  isZero_ExtOptData := false

def isShift_RoutAddr (c : ICVControl) : Bool :=
  if c.RoutAddrmax < c.SegmentsLeft then false
  else
    let shiftpos := c.RoutAddrmax - c.SegmentsLeft
    c.RoutAddrindex ≥ shiftpos

end ICVControl

/-- How a leaf overwrites itself. The value of the member stands where it is read. -/
inductive ICVoverwriter where
  | const
  | zero
  | sourceAddress (pvalue : PvOctets)
  | destinationAddress (pvalue : PvOctets)
  | segmentsLeft (pvalue : PvNumber)
  | address (pvalue : PvOctets)
  | optExtData
  | homeAddress (pvalue : PvOctets)

/-- How a compound overwrites itself. -/
inductive Overwriting where
  /-- Not at all: payloads, ESP, the packet in a tunnel. -/
  | useless
  /-- By its members: the IPv6 header and most extension headers. -/
  | children
  | routing
  | fragment
  | option

inductive TObject where
  | leaf (ow : ICVoverwriter) (size : ItPosition)
  | compound (ow : Overwriting) (size : ItPosition) (children : List TObject)

def TObject.size : TObject → ItPosition
  | .leaf _ size => size
  | .compound _ size _ => size

section

variable (host : ByteOrder) (length : UInt32)

/-- `buf.encode(at, *addr)`, if there is an address. -/
def encodeAddr (at_ : ItPosition) : Option PvOctets → Access Unit
  | some addr => encode length at_ addr
  | none => pure ()

namespace McHdr_Ext_Routing

/-- The shift of `HC_OWICV(Address)`: the address takes the one before it and
    becomes the next to be shifted. -/
def shiftAddr (c : ICVControl) (at_ : ItPosition) (pvalue : PvOctets) : Access ICVControl := do
  encodeAddr length at_ c.ShiftRoutAddr
  pure { c with ShiftRoutAddr := some pvalue }

/-- `HC_OWICV(Address)`. -/
def OWICV_Address (c : ICVControl) (at_ : ItPosition) (pvalue : PvOctets) : Access ICVControl := do
  let c ← if c.isShift_RoutAddr then shiftAddr length c at_ pvalue else pure c
  pure { c with RoutAddrindex := c.RoutAddrindex + 1 }

/-- `HC_MLC(Address)`: the number of addresses, two units of length each. -/
def MLC_Address (at_ : ItPosition) : Access UInt32 := do
  let length ← decodeUint host (at_.copy.add ⟨1, 0⟩) 8
  pure (length / 2)

end McHdr_Ext_Routing

/-- `ICVoverwriter::overwrite`, for a member of the given size. -/
def ICVoverwriter.overwrite (c : ICVControl) (at_ size : ItPosition) :
    ICVoverwriter → Access ICVControl
  | .const => pure c
  | .zero => do
    encodeZero host length at_ size
    pure c
  | .sourceAddress pvalue => do
    encodeAddr length at_ c.HomeAddr
    pure { c with CareOfAddr := some pvalue }
  | .destinationAddress pvalue => do
    encodeAddr length at_ c.LastDstAddr
    pure { c with ShiftRoutAddr := some pvalue }
  | .segmentsLeft pvalue => do
    encodeUint host 0 at_ 8
    pure { c with SegmentsLeft := pvalue.value.toUInt32 }
  | .address pvalue => McHdr_Ext_Routing.OWICV_Address length c at_ pvalue
  | .optExtData => do
    if c.isZero_ExtOptData then encodeZero host length at_ size else pure ()
    pure c
  | .homeAddress pvalue => do
    encodeAddr length at_ c.CareOfAddr
    pure { c with HomeAddr := some pvalue }

mutual

/-- `overwrite_ICV` of an object at a position. -/
def TObject.overwrite_ICV (c : ICVControl) (at_ : ItPosition) :
    TObject → Access (Bool × ICVControl)
  | .leaf ow size => do
    let c ← ow.overwrite host length c at_ size
    pure (true, c)
  | .compound .useless _ _ => pure (true, c)
  | .compound .children _ children => overwrite_ICV_child c at_.copy children
  | .compound .routing _ children => do
    let count ← McHdr_Ext_Routing.MLC_Address host at_
    overwrite_ICV_child
      { c with RoutAddrmax := count, RoutAddrindex := 0, SegmentsLeft := 0 } at_.copy children
  | .compound .fragment _ _ => pure (false, c)
  | .compound .option _ children => do
    let typeval ← decodeUint host at_ 8
    let isZero := typeval &&& 0x20 != 0
    let (rtn, c) ← overwrite_ICV_child { c with isZero_ExtOptData := isZero } at_.copy children
    pure (rtn, { c with isZero_ExtOptData := false })

/-- The children in order, until one of them refuses. -/
def overwrite_ICV_child (c : ICVControl) (memat : ItPosition) :
    List TObject → Access (Bool × ICVControl)
  | [] => pure (true, c)
  | child :: children => do
    let (rtn, c) ← child.overwrite_ICV c memat
    if rtn then overwrite_ICV_child c (memat.add child.size) children
    else pure (false, c)

end

end

end Tahi.Pz

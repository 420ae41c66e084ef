import Tahi.Pz.RControl

/-! # Decoding compounds

A compound computes its own length, is given a window of that length and decodes
its members in the window from offset zero on. What the members leave over becomes
an object of its own.
-/

namespace Tahi.Pz

open BitField

/-- Why a call of `reverse` does not come back: the program aborts, or the model
    gives up on a loop. -/
inductive Halt where
  | abort
  | unfinished
deriving DecidableEq, Repr

/-- What a call of `reverse` leaves behind: the control, the position, the object it
    returns and the objects that the parent has been given. -/
structure Reversed where
  c : RControl
  at_ : ItPosition
  rc : Option Decoded
  made : List Decoded

/-- `reverse(RControl&,RObject*,ItPosition&,OCTBUF&)`. -/
abbrev Reverse := RControl → ItPosition → PvOctets → Except Halt Reversed

namespace MObject

/-- Whether an object of this size fits what is left. The octets are counted in
    signed words. -/
def check_decode_limit (at_ : ItPosition) (buf : PvOctets) (size : ItPosition) : Bool :=
  let len : ItPosition := ⟨buf.length.toInt32, 0⟩
  let len := (len.subtract at_).subtract size
  decide (0 ≤ len.bytes)

def padcount_alignment_requirement (X H S : UInt32) : UInt32 :=
  if X = 0 then 0 else (X - (H + S) % X) % X

def check_decode_alignment_requirement (offset size : ItPosition) (ali : UInt32) : Bool :=
  padcount_alignment_requirement ali offset.bytes.toUInt32 size.bytes.toUInt32 == 0

end MObject

open MObject

/-- A member of a compound: its place in the size of the compound, and its decoder. -/
structure Member where
  stepPostion : ItPosition → ItPosition := id
  reverse : Reverse

namespace McObject

/-- The loop of `members_reverse`. An error ends it. -/
def membersLoop : List Member → RControl → ItPosition → PvOctets →
    Except Halt (RControl × ItPosition × List Decoded)
  | [], c, memat, _ => .ok (c, memat, [])
  | mem :: members, c, memat, buf_self =>
      match mem.reverse c memat buf_self with
      | .error h => .error h
      | .ok r =>
          if r.c.ok then
            match membersLoop members r.c r.at_ buf_self with
            | .error h => .error h
            | .ok (c, memat, made) => .ok (c, memat, r.made ++ made)
          else .ok (r.c, r.at_, r.made)

/-- `members_reverse`. What is left over goes to `needless`. -/
def members_reverse (needless : Reverse) (members : List Member) (c : RControl)
    (memat : ItPosition) (buf_self : PvOctets) : Except Halt (RControl × List Decoded) :=
  match membersLoop members c memat buf_self with
  | .error h => .error h
  | .ok (c, memat, made) =>
      let remainlen := buf_self.remainLength memat.bytes.toUInt32
      if remainlen > 0 then
        match needless c memat buf_self with
        | .error h => .error h
        | .ok r => .ok (r.c, made ++ r.made)
      else .ok (c, made)

end McObject

/-- A compound: its token, what it requires of its alignment, the length that it
    computes from the octets it is to be decoded from, and its members. -/
structure McObject where
  string : String
  alignment_requirement : UInt32 := 0
  length_for_reverse : RControl → ItPosition → PvOctets → UInt32
  members_ : List Member

namespace McObject

/-- `McObject::reverse`. A violated alignment is only a warning. -/
def reverseWith (needless : Reverse) (mc : McObject) : Reverse := fun c at_ buf =>
  let length := mc.length_for_reverse c at_ buf
  let size : ItPosition := ⟨length.toInt32, 0⟩
  if check_decode_limit at_ buf size then
    let c := if check_decode_alignment_requirement at_ size mc.alignment_requirement then c
      else c.setWarning 3
    match buf.substr at_.bytes.toUInt32 length with
    | none => .error .abort
    | some buf_self =>
        match members_reverse needless mc.members_ c ⟨0, 0⟩ buf_self with
        | .error h => .error h
        | .ok (c, children) =>
            let r_self : Decoded := .mk mc.string at_ size (.octets buf_self) children
            .ok ⟨c, at_.addBytes length.toInt32, some r_self, [r_self]⟩
  else .ok ⟨c.setError 1, at_, none, []⟩

end McObject

namespace MmElement

def stepPostion (width : UInt16) (objectLength : UInt32) (it : ItPosition) : ItPosition :=
  (it.addBits width).addBytes objectLength.toInt32

/-- `MmElement::reverse`, for a member whose object is made by `reverseRm`. The last
    argument is the method that tells the value to the IP layer, which is also given
    the buffer of the compound. -/
def reverseWith (length_for_reverse : RControl → ItPosition → PvOctets → ItPosition)
    (reversePv : ItPosition → ItPosition → PvOctets → PvObject)
    (reverseRm : RControl → ItPosition → ItPosition → PvObject → Except Halt (RControl × Decoded))
    (ForIPinfo : Option (Con_IPinfo → Decoded → PvOctets → Con_IPinfo)) : Reverse :=
  fun c at_ buf =>
    let size := length_for_reverse c at_ buf
    if check_decode_limit at_ buf size then
      let pv := reversePv at_ size buf
      match reverseRm c at_ size pv with
      | .error h => .error h
      | .ok (c, r_self) =>
          let c := match ForIPinfo, c.IPinfo with
            | some method, some info => { c with IPinfo := some (method info r_self buf) }
            | _, _ => c
          .ok ⟨c, at_.add size, some r_self, [r_self]⟩
    else .ok ⟨c.result 1, at_, none, []⟩

/-- `MmElement::reverseRm`. -/
def leaf (string : String) : RControl → ItPosition → ItPosition → PvObject →
    Except Halt (RControl × Decoded) :=
  fun c at_ size pv => .ok (c, .mk string at_ size pv [])

end MmElement

namespace MmUint

def stepPostion (m : MmUint) : ItPosition → ItPosition := MmElement.stepPostion m.width 0

/-- The value of a member that stands `delta` behind the start `on` of its compound.
    Nothing is checked about the end of the buffer. -/
def value (m : MmUint) (delta on : ItPosition) (src : PvOctets) : UInt32 :=
  src.uintAt (on.copy.add delta) m.width

def reversePv (m : MmUint) (at_ : ItPosition) (_ : ItPosition) (buf : PvOctets) : PvObject :=
  .number ⟨(buf.uintAt at_ m.width).toInt32⟩

def reverse (m : MmUint) (string : String)
    (ForIPinfo : Option (Con_IPinfo → Decoded → PvOctets → Con_IPinfo)) : Reverse :=
  MmElement.reverseWith (fun _ _ _ => m.stepPostion ⟨0, 0⟩) m.reversePv
    (MmElement.leaf string) ForIPinfo

def member (m : MmUint) (string : String)
    (ForIPinfo : Option (Con_IPinfo → Decoded → PvOctets → Con_IPinfo) := none) : Member :=
  ⟨m.stepPostion, m.reverse string ForIPinfo⟩

end MmUint

/-- A member of a fixed number of octets: an IPv4, IPv6 or link-layer address, or a
    cookie. -/
structure MmOctets where
  length : UInt32
  countable : length.toNat < 2 ^ 31

namespace MmOctets

def stepPostion (m : MmOctets) : ItPosition → ItPosition := MmElement.stepPostion 0 m.length

/-- The octets from octet `at.bytes()` on. The bits of the position are not used. -/
def reversePv (m : MmOctets) (at_ : ItPosition) (_ : ItPosition) (buf : PvOctets) : PvObject :=
  .octets ⟨m.length, fun i => buf.cell (i + at_.bytes.toInt)⟩

def reverse (m : MmOctets) (string : String)
    (ForIPinfo : Option (Con_IPinfo → Decoded → PvOctets → Con_IPinfo)) : Reverse :=
  MmElement.reverseWith (fun _ _ _ => m.stepPostion ⟨0, 0⟩) m.reversePv
    (MmElement.leaf string) ForIPinfo

def member (m : MmOctets) (string : String)
    (ForIPinfo : Option (Con_IPinfo → Decoded → PvOctets → Con_IPinfo) := none) : Member :=
  ⟨m.stepPostion, m.reverse string ForIPinfo⟩

end MmOctets

namespace MmVarOctets

def length_for_reverse (_ : RControl) (at_ : ItPosition) (buf : PvOctets) : ItPosition :=
  let length := buf.remainLength at_.bytes.toUInt32
  ⟨length, 0⟩

def reversePv (at_ size : ItPosition) (buf : PvOctets) : PvObject :=
  .octets ⟨size.bytes.toUInt32, fun i => buf.cell (i + at_.bytes.toInt)⟩

end MmVarOctets

namespace MmData

/-- `MmData::reverse`. All that is left belongs to the member. -/
def reverse (string : String) (evalskip : Bool) : Reverse := fun c at_ buf =>
  let length := (buf.remainLength at_.bytes.toUInt32).toUInt32
  if evalskip && length == 0 then .ok ⟨c, at_, none, []⟩
  else
    let size : ItPosition := ⟨length.toInt32, 0⟩
    if check_decode_limit at_ buf size then
      match buf.substr at_.bytes.toUInt32 length with
      | none => .error .abort
      | some pv =>
          let r_self : Decoded := .mk string at_ size (.octets pv) []
          .ok ⟨c, at_.add size, some r_self, [r_self]⟩
    else .ok ⟨c.setError 1, at_, none, []⟩

def member (string : String) (evalskip : Bool := false) : Member := ⟨id, reverse string evalskip⟩

end MmData

namespace McNeedless

/-- The compound without a token that takes what no member has taken. -/
def compound : McObject where
  string := "[Needless]"
  length_for_reverse _ at_ buf := (buf.remainLength at_.bytes.toUInt32).toUInt32
  members_ := [MmData.member "data"]

/-- `McNeedless::reverse`. `data` takes the rest of the window, so that its own
    `members_reverse` finds nothing left over: `needless_reverse` below. -/
def reverse : Reverse := fun c at_ buf =>
  let remainlen := compound.length_for_reverse c at_ buf
  if remainlen = 0 then .ok ⟨c, at_, none, []⟩
  else compound.reverseWith (fun _ _ _ => .error .unfinished) c at_ buf

end McNeedless

def McObject.reverse (mc : McObject) : Reverse := mc.reverseWith McNeedless.reverse

/-- The size that the members of a compound have together. -/
def McObject.size_ (members : List Member) : ItPosition :=
  members.foldl (fun it mem => mem.stepPostion it) ⟨0, 0⟩

/-! ## The limit check -/

namespace ItPosition

/-- Going back from the start of an octet: a position inside an octet borrows one. -/
theorem subtract_from_octets (o : Int32) (j : ItPosition) :
    (mk o 0).subtract j =
      ⟨o - j.bytes - (if j.bits = 0 then 0 else 1), (8 - j.bits) % 8⟩ := by
  have small := j.bits_lt
  have zero : ((mk o 0).subtractBytes j.bytes).bits = 0 := rfl
  rw [subtract, subtractBits]
  simp only [zero]
  cases whole : decide (j.bits = 0) with
  | true =>
      simp [of_decide_eq_true whole, subtractBytes]
  | false =>
      have some_ := of_decide_eq_false whole
      have none_ : ¬j.bits ≤ 0 := fun le => some_ (UInt16.le_antisymm le (UInt16.zero_le))
      have one : ((j.bits - 0) / 8 + 1).toNat = 1 := by
        rw [UInt16.sub_zero, UInt16.toNat_add, toNat_div_eight, Nat.div_eq_of_lt small]
        rfl
      rw [if_neg none_, one, if_neg some_, UInt16.sub_zero]
      rfl

end ItPosition

namespace MObject

/-- Whole octets are taken off the octets that are left, less one where the
    position is inside an octet. -/
theorem check_decode_limit_octets (at_ : ItPosition) (buf : PvOctets) (len : Int32) :
    check_decode_limit at_ buf ⟨len, 0⟩ =
      decide (0 ≤ buf.length.toInt32 - at_.bytes - (if at_.bits = 0 then 0 else 1) - len) := by
  have size : (ItPosition.mk len 0).bytes = len := ItPosition.bytes_mk (by decide)
  have none_ : (ItPosition.mk len 0).bits = 0 := rfl
  rw [check_decode_limit, ItPosition.subtract_from_octets]
  simp only [ItPosition.subtract, ItPosition.subtractBits, none_, size, UInt16.zero_le, if_true, UInt16.sub_zero]
  congr 2
  apply ItPosition.bytes_mk
  rw [ItPosition.toNat_mod_eight]
  exact Nat.mod_lt _ (by decide)

/-- A length below `2 ^ 31` that passes the check is at most what is left. -/
theorem le_of_check {at_ : ItPosition} {buf : PvOctets} {length : UInt32}
    (countable : length.toNat < 2 ^ 31)
    (fits : check_decode_limit at_ buf ⟨length.toInt32, 0⟩ = true) :
    length.toNat + (if at_.bits = 0 then 0 else 1) ≤ (buf.length - at_.bytes.toUInt32).toNat := by
  rw [check_decode_limit_octets, decide_eq_true_iff] at fits
  generalize borrowed : (if at_.bits = 0 then 0 else 1 : Int32) = borrow at fits
  have unit : borrow.toInt = (if at_.bits = 0 then 0 else 1 : Nat) := by
    rw [← borrowed]
    split
    · rfl
    · rfl
  have left_ : buf.length.toInt32 - at_.bytes = (buf.length - at_.bytes.toUInt32).toInt32 := by
    rw [UInt32.toInt32_sub, Int32.toInt32_toUInt32]
  have word : (buf.length - at_.bytes.toUInt32).toInt32.toInt =
      ((buf.length - at_.bytes.toUInt32).toNat : Int).bmod (2 ^ 32) :=
    BitVec.toInt_eq_toNat_bmod (buf.length - at_.bytes.toUInt32).toBitVec
  have below := (buf.length - at_.bytes.toUInt32).toNat_lt
  rw [left_] at fits
  have signed := Int32.le_iff_toInt_le.mp fits
  rw [Int32.toInt_sub, Int32.toInt_sub, word, unit, ItPosition.toInt_toInt32 countable,
    Int.bmod_sub_bmod, sub_sub, Int.bmod_sub_bmod] at signed
  change 0 ≤ Int.bmod _ _ at signed
  simp only [Int.bmod] at signed
  split at signed <;> split <;> omega

/-- In a window whose octets a signed word can count, the check compares bits. -/
theorem check_decode_limit_toBits {at_ size : ItPosition} {buf : PvOctets}
    (countable : buf.length.toNat < 2 ^ 31) (start : 0 ≤ at_.bytes.toInt)
    (inside : at_.toBits ≤ 8 * buf.length.toNat) (forward : 0 ≤ size.bytes.toInt) :
    check_decode_limit at_ buf size =
      decide (at_.toBits + size.toBits ≤ 8 * buf.length.toNat) := by
  have whole := ItPosition.toBits_octets countable
  have length : (ItPosition.mk buf.length.toInt32 0).bytes.toInt = buf.length.toNat := by
    rw [ItPosition.bytes_mk (by decide), ItPosition.toInt_toInt32 countable]
  have place : at_.toBits = 8 * at_.bytes.toInt + at_.bits.toNat := rfl
  have small : (ItPosition.mk buf.length.toInt32 0).bits_.toNat < 8 := by
    change 0 < 8
    omega
  have bitsLt := at_.bits_lt
  obtain ⟨normal, left_⟩ := ItPosition.toBits_subtract (j := at_) small (by omega) (by omega)
  rw [check_decode_limit, decide_eq_decide]
  generalize (ItPosition.mk buf.length.toInt32 0).subtract at_ = len at normal left_ ⊢
  have octets : len.toBits = 8 * len.bytes.toInt + len.bits.toNat := rfl
  have bits := len.bits_lt
  have sizeLt := size.bytes.toInt_lt
  have lenLt := len.bytes.toInt_lt
  have sizeBits : size.toBits = 8 * size.bytes.toInt + size.bits.toNat := rfl
  have sizeBitsLt := size.bits_lt
  obtain ⟨_, rest⟩ := ItPosition.toBits_subtract (j := size) normal (by omega) (by omega)
  have octets' : (len.subtract size).toBits =
      8 * (len.subtract size).bytes.toInt + (len.subtract size).bits.toNat := rfl
  have bits' := (len.subtract size).bits_lt
  have zero : (0 : Int32).toInt = 0 := rfl
  rw [Int32.le_iff_toInt_le, zero]
  omega

end MObject

end Tahi.Pz

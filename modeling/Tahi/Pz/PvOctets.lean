import Tahi.General.TracedMemory
import Tahi.Pz.ItPosition

/-! # Bit codecs of an octet buffer

`PvOctets` stores and fetches fields that start at any bit. Left adjusted fields
are strings of octets; right adjusted fields are numbers, whose first chunk is
the short one. Each codec is a program over the addresses relative to the start
of the buffer, so that what it stores and what it touches are both visible.
-/

namespace Tahi.Pz

open BitField TracedMemory

/-- The host's order of the octets of a 32-bit word. -/
inductive ByteOrder where
  | little
  | big
deriving DecidableEq, Repr

namespace PvOctets

/-- `d=(t&sm)|(d&rm)` with `rm=~sm`, for the destination at offset `o`. -/
def overlay (o : UInt32) (t sm : Octet) : Access Unit := do
  let d ← load o.toNat
  store o.toNat ((t &&& sm) ||| (d &&& ~~~sm))

/-! ## One chunk of at most eight bits -/

def encodeLA (n : Octet) (at_ : ItPosition) (w : UInt16) : Access Unit :=
  if 8 < w then abort
  else do
    let o := at_.bytes.toUInt32
    let b := at_.bits.toNat
    let e := b + w.toNat
    let m := BitVec.ofNat 8 ((2 ^ w.toNat - 1) <<< (8 - w.toNat))
    let nm := n &&& m
    overlay o (nm >>> b) (m >>> b)
    if e < 8 then pure ()
    else
      let s := 8 - b
      overlay (o + 1) (nm <<< s) (m <<< s)

def decodeLA (at_ : ItPosition) (w : UInt16) : Access Octet :=
  if 8 < w then abort
  else do
    let o := at_.bytes.toUInt32
    let b := at_.bits.toNat
    let e := b + w.toNat
    let m := BitVec.ofNat 8 ((2 ^ w.toNat - 1) <<< (8 - w.toNat))
    let sm := m >>> b
    if e < 8 then
      let d0 ← load o.toNat
      return (d0 &&& sm) <<< b
    else
      let r := 8 - b
      let rm := m <<< r
      let d0 ← load o.toNat
      let d1 ← load (o + 1).toNat
      return ((d0 &&& sm) <<< b) ||| ((d1 &&& rm) >>> r)

def encodeRA (n : Octet) (at_ : ItPosition) (w : UInt16) : Access Unit :=
  if 8 < w then abort
  else do
    let o := at_.bytes.toUInt32
    let e := at_.bits.toNat + w.toNat
    let m := BitVec.ofNat 8 (2 ^ w.toNat - 1)
    let nm := n &&& m
    if e < 8 then
      let s := 8 - e
      overlay o (nm <<< s) (m <<< s)
    else
      let s := e - 8
      overlay o (nm >>> s) (m >>> s)
      let s := 8 - s
      overlay (o + 1) (nm <<< s) (m <<< s)

def decodeRA (at_ : ItPosition) (w : UInt16) : Access Octet :=
  if 8 < w then abort
  else do
    let o := at_.bytes.toUInt32
    let e := at_.bits.toNat + w.toNat
    let m := BitVec.ofNat 8 (2 ^ w.toNat - 1)
    if e < 8 then
      let s := 8 - e
      let sm := m <<< s
      let d0 ← load o.toNat
      return (d0 &&& sm) >>> s
    else
      let s := e - 8
      let sm := m >>> s
      let r := 8 - s
      let rm := m <<< r
      let d0 ← load o.toNat
      let d1 ← load (o + 1).toNat
      return ((d0 &&& sm) <<< s) ||| ((d1 &&& rm) >>> r)

/-! ## A whole field, chunk by chunk -/

/-- How a loop cuts a field: the width `cw` of the next chunk of a field of `w`
    bits, which is why the loop ends. -/
structure Cut where
  cw : UInt16 → UInt16
  pos : ∀ w, w ≠ 0 → 0 < (cw w).toNat
  le : ∀ w, w ≠ 0 → (cw w).toNat ≤ w.toNat

theorem Cut.rest (cut : Cut) {w : UInt16} (more : w ≠ 0) :
    (w - cut.cw w).toNat = w.toNat - (cut.cw w).toNat :=
  UInt16.toNat_sub_of_le w _ (cut.le w more)

/-- `cw=w>8?8:w` -/
def leftCut : Cut where
  cw w := if 8 < w then 8 else w
  pos := by
    intro w more
    have positive : 0 < w.toNat := Nat.pos_of_ne_zero fun zero => more (UInt16.toNat_inj.mp zero)
    split
    · decide
    · exact positive
  le := by
    intro w _
    split
    · exact Nat.le_of_lt (UInt16.lt_iff_toNat_lt.mp ‹8 < w›)
    · exact Nat.le_refl _

theorem rightCut_toNat {w : UInt16} (more : w ≠ 0) :
    ((w - 1) % 8 + 1).toNat = (w.toNat - 1) % 8 + 1 := by
  have positive : 0 < w.toNat := Nat.pos_of_ne_zero fun zero => more (UInt16.toNat_inj.mp zero)
  have before : (w - 1).toNat = w.toNat - 1 := UInt16.toNat_sub_of_le w 1 positive
  have remainder : ((w - 1) % 8).toNat = (w.toNat - 1) % 8 := by
    rw [ItPosition.toNat_mod_eight, before]
  rw [UInt16.toNat_add, remainder]
  exact Nat.mod_eq_of_lt (by change (w.toNat - 1) % 8 + 1 < 2 ^ 16; omega)

/-- `cw=(w-1)%8+1` -/
def rightCut : Cut where
  cw w := (w - 1) % 8 + 1
  pos := by
    intro w more
    rw [rightCut_toNat more]
    exact Nat.succ_pos _
  le := by
    intro w more
    have positive : 0 < w.toNat := Nat.pos_of_ne_zero fun zero => more (UInt16.toNat_inj.mp zero)
    rw [rightCut_toNat more]
    omega

/-- The body of an encoding loop. An aligned chunk of eight bits is stored
    directly. -/
def encodeTurn (chunk : Octet → ItPosition → UInt16 → Access Unit) (n : Octet)
    (it : ItPosition) (cw : UInt16) : Access Unit :=
  if cw = 8 ∧ it.bits = 0 then store it.bytes.toInt n else chunk n it cw

def decodeTurn (chunk : ItPosition → UInt16 → Access Octet) (it : ItPosition) (cw : UInt16) :
    Access Octet :=
  if cw = 8 ∧ it.bits = 0 then load it.bytes.toInt else chunk it cw

/-- The common loop of `encodeLAs` and `encodeRAs`. -/
def encodeChunks (cut : Cut) (chunk : Octet → ItPosition → UInt16 → Access Unit)
    (np : Memory) (it : ItPosition) (w : UInt16) : Access Unit :=
  if w ≠ 0 then do
    let cw := cut.cw w
    encodeTurn chunk (np 0) it cw
    encodeChunks cut chunk (fun i => np (i + 1)) (it.addBits cw) (w - cw)
  else pure ()
termination_by w.toNat
decreasing_by
  have positive := cut.pos w ‹w ≠ 0›
  have bounded := cut.le w ‹w ≠ 0›
  rw [cut.rest ‹w ≠ 0›]
  omega

/-- The common loop of `decodeLAs` and `decodeRAs`: the octets it stores through
    `np`, in order. -/
def decodeChunks (cut : Cut) (chunk : ItPosition → UInt16 → Access Octet)
    (it : ItPosition) (w : UInt16) : Access (List Octet) :=
  if w ≠ 0 then do
    let cw := cut.cw w
    let d ← decodeTurn chunk it cw
    let ds ← decodeChunks cut chunk (it.addBits cw) (w - cw)
    return d :: ds
  else return []
termination_by w.toNat
decreasing_by
  have positive := cut.pos w ‹w ≠ 0›
  have bounded := cut.le w ‹w ≠ 0›
  rw [cut.rest ‹w ≠ 0›]
  omega

def encodeLAs (np : Memory) (at_ : ItPosition) (w : UInt16) : Access Unit :=
  encodeChunks leftCut encodeLA np at_.copy w

def decodeLAs (at_ : ItPosition) (w : UInt16) : Access (List Octet) :=
  decodeChunks leftCut decodeLA at_.copy w

def encodeRAs (np : Memory) (at_ : ItPosition) (w : UInt16) : Access Unit :=
  encodeChunks rightCut encodeRA np at_.copy w

def decodeRAs (at_ : ItPosition) (w : UInt16) : Access (List Octet) :=
  decodeChunks rightCut decodeRA at_.copy w

/-! ## Numbers of at most 32 bits -/

/-- Octet `i` of a word as it stands in the host's memory. -/
def wordOctet (host : ByteOrder) (n : UInt32) (i : Nat) : Octet :=
  match host with
  | .big => BitVec.ofNat 8 (n.toNat / 2 ^ (8 * (3 - i)))
  | .little => BitVec.ofNat 8 (n.toNat / 2 ^ (8 * i))

/-- The word that stands in the host's memory as these four octets. -/
def octetsWord (host : ByteOrder) (o : Nat → Octet) : UInt32 :=
  let word (a b c d : Octet) :=
    UInt32.ofNat (((a.toNat * 256 + b.toNat) * 256 + c.toNat) * 256 + d.toNat)
  match host with
  | .big => word (o 0) (o 1) (o 2) (o 3)
  | .little => word (o 3) (o 2) (o 1) (o 0)

def htonl (host : ByteOrder) (h : UInt32) : UInt32 := octetsWord host (wordOctet .big h)

def ntohl (host : ByteOrder) (n : UInt32) : UInt32 := octetsWord .big (wordOctet host n)

/-- `np=((OCTSTR)&n)+uo`. A width over 32 would leave the word, which no caller
    asks for; the model stops there. -/
def encodeNUint (host : ByteOrder) (n : UInt32) (at_ : ItPosition) (w : UInt16) : Access Unit :=
  if 32 < w then abort
  else
    let uo := (32 - w.toNat) / 8
    encodeRAs (fun i => wordOctet host n (uo + i.toNat)) at_ w

def encodeUint (host : ByteOrder) (h : UInt32) (at_ : ItPosition) (w : UInt16) : Access Unit :=
  encodeNUint host (htonl host h) at_ w

def decodeNUint (host : ByteOrder) (at_ : ItPosition) (w : UInt16) : Access UInt32 :=
  if 32 < w then abort
  else do
    let uo := (32 - w.toNat) / 8
    let ds ← decodeRAs at_ w
    -- the octets before `uo` are those of `n=0`
    return octetsWord host fun i => if i < uo then 0 else ds.getD (i - uo) 0

def decodeUint (host : ByteOrder) (at_ : ItPosition) (w : UInt16) : Access UInt32 := do
  let n ← decodeNUint host at_ w
  return ntohl host n

end PvOctets

end Tahi.Pz

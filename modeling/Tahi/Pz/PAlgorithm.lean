import Tahi.General.RoundUp
import Tahi.Pz.PvOctetsUint

/-! # Security associations

A security association names a cipher and an authenticator. The lengths that an
ESP header is built and taken apart with come from here. The ciphers themselves
belong to a library outside the repository: they are a member of `MfCrypt`.
-/

namespace Tahi.Pz

open BitField

/-- A cipher. `keyed` tells `MfCryptKey` and its subclasses, whose arguments are
    a key, an initial vector and an alignment, from the null cipher, whose only
    argument is an alignment. `decrypt` is the deciphering of `l` octets. -/
structure MfCrypt where
  keyed : Bool
  ivecLength : UInt8
  alignUnit : UInt8
  decrypt : UInt32 → Memory → Memory
  unit_pos : 0 < alignUnit.toNat

/-- An authenticator. -/
structure MfAuth where
  icvLength : UInt8
  alignUnit : UInt8
  unit_pos : 0 < alignUnit.toNat

def MfAuth.hmacsha1 : MfAuth := ⟨12, 4, by decide⟩

namespace MfCrypt

def null_crypt : MfCrypt := ⟨false, 0, 1, fun _ is => is, by decide⟩

/-- `args[i]->intValue(ok)` is `none` where `ok` comes back false. -/
def alignTimes (m : MfCrypt) (args : List (Option Int32)) : UInt32 :=
  let i : Nat := if m.keyed then 2 else 0
  let n : UInt32 := match args[i]? with
    | some (some v) => v.toUInt32
    | _ => 1
  if n > 1 then n else 1

def alignment (m : MfCrypt) (args : List (Option Int32)) : UInt32 :=
  let n := m.alignTimes args
  let u := m.alignUnit.toUInt32
  if n > 1 then n * u else u

/-- The length has to be a multiple of the unit. A length that is not a multiple
    of the function's alignment is only logged. -/
def alignmentCheck (m : MfCrypt) (l : UInt32) : Bool := l % m.alignUnit.toUInt32 == 0

/-- The plain text and the initial vector. The length of the text is a difference
    of unsigned words. -/
def decryptOctets (m : MfCrypt) (cipher : PvOctets) : PvOctets × Option PvOctets :=
  let lcipher := cipher.length
  let ivlen := m.ivecLength.toUInt32
  let ldec := lcipher - ivlen
  let ivec := if ivlen > 0 then some ⟨ivlen, cipher.cell⟩ else none
  let is : Memory := fun i => cipher.cell (i + ivlen.toNat)
  (⟨ldec, if m.alignmentCheck ldec then m.decrypt ldec is else is⟩, ivec)

end MfCrypt

structure PfCrypt where
  metaClass : MfCrypt
  args : List (Option Int32)

structure PfAuth where
  metaClass : MfAuth

def PfAuth.alignment (a : PfAuth) : UInt32 := a.metaClass.alignUnit.toUInt32

def PfAuth.ICV_Length (a : PfAuth) : UInt32 := a.metaClass.icvLength.toUInt32

def roundN (num align : UInt32) : UInt32 := ((num + align - 1) / align) * align

namespace PfCrypt

def alignment (c : PfCrypt) : UInt32 := c.metaClass.alignment c.args

def Padding_Length (c : PfCrypt) (len : UInt32) (ah : Option PfAuth) : UInt32 :=
  let nah := match ah with
    | some a => a.alignment
    | none => 1
  let nalign := c.alignment
  let nalign := if nah > 1 then roundN nalign nah else nalign
  let total := if nalign > 1 then roundN len nalign else len
  total - len

end PfCrypt

/-- `PaESP`, with the octets its padding function starts from. -/
structure PaESP where
  crypt_ : Option PfCrypt
  auth_ : Option PfAuth
  pad_ : Nat → Octet

namespace PaESP

def ICV_Length (sa : PaESP) : UInt32 :=
  match sa.auth_ with
  | some a => a.ICV_Length
  | none => 0

def ivecLength (sa : PaESP) : UInt32 :=
  match sa.crypt_ with
  | some c => c.metaClass.ivecLength.toUInt32
  | none => 0

def Decrypted_Octets (sa : PaESP) (buf : PvOctets) : PvOctets × Option PvOctets :=
  match sa.crypt_ with
  | some c => c.metaClass.decryptOctets buf
  | none => (buf, none)

def Padding_Length (sa : PaESP) (decrypinglen : UInt32) : UInt32 :=
  match sa.crypt_ with
  | some c => c.Padding_Length decrypinglen sa.auth_
  | none => 0

def Padding_Octets (sa : PaESP) (len : UInt32) : List Octet := (List.range len.toNat).map sa.pad_

end PaESP

/-! ## The padding length -/

open RoundUp

/-- Rounding a word up is rounding up, as long as nothing wraps. -/
theorem roundN_toNat {num align : UInt32} (pos : 0 < align.toNat)
    (fits : num.toNat + align.toNat < 2 ^ 32) :
    (roundN num align).toNat = roundUp num.toNat align.toNat := by
  have sum : (num + align).toNat = num.toNat + align.toNat := by
    rw [UInt32.toNat_add]
    exact Nat.mod_eq_of_lt fits
  have one : (1 : UInt32) ≤ num + align := by
    rw [UInt32.le_iff_toNat_le, sum]
    exact Nat.le_add_left_of_le pos
  have before : (num + align - 1).toNat = num.toNat + align.toNat - 1 := by
    rw [UInt32.toNat_sub_of_le _ _ one, sum]
    rfl
  rw [roundN, UInt32.toNat_mul, UInt32.toNat_div, before]
  apply Nat.mod_eq_of_lt
  have below := roundUp_lt num.toNat pos
  rw [roundUp] at below
  omega

namespace PfCrypt

/-- The alignment of the authenticator, which is 1 where there is none. -/
def authAlignment (ah : Option PfAuth) : UInt32 :=
  match ah with
  | some a => a.alignment
  | none => 1

theorem authAlignment_bounds (ah : Option PfAuth) :
    0 < (authAlignment ah).toNat ∧ (authAlignment ah).toNat < 256 := by
  cases ah with
  | none => exact ⟨by decide, by decide⟩
  | some a =>
      have octet := a.metaClass.alignUnit.toNat_lt
      refine ⟨?_, ?_⟩
      · change 0 < a.metaClass.alignUnit.toUInt32.toNat
        rw [UInt8.toNat_toUInt32]
        exact a.metaClass.unit_pos
      · change a.metaClass.alignUnit.toUInt32.toNat < 256
        rw [UInt8.toNat_toUInt32]
        exact octet

/-- The alignment that the plain text is rounded up to. -/
def combinedAlignment (c : PfCrypt) (ah : Option PfAuth) : UInt32 :=
  if authAlignment ah > 1 then roundN c.alignment (authAlignment ah) else c.alignment

theorem Padding_Length_eq (c : PfCrypt) (len : UInt32) (ah : Option PfAuth) :
    c.Padding_Length len ah =
      (if c.combinedAlignment ah > 1 then roundN len (c.combinedAlignment ah) else len) - len := by
  cases ah with
  | none => rfl
  | some a => rfl

/-- The combined alignment of a cipher alignment that is not excessive. -/
theorem combinedAlignment_toNat {c : PfCrypt} (ah : Option PfAuth)
    (small : c.alignment.toNat ≤ 256) :
    (c.combinedAlignment ah).toNat =
      roundUp c.alignment.toNat (authAlignment ah).toNat := by
  obtain ⟨pos, octet⟩ := authAlignment_bounds ah
  unfold combinedAlignment
  by_cases more : authAlignment ah > 1
  · rw [if_pos more, roundN_toNat pos (by omega)]
  · have one : (authAlignment ah).toNat = 1 := by
      have : ¬1 < (authAlignment ah).toNat := fun h => more (UInt32.lt_iff_toNat_lt.mpr h)
      omega
    rw [if_neg more, one, roundUp, Nat.add_sub_cancel, Nat.div_one, Nat.mul_one]

/-- The padding fills the plain text up to a multiple of the combined alignment
    and is shorter than that. -/
theorem Padding_Length_spec (c : PfCrypt) (ah : Option PfAuth) (len : UInt32)
    (pos : 0 < (c.combinedAlignment ah).toNat)
    (fits : len.toNat + (c.combinedAlignment ah).toNat < 2 ^ 32) :
    len.toNat + (c.Padding_Length len ah).toNat =
      roundUp len.toNat (c.combinedAlignment ah).toNat := by
  rw [Padding_Length_eq]
  by_cases more : c.combinedAlignment ah > 1
  · have rounded := roundN_toNat pos fits
    have above := le_roundUp len.toNat pos
    rw [if_pos more, UInt32.toNat_sub_of_le _ _ (by
      rw [UInt32.le_iff_toNat_le, rounded]
      exact above), rounded]
    omega
  · have one : (c.combinedAlignment ah).toNat = 1 := by
      have : ¬1 < (c.combinedAlignment ah).toNat := fun h => more (UInt32.lt_iff_toNat_lt.mpr h)
      omega
    rw [if_neg more, UInt32.sub_self, one, roundUp, Nat.add_sub_cancel, Nat.div_one, Nat.mul_one]
    rfl

end PfCrypt

end Tahi.Pz

import Mathlib.Data.List.Basic

/-! # Socket addresses

Addresses are the octets of a `sockaddr`. Two link-local addresses are equal in different scopes
as well, but all octets are hashed.
-/

namespace Tahi.Cm

/-! ## The hash of octets

Octets are shifted in and the upper bits are mixed into the lower ones. Both are linear for
exclusive or, and the mixing loses nothing. -/

/-- A `char`, which is signed, in an expression of 32 bits. -/
def char (c : UInt8) : BitVec 32 := c.toBitVec.signExtend 32

/-- The loop of `basicHash`. -/
def shiftIn (v : BitVec 32) (s : List UInt8) : BitVec 32 := s.foldl (fun v c => v <<< 1 ^^^ char c) v

def mix (v : BitVec 32) : BitVec 32 :=
  let t := v >>> 10
  let t := t ^^^ t >>> 10
  v ^^^ t

/-- No octets stand for a null pointer as well. -/
def basicHash (s : List UInt8) : UInt32 := ⟨mix (shiftIn 0 s)⟩

theorem char_xor (c d : UInt8) : char (c ^^^ d) = char c ^^^ char d := by
  rw [char, UInt8.toBitVec_xor, BitVec.signExtend_xor]
  rfl

theorem shiftIn_xor {a b : List UInt8} (same : a.length = b.length) (v w : BitVec 32) :
    shiftIn (v ^^^ w) (List.zipWith (· ^^^ ·) a b) = shiftIn v a ^^^ shiftIn w b := by
  induction a generalizing b v w with
  | nil =>
      obtain rfl := List.length_eq_zero_iff.mp same.symm
      rfl
  | cons c a ih =>
      cases b with
      | nil => cases same
      | cons d b =>
          have step : (v ^^^ w) <<< 1 ^^^ char (c ^^^ d) =
              (v <<< 1 ^^^ char c) ^^^ (w <<< 1 ^^^ char d) := by
            rw [BitVec.shiftLeft_xor_distrib, char_xor]
            ac_rfl
          simp only [shiftIn, List.zipWith_cons_cons, List.foldl_cons, step]
          exact ih (Nat.succ.inj same) _ _

theorem mix_xor (v w : BitVec 32) : mix (v ^^^ w) = mix v ^^^ mix w := by
  simp only [mix, BitVec.ushiftRight_xor_distrib]
  ac_rfl

/-- What is mixed to nothing is nothing, from the top bit down. -/
theorem eq_zero_of_mix {v : BitVec 32} (none_ : mix v = 0) : v = 0 := by
  have bit (i : Nat) : v.getLsbD i = (v.getLsbD (10 + i) ^^ v.getLsbD (10 + (10 + i))) := by
    have zero : (mix v).getLsbD i = false := by
      rw [none_]
      exact BitVec.getLsbD_zero
    simp only [mix, BitVec.getLsbD_xor, BitVec.getLsbD_ushiftRight] at zero
    simpa using zero
  have above (n i : Nat) (high : 32 ≤ i + n) : v.getLsbD i = false := by
    induction n generalizing i with
    | zero => exact BitVec.getLsbD_of_ge v i high
    | succ n ih =>
        rw [bit, ih (10 + i) (by omega), ih (10 + (10 + i)) (by omega)]
        rfl
  apply BitVec.eq_of_getLsbD_eq
  intro i _
  rw [above 32 i (Nat.le_add_left 32 i)]
  exact BitVec.getLsbD_zero.symm

/-- The differences between octets cancel each other when they are shifted in. -/
def Cancels (a b : List UInt8) : Prop := shiftIn 0 (List.zipWith (· ^^^ ·) a b) = 0

instance decidableCancels (a b : List UInt8) : Decidable (Cancels a b) :=
  inferInstanceAs (Decidable (_ = _))

theorem shiftIn_cons (v : BitVec 32) (c : UInt8) (s : List UInt8) :
    shiftIn v (c :: s) = shiftIn (v <<< 1 ^^^ char c) s := rfl

theorem shiftIn_append (v : BitVec 32) (a b : List UInt8) :
    shiftIn v (a ++ b) = shiftIn (shiftIn v a) b := List.foldl_append

theorem zipWith_self (a : List UInt8) :
    List.zipWith (· ^^^ ·) a a = List.replicate a.length 0 := by
  induction a with
  | nil => rfl
  | cons c a ih =>
      rw [List.zipWith_cons_cons, ih, UInt8.xor_self]
      rfl

/-- Octets that are 0 shift only. -/
theorem shiftIn_zeros (v : BitVec 32) (n : Nat) : shiftIn v (List.replicate n 0) = v <<< n := by
  induction n generalizing v with
  | zero => exact (BitVec.shiftLeft_zero v).symm
  | succ n ih =>
      have zero : char 0 = 0#32 := by decide
      rw [List.replicate_succ, shiftIn_cons, ih, zero, BitVec.xor_zero, Nat.add_comm,
        BitVec.shiftLeft_add]

/-- A difference in one octet does not cancel, unless it is shifted out. -/
theorem not_cancels_single {first last : List UInt8} {c d : UInt8} (apart : c ≠ d)
    (near : last.length ≤ 24) : ¬Cancels (first ++ c :: last) (first ++ d :: last) := by
  intro cancels
  rw [Cancels, List.zipWith_append rfl, List.zipWith_cons_cons, zipWith_self, zipWith_self,
    shiftIn_append, shiftIn_zeros, shiftIn_cons, shiftIn_zeros] at cancels
  have zeros : ((0 : BitVec 32) <<< first.length) <<< 1 = 0#32 := by simp
  rw [zeros, BitVec.zero_xor] at cancels
  apply apart
  rw [← UInt8.toBitVec_inj, ← BitVec.xor_eq_zero_iff, ← UInt8.toBitVec_xor]
  apply BitVec.eq_of_getLsbD_eq
  intro i inside
  have bit : (char (c ^^^ d) <<< last.length).getLsbD (last.length + i) = false := by
    rw [cancels]
    exact BitVec.getLsbD_zero
  have low : last.length + i < 32 := by omega
  have low' : i < 32 := by omega
  simp only [char, BitVec.getLsbD_shiftLeft, BitVec.getLsbD_signExtend, low, low', inside,
    Nat.not_lt.mpr (Nat.le_add_right last.length i), Nat.add_sub_cancel_left, decide_true,
    decide_false, Bool.not_false, Bool.true_and, if_true] at bit
  exact bit.trans BitVec.getLsbD_zero.symm

theorem basicHash_eq_iff {a b : List UInt8} (same : a.length = b.length) :
    basicHash a = basicHash b ↔ Cancels a b := by
  have both : mix (shiftIn 0 a) ^^^ mix (shiftIn 0 b) =
      mix (shiftIn 0 (List.zipWith (· ^^^ ·) a b)) := by
    rw [← mix_xor, ← shiftIn_xor same]
    rfl
  rw [← UInt32.toBitVec_inj]
  change mix (shiftIn 0 a) = mix (shiftIn 0 b) ↔ _
  rw [← BitVec.xor_eq_zero_iff, both]
  refine ⟨eq_zero_of_mix, fun cancels => ?_⟩
  rw [show shiftIn 0 _ = 0 from cancels]
  rfl

/-! ## Addresses -/

/-- What the headers of a system define: how the first two octets give the family, its numbers,
    and whether `__KAME__` is defined. -/
structure System where
  sa_family : UInt8 → UInt8 → UInt16
  AF_UNIX : UInt16
  AF_INET : UInt16
  AF_INET6 : UInt16
  kame : Bool

namespace System

/-- The first octet is the length. -/
def freeBSD : System := ⟨fun _ family => family.toUInt16, 1, 2, 28, true⟩

def linux : System := ⟨fun low high => high.toUInt16 <<< 8 ||| low.toUInt16, 1, 2, 10, false⟩

def family (S : System) : List UInt8 → UInt16
  | [] | [_] => 0
  | first :: second :: _ => S.sa_family first second

end System

/-- The octets at `addr_`. There are none where it is a null pointer, and those of a `sockaddr_in6`
    at least where the family says so. -/
structure CmSockAddr (S : System) where
  octets : List UInt8
  inet6 : S.family octets = S.AF_INET6 → 28 ≤ octets.length
deriving DecidableEq

namespace CmSockAddr

variable {S : System}

def length (a : CmSockAddr S) : Nat := a.octets.length

def family (a : CmSockAddr S) : UInt16 := S.family a.octets

def field (a : CmSockAddr S) (at_ n : Nat) : List UInt8 := (a.octets.drop at_).take n

def sin6_port (a : CmSockAddr S) : List UInt8 := a.field 2 2

def sin6_flowinfo (a : CmSockAddr S) : List UInt8 := a.field 4 4

def sin6_addr (a : CmSockAddr S) : List UInt8 := a.field 8 16

def IN6_IS_ADDR_LINKLOCAL (addr : List UInt8) : Bool :=
  addr.getD 0 0 == 0xfe && addr.getD 1 0 &&& 0xc0 == 0x80

/-- `SET_IN6_LINKLOCAL_IFINDEX` with 0. Without KAME it is empty. -/
def clearIfindex (S : System) (addr : List UInt8) : List UInt8 :=
  if S.kame then (addr.set 2 0).set 3 0 else addr

def hash (a : CmSockAddr S) : UInt32 := basicHash a.octets

def isEqual (a o : CmSockAddr S) : Bool :=
  if a.length ≠ o.length then false
  else
    let f := a.family
    if f = S.AF_UNIX ∨ f = S.AF_INET then a.octets = o.octets
    else if f = S.AF_INET6 then
      if a.octets = o.octets then true
      else if !IN6_IS_ADDR_LINKLOCAL a.sin6_addr then false
      -- `inet6Addr` of the other is a null pointer.
      else if o.family ≠ S.AF_INET6 then false
      else if a.family ≠ o.family ∨ a.sin6_port ≠ o.sin6_port ∨
          a.sin6_flowinfo ≠ o.sin6_flowinfo then false
      else clearIfindex S a.sin6_addr = clearIfindex S o.sin6_addr
    else false

/-- The addresses differ in octets that do not cancel in the hash. -/
theorem hash_eq_iff {a o : CmSockAddr S} (equal : a.isEqual o) :
    a.hash = o.hash ↔ Cancels a.octets o.octets := by
  apply basicHash_eq_iff
  by_contra apart
  have lengths : a.length ≠ o.length := apart
  rw [isEqual, if_pos lengths] at equal
  cases equal

/-- Scopes that differ in one octet give different hashes, as does every other octet that has at
    most 24 octets behind it. -/
theorem hash_ne {a o : CmSockAddr S} {first last : List UInt8} {c d : UInt8}
    (mine : a.octets = first ++ c :: last) (other : o.octets = first ++ d :: last) (apart : c ≠ d)
    (near : last.length ≤ 24) : a.hash ≠ o.hash := by
  intro same
  rw [hash, hash, basicHash_eq_iff (by rw [mine, other]; simp), mine, other] at same
  exact not_cancels_single apart near same

end CmSockAddr

end Tahi.Cm

import Tahi.General.FuelLoop
import Tahi.General.PerlString
import Tahi.General.RoundUp

/-! # What the KINK decoders share

Each decoder cuts one payload off the front of the data, and returns the rest after the
padding in `remain`. The hashes are structures here; a key whose value is undefined is `none`.
-/

namespace Tahi.Kink

open Perl RoundUp FuelLoop

/-- How the process ends inside the decoder of a Kerberos error: at an element that has no place
    in its sequence, or when `unpack` is told to begin behind the end of the string. -/
inductive ASN1Exit where
  | unknownElement
  | outsideOfString
deriving DecidableEq, Repr

/-- How the process ends inside a decoder. -/
inductive Exit where
  | unknownNextPayload (sub : String) (next_payload : Nat)
  | asn1 (exit : ASN1Exit)
deriving DecidableEq, Repr

/-- The operators of Perl take the numbers for unsigned ones of 64 bits. -/
def align (length align : Int) : Nat :=
  (BitVec.ofInt 64 (length + (align - 1)) &&& ~~~ BitVec.ofInt 64 (align - 1)).toNat

/-- Without its last two bits a number is a multiple of 4. -/
theorem toNat_and_not_three (n : BitVec 64) : (n &&& ~~~ 3#64).toNat = n.toNat / 4 * 4 := by
  have mask (i : Nat) (lt : i < 64) : (3#64)[i] = decide (i < 2) := by
    rcases i with _ | _ | i
    · simp
    · simp
    · simp [BitVec.getElem_eq_testBit_toNat, Nat.testBit_succ]
  have shifted : n &&& ~~~ 3#64 = (n >>> 2) <<< 2 := by
    ext i lt
    rw [BitVec.getElem_and, BitVec.getElem_not, mask]
    by_cases low : i < 2
    · simp [low]
    · simp [low, show 2 + (i - 2) = i by omega, BitVec.getLsbD_eq_getElem lt]
  have fits := n.isLt
  rw [shifted, BitVec.toNat_shiftLeft, BitVec.toNat_ushiftRight, Nat.shiftRight_eq_div_pow,
    Nat.shiftLeft_eq]
  omega

/-- A length is rounded up to a multiple of 4. -/
theorem align_four {length : Nat} (fits : length < 2 ^ 32) : align length 4 = roundUp length 4 := by
  have start : BitVec.ofInt 64 (length + (4 - 1)) = BitVec.ofNat 64 (length + 3) :=
    BitVec.ofInt_natCast 64 (length + 3)
  simp only [align, start]
  have mask : BitVec.ofInt 64 (4 - 1) = 3#64 := rfl
  rw [mask, toNat_and_not_three, BitVec.toNat_ofNat, roundUp]
  omega

/-- What a decoder cuts off the data, and the fields that all payloads begin with. -/
structure Common where
  self : Str
  pad : Str
  pad_length : Int
  remain : Str
  nextPayload : Option Nat
  reserved : Option Nat
  payloadLength : Option Int
deriving DecidableEq, Repr

def cut (data : Str) (next_payload reserved : Option Nat) (length : Option Int) : Common :=
  let payload_length := length.getD 0
  let pad_length := align payload_length 4 - payload_length
  { self := substr data 0 (some payload_length)
    pad := substr data payload_length (some pad_length)
    pad_length
    remain := substr data (payload_length + pad_length) none
    nextPayload := next_payload
    reserved
    payloadLength := length }

/-- The common part of a payload whose first fields were unpacked with `C C n`. -/
def common (data : Str) (v : List Item) : Common :=
  cut data (Item.num? v[0]?) (Item.num? v[1]?) ((Item.num? v[2]?).map Nat.cast)

/-- `unpack('C C n')`. -/
def genericFields (data : Str) : List Item := unpack [.int 1, .int 1, .int 2] data.octets

/-- `$payload_length` where it is used as a number. -/
def Common.length (c : Common) : Int := c.payloadLength.getD 0

/-- The loops that go on as long as there is something left of the data, whatever the type
    octets say. -/
def restTurn {α ρ : Type} (decode : Nat → Str → Option α) (remain : α → Str) (push : ρ → α → ρ)
    (fuel : Nat) (s : Str × ρ) : Option (Turn (Str × ρ) ρ) :=
  if s.1.truth then (decode fuel s.1).map fun x => .next (remain x, push s.2 x)
  else some (.done s.2)

/-- The data that is left, the type of its first payload and what is decoded so far. -/
structure PayloadsState (α : Type) where
  data : Str
  next_payload : Option Nat
  payloads : List α
deriving DecidableEq, Repr

/-- The loops that the type octets drive, in the function `sub`. What the decoder of a payload
    gives says how they go on. -/
def typeTurn {α ξ : Type} (sub : String) (functions : Nat → Option (Nat → Str → Option ξ))
    (behind : PayloadsState α → ξ → Turn (PayloadsState α) (Except Exit (List α))) (fuel : Nat)
    (s : PayloadsState α) : Option (Turn (PayloadsState α) (Except Exit (List α))) :=
  if s.next_payload.getD 0 = 0 then some (.done (.ok s.payloads))
  else
    match functions (s.next_payload.getD 0) with
    | none => some (.done (.error (.unknownNextPayload sub (s.next_payload.getD 0))))
    | some decode => (decode fuel s.data).map (behind s)

end Tahi.Kink

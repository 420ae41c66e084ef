import Tahi.General.PointerChase
import Mathlib.Data.Set.Finite.Basic
import Mathlib.Data.Set.Finite.Lattice
import Mathlib.Algebra.Order.Ring.Int

/-! # Names in DNS messages

A name is a run of labels. It ends in an empty label or in a pointer to the rest of the
name, at any place of the same message.
-/

namespace Tahi.Dns

/-- What `kReg_DNS_Error` puts in `@strerror`. -/
structure StrError where
  file : String
  line : Nat
  function : String
  string : String
deriving DecidableEq, Repr

def kReg_DNS_Error (strerror : List StrError) (line : Nat) (function string : String) :
    List StrError :=
  strerror ++ [⟨"kDNS.pm", line, function, string⟩]

def kInit_DNS_Error : List StrError := []

/-- The hash `kDec_DNS_Name` returns. -/
structure Name where
  _size_ : Int
  compressed : Option (List UInt8)
  offset : Option Nat
  decompressed : Option (List UInt8)
deriving DecidableEq, Repr

/-- `unpack('n')` at an offset with two octets. -/
def unpackN (hi lo : UInt8) : Nat := hi.toNat * 256 + lo.toNat

/-- How the loop over the labels is left: at one of its errors, behind the empty label, or
    behind a pointer. -/
inductive LastLabel where
  | requires (line bytes : Nat)
  | empty (_offset_ : Nat) (_compressed_ : Option (List UInt8))
  | pointer (_offset_ _pointer_ : Nat) (_compressed_ : Option (List UInt8))
deriving DecidableEq, Repr

/-- The loop of `kDec_DNS_Name`. -/
def labels (data : List UInt8) (_offset_ : Nat) (_compressed_ : Option (List UInt8)) :
    LastLabel :=
  match data[_offset_]? with
  | none => .requires 411 (_offset_ + 1)
  | some labellen =>
      if labellen = 0 then .empty (_offset_ + 1) _compressed_
      else if labellen &&& 0xc0 = 0xc0 then
        match data[_offset_ + 1]? with
        | none => .requires 429 (_offset_ + 2)
        | some lo =>
            .pointer (_offset_ + 2) (unpackN labellen lo &&& 0x3fff) _compressed_
      -- Labels of 64 to 191 octets pass as well.
      else if data.length < _offset_ + 1 + labellen.toNat then
        .requires 462 (_offset_ + 1 + labellen.toNat)
      else
        labels data (_offset_ + 1 + labellen.toNat)
          (some (_compressed_.getD [] ++
            (data.drop (_offset_ + 1)).take labellen.toNat ++ ['.'.toUInt8]))
termination_by data.length - _offset_

/-- `kDec_DNS_Name` with calls of itself no deeper than `depth`: what is in `@strerror` and
    the name, when it returns. -/
@[grind =]
def kDec_DNS_Name (data : List UInt8) : Nat → Option Nat → Option (List StrError × Option Name)
  | 0, _ => none
  | depth + 1, offset =>
      let strerror := kInit_DNS_Error
      match labels data (offset.getD 0) none with
      | .requires line bytes =>
          some (kReg_DNS_Error strerror line "kDec_DNS_Name"
            s!"$datalen: {data.length} -- requires {bytes} bytes.", none)
      | .empty _offset_ _compressed_ =>
          some (strerror, some ⟨_offset_ - (offset.getD 0 : Nat), _compressed_, none, none⟩)
      | .pointer _offset_ _pointer_ _compressed_ =>
          match kDec_DNS_Name data depth (some _pointer_) with
          | none => none
          | some (strerror, none) =>
              some (kReg_DNS_Error strerror 444 "kDec_DNS_Name"
                "kDec_DNS_Name: decode failure.", none)
          | some (strerror, some decompressed) =>
              let rest :=
                if decompressed.offset.isSome then decompressed.decompressed
                else decompressed.compressed
              some (strerror, some ⟨_offset_ - (offset.getD 0 : Nat), _compressed_,
                some _pointer_, some (_compressed_.getD [] ++ rest.getD [])⟩)

/-- The hash `kDec_DNS_RR` returns. -/
structure RR where
  _size_ : Int
  name : Name
  type : Nat
  class_ : Nat
  ttl : Nat
  rdlength : Nat
  rdata : List UInt8
deriving DecidableEq, Repr

def be (octets : List UInt8) : Nat := octets.foldl (fun n b => 256 * n + b.toNat) 0

def kDec_DNS_RR (data : List UInt8) (depth : Nat) (offset : Option Nat) :
    Option (List StrError × Option RR) :=
  match kDec_DNS_Name data depth (some (offset.getD 0)) with
  | none => none
  | some (strerror, none) =>
      some (kReg_DNS_Error strerror 799 "kDec_DNS_RR" "NAME: decode failure.", none)
  | some (strerror, some _name_) =>
      let _offset_ := offset.getD 0 + _name_._size_
      if data.length - _offset_ < 10 then
        some (kReg_DNS_Error strerror 811 "kDec_DNS_RR"
          s!"$datalen: {data.length} -- requires {_name_._size_ + 10} bytes.", none)
      else
        let member (i n : Nat) := (data.drop (_offset_.toNat + i)).take n
        let _rdlength_ := be (member 8 2)
        -- Without octets in it the data is the number 0, which prints as a digit.
        let _rdata_ := if _rdlength_ = 0 then ['0'.toUInt8] else member 10 _rdlength_
        some (strerror, some ⟨_name_._size_ + 10 + _rdlength_, _name_, be (member 0 2),
          be (member 2 2), be (member 4 4), _rdlength_, _rdata_⟩)

/-- In the message `data` the labels from `a` on end in a pointer to `b`. -/
inductive PointsTo (data : List UInt8) : Nat → Nat → Prop
  | label {a b : Nat} {len : UInt8} (octet : data[a]? = some len) (nonempty : len ≠ 0)
      (plain : len &&& 0xc0 ≠ 0xc0) (whole : a + 1 + len.toNat ≤ data.length)
      (rest : PointsTo data (a + 1 + len.toNat) b) : PointsTo data a b
  | pointer {a : Nat} {hi lo : UInt8} (octet : data[a]? = some hi)
      (marked : hi &&& 0xc0 = 0xc0) (second : data[a + 1]? = some lo) :
      PointsTo data a (unpackN hi lo &&& 0x3fff)

theorem pointsTo_of_labels {data : List UInt8} {a o p : Nat} {c c' : Option (List UInt8)}
    (run : labels data a c = .pointer o p c') : PointsTo data a p := by
  fun_induction labels data a c with
  | case1 => cases run
  | case2 => cases run
  | case3 => cases run
  | case4 a c hi octet _ marked lo second =>
      cases run
      exact .pointer octet marked second
  | case5 => cases run
  | case6 a c len octet nonempty plain whole ih =>
      exact .label octet nonempty plain (Nat.le_of_not_lt whole) (ih run)

theorem labels_of_pointsTo {data : List UInt8} {a p : Nat} (points : PointsTo data a p)
    (c : Option (List UInt8)) : ∃ o c', labels data a c = .pointer o p c' := by
  induction points generalizing c with
  | label octet nonempty plain whole _ ih =>
      unfold labels
      simp only [octet, nonempty, plain, Nat.not_lt.mpr whole, if_false]
      exact ih _
  | @pointer a hi lo octet marked second =>
      have nonempty : hi ≠ 0 := by
        rintro rfl
        cases marked
      unfold labels
      simp only [octet, nonempty, marked, second, if_true, if_false]
      exact ⟨_, _, rfl⟩

/-- A pointer has fourteen bits. -/
theorem PointsTo.lt {data : List UInt8} {a b : Nat} (points : PointsTo data a b) :
    b < 2 ^ 14 := by
  induction points with
  | label _ _ _ _ _ ih => exact ih
  | pointer => exact Nat.and_lt_two_pow _ (by decide)

theorem PointsTo.finite (data : List UInt8) : {b | ∃ a, PointsTo data a b}.Finite := by
  apply (Set.finite_lt_nat (2 ^ 14)).subset
  rintro b ⟨a, points⟩
  exact points.lt

/-- Calls of `kDec_DNS_Name` that come back, for a depth of calls that is enough. -/
def Returns (data : List UInt8) (offset : Option Nat) : Prop :=
  ∃ depth, (kDec_DNS_Name data depth offset).isSome

/-- The offsets `kDec_DNS_Name` calls itself with. -/
@[grind =]
def calls (data : List UInt8) (a : Nat) : List Nat :=
  match labels data a none with
  | .pointer _ p _ => [p]
  | _ => []

theorem mem_calls {data : List UInt8} {a b : Nat} : b ∈ calls data a ↔ PointsTo data a b := by
  constructor
  · intro called
    cases run : labels data a none with
    | requires => simp [calls, run] at called
    | empty => simp [calls, run] at called
    | pointer o p c =>
        simp only [calls, run, List.mem_singleton] at called
        rw [called]
        exact pointsTo_of_labels run
  · intro points
    obtain ⟨o, c, run⟩ := labels_of_pointsTo points none
    simp [calls, run]

theorem isSome_succ (data : List UInt8) (depth a : Nat) :
    (kDec_DNS_Name data (depth + 1) (some a)).isSome =
      (calls data a).all fun p => (kDec_DNS_Name data depth (some p)).isSome := by
  unfold calls
  cases run : labels data a none with
  | requires => simp [kDec_DNS_Name, run]
  | empty => simp [kDec_DNS_Name, run]
  | pointer o p c =>
      cases inner : kDec_DNS_Name data depth (some p) with
      | none => simp [kDec_DNS_Name, run, inner]
      | some result =>
          rcases result with ⟨strerror, _ | name⟩ <;> simp [kDec_DNS_Name, run, inner]

theorem returns_iff_ends (data : List UInt8) (a : Nat) :
    Returns data (some a) ↔ PointerChase.Ends (PointsTo data) a := by
  have iff := @PointerChase.returns_iff_ends Nat (calls data)
    (fun depth a => (kDec_DNS_Name data depth (some a)).isSome) (fun a returns => by
      cases returns) (isSome_succ data) a
  simp only [mem_calls] at iff
  exact iff

/-- A record takes no more calls than the name in it. -/
theorem kDec_DNS_RR_isSome (data : List UInt8) (depth : Nat) (offset : Option Nat) :
    (kDec_DNS_RR data depth offset).isSome = (kDec_DNS_Name data depth offset).isSome := by
  have defaulted : kDec_DNS_Name data depth (some (offset.getD 0)) =
      kDec_DNS_Name data depth offset := by
    cases depth <;> rfl
  unfold kDec_DNS_RR
  rw [defaulted]
  split
  · rename_i h
    simp [h]
  · rename_i h
    simp [h]
  · rename_i h
    simp only [h]
    split <;> rfl

/-- A name is decoded unless its pointers lead into a circle. -/
theorem Returns.straight_iff (data : List UInt8) (offset : Nat) :
    Returns data (some offset) ↔ ¬ PointerChase.Circles (PointsTo data) offset := by
  rw [returns_iff_ends]
  exact PointerChase.ends_iff_not_circles (PointsTo.finite data)

/-- The two octets of a pointer to itself. -/
theorem Returns.not_self :
    ¬ ∀ (data : List UInt8) (offset : Nat), offset < data.length → Returns data (some offset) := by
  intro all
  have self : PointsTo [0xc0, 0] 0 0 := @PointsTo.pointer _ 0 0xc0 0 rfl rfl rfl
  have ends := (returns_iff_ends _ _).mp (all [0xc0, 0] 0 (by decide))
  exact ends.not_back (.single self)

end Tahi.Dns

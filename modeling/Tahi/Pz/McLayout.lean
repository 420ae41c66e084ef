import Tahi.General.Tiling
import Tahi.Pz.MmHeader

/-! # Compounds of plain fields

The members of most compounds are numbers, addresses, a data member for the rest
and headers that are compounds themselves. The leaves that are decoded from such a
compound lie one behind the other and fill it.
-/

namespace Tahi.Pz

open BitField Tiling MObject

/-- A normal position inside a window. -/
structure Place (buf : PvOctets) (at_ : ItPosition) : Prop where
  normal : at_.bits_.toNat < 8
  nonneg : 0 ≤ at_.bytes.toInt
  inside : at_.toBits ≤ 8 * buf.length.toNat

theorem Place.origin (buf : PvOctets) : Place buf ⟨0, 0⟩ := by
  refine ⟨by decide, by decide, ?_⟩
  change (0 : Int) ≤ _
  omega

theorem Place.bits_eq_zero {buf : PvOctets} {at_ : ItPosition} (_ : Place buf at_)
    (whole : at_.toBits % 8 = 0) : at_.bits = 0 := by
  have bits := at_.bits_lt
  rw [ItPosition.toBits] at whole
  apply UInt16.toNat_inj.mp
  change at_.bits.toNat = 0
  omega

/-- A plain compound member by member. A compound below it is reached by a reference
    to a header. -/
inductive Layout where
  | uint (string : String) (m : MmUint)
  | octets (string : String) (m : MmOctets)
  | data (string : String) (evalskip : Bool)
  | compound (string : String) (alignment_requirement : UInt32) (nextType_meta_ : Option String)
      (length_for_reverse : RControl → ItPosition → PvOctets → UInt32) (members : List Layout)

namespace Layout

mutual

def member : Layout → Member
  | uint string m => m.member string
  | octets string m => m.member string
  | data string evalskip => MmData.member string evalskip
  | compound string alignment_requirement nextType_meta_ length_for_reverse members =>
      ⟨id, MmTopHdr.reverse (McHeader.reverse nextType_meta_
        ⟨string, alignment_requirement, length_for_reverse, membersOf members⟩)⟩

def membersOf : List Layout → List Member
  | [] => []
  | l :: ls => member l :: membersOf ls

end

/-- The bit of its octet at which the member after `l` stands, if `l` stands at bit `b`
    of its octet. -/
def next (b : Int) : Layout → Int
  | uint _ m => (b + m.width.toNat) % 8
  | octets _ _ | data _ _ | compound _ _ _ _ _ => b

mutual

/-- Addresses and compounds stand at whole octets. -/
def Aligned (b : Int) : Layout → Prop
  | uint _ _ | data _ _ => True
  | octets _ _ => b = 0
  | compound _ _ _ _ members => b = 0 ∧ AllAligned 0 members

def AllAligned (b : Int) : List Layout → Prop
  | [] => True
  | l :: ls => Aligned b l ∧ AllAligned (next b l) ls

end

mutual

/-- Inside a window whose octets a signed word can count, no compound computes a
    length that it cannot. -/
def Small : Layout → Prop
  | uint _ _ | octets _ _ | data _ _ => True
  | compound _ _ _ length_for_reverse members =>
      (∀ c at_ buf, buf.length.toNat < 2 ^ 31 → Place buf at_ →
        (length_for_reverse c at_ buf).toNat < 2 ^ 31) ∧ AllSmall members

def AllSmall : List Layout → Prop
  | [] => True
  | l :: ls => Small l ∧ AllSmall ls

end

end Layout

/-- The bits of a decoded value. A number has the low bits of the size of its member. -/
def PvObject.bits (size : ItPosition) : PvObject → List Bool
  | .number n =>
      (List.range size.toBits.toNat).map fun i =>
        n.value.toUInt32.toNat.testBit (size.toBits.toNat - 1 - i)
  | .octets o => window (bit o.cell) 0 (8 * o.length.toNat)
  | .name => []

namespace RObject

mutual

/-- The leaves of an object whose parent starts at bit `base`. -/
def leaves (base : Int) : Decoded → List Piece
  | .mk _ offset size pvalue [] => [⟨base + offset.toBits, size.toBits, pvalue.bits size⟩]
  | .mk _ offset _ _ (r :: rest) =>
      leaves (base + offset.toBits) r ++ leavesOf (base + offset.toBits) rest

def leavesOf (base : Int) : List Decoded → List Piece
  | [] => []
  | r :: rest => leaves base r ++ leavesOf base rest

end

theorem leavesOf_append (base : Int) (l₁ l₂ : List Decoded) :
    leavesOf base (l₁ ++ l₂) = leavesOf base l₁ ++ leavesOf base l₂ := by
  induction l₁ with
  | nil => rfl
  | cons r rest ih => rw [List.cons_append, leavesOf, leavesOf, ih, List.append_assoc]

mutual

theorem leaves_shift (base d : Int) (r : Decoded) :
    leaves (base + d) r = (leaves base r).map (·.shift d) := by
  cases r with
  | mk m offset size pvalue children =>
      have moved : base + d + offset.toBits = base + offset.toBits + d := by ring
      cases children with
      | nil => simp only [leaves, List.map_cons, List.map_nil, Piece.shift, moved]
      | cons r rest =>
          rw [leaves, leaves, moved, List.map_append, leaves_shift, leavesOf_shift]
termination_by sizeOf r

theorem leavesOf_shift (base d : Int) (l : List Decoded) :
    leavesOf (base + d) l = (leavesOf base l).map (·.shift d) := by
  cases l with
  | nil => rfl
  | cons r rest => rw [leavesOf, leavesOf, List.map_append, leaves_shift, leavesOf_shift]
termination_by sizeOf l

end

end RObject

/-- A decoder that went from `at_` to `at'` has decoded what lies between. The values
    have the bits that stand there as far as the members are aligned. -/
structure Decoded.Fills (aligned : Prop) (buf : PvOctets) (at_ at' : ItPosition)
    (made : List Decoded) : Prop where
  place : Place buf at'
  tiles : Tiles at_.toBits at'.toBits (RObject.leavesOf 0 made)
  holds : aligned → ∀ p ∈ RObject.leavesOf 0 made, p.Holds (bit buf.cell)

namespace Decoded.Fills

variable {first_ then_ : Prop} {buf : PvOctets} {at_ at' : ItPosition} {made : List Decoded}

theorem nil (place : Place buf at_) : Fills True buf at_ at_ [] :=
  ⟨place, .nil _, fun _ _ member => absurd member List.not_mem_nil⟩

theorem imp (fills : Fills first_ buf at_ at' made) (weaker : then_ → first_) :
    Fills then_ buf at_ at' made :=
  ⟨fills.place, fills.tiles, fun aligned => fills.holds (weaker aligned)⟩

theorem append {u : ItPosition} {l₁ l₂ : List Decoded} (first : Fills first_ buf at_ u l₁)
    (second : Fills then_ buf u at' l₂) : Fills (first_ ∧ then_) buf at_ at' (l₁ ++ l₂) := by
  refine ⟨second.place, ?_, fun aligned p member => ?_⟩
  · rw [RObject.leavesOf_append]
    exact first.tiles.append second.tiles
  · rw [RObject.leavesOf_append] at member
    rcases List.mem_append.mp member with left_ | right_
    · exact first.holds aligned.1 p left_
    · exact second.holds aligned.2 p right_

end Decoded.Fills

/-- The bits of a window are bits of the buffer. -/
theorem bit_window (m : Memory) (a : Int) :
    bit (fun i => m (i + a)) = fun k => bit m (k + 8 * a) := by
  funext k
  have octet : (k + 8 * a) / 8 = k / 8 + a := by omega
  have place : (k + 8 * a) % 8 = k % 8 := by omega
  rw [bit, bit, octet, place]

namespace Place

variable {buf : PvOctets} {at_ : ItPosition}

theorem toNat_bytes (place : Place buf at_) :
    (at_.bytes.toUInt32.toNat : Int) = at_.bytes.toInt :=
  ItPosition.toNat_toUInt32 place.nonneg

/-- What is left of a window, as a number of octets. -/
theorem toNat_rest (place : Place buf at_) :
    ((buf.length - at_.bytes.toUInt32).toNat : Int) = buf.length.toNat - at_.bytes.toInt := by
  have octets := place.toNat_bytes
  have inside := place.inside
  have bits : at_.toBits = 8 * at_.bytes.toInt + at_.bits.toNat := rfl
  have le : at_.bytes.toUInt32 ≤ buf.length := UInt32.le_iff_toNat_le.mpr (by omega)
  rw [UInt32.toNat_sub_of_le _ _ le, ← octets]
  omega

theorem addBytes (place : Place buf at_) {x : Int32} : at_.addBytes x = at_.add ⟨x, 0⟩ := by
  have small := place.normal
  have remainder : at_.bits_ % 8 = at_.bits_ := by
    apply UInt16.toNat_inj.mp
    rw [ItPosition.toNat_mod_eight]
    exact Nat.mod_eq_of_lt small
  have carry : (at_.bits_ / 8).toNat = 0 := by
    rw [ItPosition.toNat_div_eight]
    exact Nat.div_eq_of_lt small
  have still : at_.addBits 0 = at_ := by
    have sum : at_.bits + 0 = at_.bits_ := by rw [ItPosition.bits, remainder, UInt16.add_zero]
    have octets : at_.bytes_ + Int32.ofNat 0 = at_.bytes_ := Int32.add_zero _
    rw [ItPosition.addBits, sum, carry, remainder, ItPosition.addBytes, octets]
  have none_ : (ItPosition.mk x 0).bits = 0 := rfl
  rw [ItPosition.add, none_, still, ItPosition.bytes_mk (by decide)]

/-- The bits of a window that starts at a whole octet. -/
theorem bit_substr (place : Place buf at_) (whole : at_.bits = 0) {l : UInt32} {w : PvOctets}
    (window : buf.substr at_.bytes.toUInt32 l = some w) :
    bit w.cell = fun k => bit buf.cell (k + at_.toBits) := by
  have octets := place.toNat_bytes
  have bits : at_.toBits = 8 * at_.bytes.toInt := by
    rw [ItPosition.toBits, whole]
    exact add_zero _
  rw [PvOctets.substr] at window
  split at window
  · cases window
  · cases window
    rw [bit_window, octets, bits]

end Place

theorem ItPosition.toBits_octets_nat {u : UInt32} (small : u.toNat < 2 ^ 31) :
    (mk u.toInt32 0).toBits = (8 * u.toNat : Nat) := by
  rw [toBits_octets small]
  push_cast
  rfl

section

variable {buf : PvOctets} {at_ size : ItPosition}

/-- A leaf that moves the position by its size fills what it moved over. -/
theorem fills_leaf {aligned : Prop} (countable : buf.length.toNat < 2 ^ 31) (place : Place buf at_) {n : Nat}
    (forward : 0 ≤ size.bytes.toInt) (width : size.toBits = n)
    (fits : check_decode_limit at_ buf size = true) (string : String) {pv : PvObject}
    (bits : aligned → pv.bits size = window (bit buf.cell) at_.toBits n) :
    Decoded.Fills aligned buf at_ (at_.add size) [.mk string at_ size pv []] ∧
      (at_.add size).toBits = at_.toBits + n := by
  rw [check_decode_limit_toBits countable place.nonneg place.inside forward,
    decide_eq_true_iff] at fits
  obtain ⟨normal, nonneg, moved⟩ := ItPosition.toBits_add place.normal place.nonneg forward
    (by omega)
  have leaf : RObject.leavesOf 0 [RObject.mk string at_ size pv []] =
      [⟨at_.toBits, n, pv.bits size⟩] := by
    simp [RObject.leavesOf, RObject.leaves, width]
  refine ⟨⟨⟨normal, nonneg, by omega⟩, ?_, fun whole p member => ?_⟩, by rw [moved, width]⟩
  · rw [leaf, moved, width]
    exact .single _ _ _
  · rw [leaf, List.mem_singleton] at member
    rw [member]
    exact bits whole

end

namespace MmUint

theorem size_toBits (m : MmUint) :
    0 ≤ (m.stepPostion ⟨0, 0⟩).bytes.toInt ∧
      (m.stepPostion ⟨0, 0⟩).toBits = m.width.toNat := by
  have width := m.fits
  have origin : (ItPosition.mk 0 0).toBits = 0 := rfl
  obtain ⟨_, nonneg, moved⟩ := @ItPosition.toBits_addBits ⟨0, 0⟩ m.width (by decide)
    (by omega) (by decide) (by omega)
  have same : m.stepPostion ⟨0, 0⟩ = (ItPosition.mk 0 0).addBits m.width := by
    rw [stepPostion, MmElement.stepPostion, ItPosition.addBytes]
    exact congrArg (ItPosition.mk · _) (Int32.add_zero _)
  rw [same]
  exact ⟨nonneg, by rw [moved, origin, zero_add]⟩

theorem reversePv_bits (m : MmUint) {at_ : ItPosition} {buf : PvOctets} :
    (m.reversePv at_ (m.stepPostion ⟨0, 0⟩) buf).bits (m.stepPostion ⟨0, 0⟩) =
      window (bit buf.cell) at_.toBits m.width.toNat := by
  have word : BitField.value buf.cell at_.toBits m.width.toNat < 2 ^ 32 :=
    Nat.lt_of_lt_of_le (value_lt _ _ _) (Nat.pow_le_pow_right (by decide) m.fits)
  have number : (buf.uintAt at_ m.width).toInt32.toUInt32.toNat =
      BitField.value buf.cell at_.toBits m.width.toNat := by
    rw [UInt32.toUInt32_toInt32, PvOctets.uintAt]
    exact UInt32.toNat_ofNat_of_lt' word
  simp only [reversePv, PvObject.bits, PvNumber.value, number, m.size_toBits.2, Int.toNat_natCast]
  apply List.map_congr_left
  intro i member
  have inside := List.mem_range.mp member
  have index : at_.toBits + (m.width.toNat : Int) - 1 - (m.width.toNat - 1 - i : Nat) =
      at_.toBits + i := by omega
  rw [testBit_value, index, decide_eq_true (by omega), Bool.true_and]

theorem reverse_fills {m : MmUint} {string : String}
    {ForIPinfo : Option (Con_IPinfo → Decoded → PvOctets → Con_IPinfo)} {c : RControl}
    {at_ : ItPosition} {buf : PvOctets} {r : Reversed} (countable : buf.length.toNat < 2 ^ 31)
    (place : Place buf at_) (run : m.reverse string ForIPinfo c at_ buf = .ok r)
    (noError : r.c.error = false) :
    Decoded.Fills True buf at_ r.at_ r.made ∧ r.at_.toBits = at_.toBits + m.width.toNat := by
  rw [reverse] at run
  obtain ⟨fits, moved, made⟩ := MmElement.reverseWith_leaf run noError
  rw [moved, made]
  exact fills_leaf countable place m.size_toBits.1 m.size_toBits.2 fits string
    fun _ => m.reversePv_bits

end MmUint

namespace MmOctets

theorem size_toBits (m : MmOctets) :
    0 ≤ (m.stepPostion ⟨0, 0⟩).bytes.toInt ∧
      (m.stepPostion ⟨0, 0⟩).toBits = (8 * m.length.toNat : Nat) := by
  have origin : (ItPosition.mk 0 0).addBits 0 = ⟨0, 0⟩ := by decide
  have same : m.stepPostion ⟨0, 0⟩ = ⟨m.length.toInt32, 0⟩ := by
    rw [stepPostion, MmElement.stepPostion, origin, ItPosition.addBytes, Int32.zero_add]
  rw [same, ItPosition.bytes_mk (by decide), ItPosition.toInt_toInt32 m.countable,
    ItPosition.toBits_octets m.countable]
  exact ⟨Int.natCast_nonneg _, by push_cast; rfl⟩

theorem reversePv_bits (m : MmOctets) {at_ : ItPosition} {buf : PvOctets}
    (whole : at_.bits = 0) (size : ItPosition) :
    (m.reversePv at_ size buf).bits size =
      window (bit buf.cell) at_.toBits (8 * m.length.toNat) := by
  have place : at_.toBits = 0 + 8 * at_.bytes.toInt := by
    rw [ItPosition.toBits, whole]
    simp
  rw [reversePv, PvObject.bits, bit_window, window_shift, place]

theorem reverse_fills {m : MmOctets} {string : String}
    {ForIPinfo : Option (Con_IPinfo → Decoded → PvOctets → Con_IPinfo)} {c : RControl}
    {at_ : ItPosition} {buf : PvOctets} {r : Reversed} (countable : buf.length.toNat < 2 ^ 31)
    (place : Place buf at_) (run : m.reverse string ForIPinfo c at_ buf = .ok r)
    (noError : r.c.error = false) :
    Decoded.Fills (at_.bits = 0) buf at_ r.at_ r.made ∧
      r.at_.toBits = at_.toBits + (8 * m.length.toNat : Nat) := by
  rw [reverse] at run
  obtain ⟨fits, moved, made⟩ := MmElement.reverseWith_leaf run noError
  rw [moved, made]
  exact fills_leaf countable place m.size_toBits.1 m.size_toBits.2 fits string
    fun whole => m.reversePv_bits whole _

end MmOctets

namespace MmData

/-- A data member takes what is left. It is an error if that is not whole octets. -/
theorem reverse_fills {string : String} {evalskip : Bool} {c : RControl} {at_ : ItPosition}
    {buf : PvOctets} {r : Reversed} (countable : buf.length.toNat < 2 ^ 31)
    (place : Place buf at_) (run : reverse string evalskip c at_ buf = .ok r)
    (noError : r.c.error = false) :
    Decoded.Fills True buf at_ r.at_ r.made ∧ r.at_.toBits % 8 = at_.toBits % 8 := by
  have rest : (buf.remainLength at_.bytes.toUInt32).toUInt32 =
      buf.length - at_.bytes.toUInt32 := UInt32.toUInt32_toInt32 _
  have small : (buf.length - at_.bytes.toUInt32).toNat < 2 ^ 31 := by
    have left_ := place.toNat_rest
    have start := place.nonneg
    omega
  simp only [reverse, rest, check_decode_limit_rest, decide_eq_true_eq] at run
  generalize length : buf.length - at_.bytes.toUInt32 = l at run small
  by_cases skip : (evalskip && l == 0) = true
  · rw [if_pos skip] at run
    cases run
    exact ⟨.nil place, rfl⟩
  · rw [if_neg skip] at run
    by_cases whole : at_.bits = 0
    · rw [if_pos whole] at run
      cases window : buf.substr at_.bytes.toUInt32 l with
      | none => simp [window] at run
      | some pv =>
          simp only [window] at run
          cases run
          have fits : check_decode_limit at_ buf ⟨l.toInt32, 0⟩ = true := by
            rw [← length, check_decode_limit_rest, decide_eq_true whole]
          have forward : 0 ≤ (ItPosition.mk l.toInt32 0).bytes.toInt := by
            rw [ItPosition.bytes_mk (by decide), ItPosition.toInt_toInt32 small]
            omega
          have bits : (PvObject.octets pv).bits ⟨l.toInt32, 0⟩ =
              Tiling.window (bit buf.cell) at_.toBits (8 * l.toNat) := by
            rw [PvObject.bits, PvOctets.length_substr window, place.bit_substr whole window,
              window_shift, zero_add]
          obtain ⟨fills, moved⟩ := fills_leaf countable place forward
            (ItPosition.toBits_octets_nat small) fits string fun _ : True => bits
          exact ⟨fills, by simp only [moved]; omega⟩
    · rw [if_neg whole] at run
      cases run
      cases noError

end MmData

/-- A position moves to the end of a window. -/
theorem PvOctets.toNat_bytes_addBytes {buf w : PvOctets} {at_ : ItPosition} {l : UInt32}
    {borrow : Nat} (window : buf.substr at_.bytes.toUInt32 l = some w)
    (fits : l.toNat + borrow ≤ (buf.length - at_.bytes.toUInt32).toNat) :
    (at_.addBytes l.toInt32).bytes.toUInt32.toNat = at_.bytes.toUInt32.toNat + l.toNat := by
  have moved : (at_.addBytes l.toInt32).bytes = at_.bytes + l.toInt32 := by
    simp only [ItPosition.bytes, ItPosition.addBytes]
    ac_rfl
  rw [substr] at window
  split at window
  · cases window
  · have le := UInt32.not_lt.mp ‹_›
    have below := buf.length.toNat_lt
    have start := UInt32.le_iff_toNat_le.mp le
    rw [UInt32.toNat_sub_of_le _ _ le] at fits
    rw [moved, Int32.toUInt32_add, UInt32.toUInt32_toInt32, UInt32.toNat_add]
    omega

namespace Layout

variable {aligned : Prop}

/-- The members of a window whose octets a signed word can count, and what they leave
    over, fill the window. -/
theorem window_fills {members : List Member} {c c' : RControl} {buf : PvOctets}
    {children : List Decoded} (countable : buf.length.toNat < 2 ^ 31)
    (loop : ∀ {memat made}, McObject.membersLoop members c ⟨0, 0⟩ buf = .ok (c', memat, made) →
      Decoded.Fills aligned buf ⟨0, 0⟩ memat made)
    (run : McObject.members_reverse McNeedless.reverse members c ⟨0, 0⟩ buf = .ok (c', children))
    (noError : c'.error = false) :
    Tiles 0 (8 * buf.length.toNat : Nat) (RObject.leavesOf 0 children) ∧
      (aligned → ∀ p ∈ RObject.leavesOf 0 children, p.Holds (bit buf.cell)) := by
  obtain ⟨memat, made, members, left_⟩ := McObject.members_reverse_ok run noError
  have fills := loop members
  have place := fills.place
  have start := place.nonneg
  have inside := place.inside
  have bits : memat.toBits = 8 * memat.bytes.toInt + memat.bits.toNat := rfl
  have octets := place.toNat_rest
  have remain : (buf.remainLength memat.bytes.toUInt32).toInt =
      buf.length.toNat - memat.bytes.toInt := by
    rw [PvOctets.remainLength, ItPosition.toInt_toInt32 (by omega), octets]
  rcases left_ with ⟨none_, rfl⟩ | ⟨some_, whole, w, window, rfl⟩
  · have none_ := Int32.le_iff_toInt_le.mp none_
    rw [remain] at none_
    change _ ≤ (0 : Int) at none_
    have reached : memat.toBits = (8 * buf.length.toNat : Nat) := by omega
    exact ⟨reached ▸ fills.tiles, fills.holds⟩
  · have size := PvOctets.length_substr window
    have same := place.bit_substr whole window
    have leaf : RObject.leavesOf 0 [McNeedless.object memat w] =
        [⟨memat.toBits, (8 * w.length.toNat : Nat),
          Tiling.window (bit buf.cell) memat.toBits (8 * w.length.toNat)⟩] := by
      have origin : (ItPosition.mk 0 0).toBits = 0 := rfl
      have width := ItPosition.toBits_octets_nat (u := w.length) (by rw [size]; omega)
      simp only [McNeedless.object, RObject.leavesOf, RObject.leaves, PvObject.bits, origin, width,
        same, window_shift, zero_add, add_zero, List.append_nil]
    have none_ : memat.bits.toNat = 0 := by
      rw [whole]
      rfl
    have reached : (8 * buf.length.toNat : Nat) = memat.toBits + (8 * w.length.toNat : Nat) := by
      rw [size]
      omega
    rw [RObject.leavesOf_append, leaf, reached]
    refine ⟨fills.tiles.append (.single _ _ _), fun whole p member => ?_⟩
    rcases List.mem_append.mp member with first | last
    · exact fills.holds whole p first
    · rw [List.mem_singleton.mp last]
      rfl

/-- A compound fills what it moves over, if its members fill its window up to where
    they stop. -/
theorem compound_fills {mc : McObject} {c : RControl} {at_ : ItPosition} {buf : PvOctets}
    {r : Reversed} (countable : buf.length.toNat < 2 ^ 31) (place : Place buf at_)
    (small : (mc.length_for_reverse c at_ buf).toNat < 2 ^ 31)
    (run : mc.reverse c at_ buf = .ok r) (noError : r.c.error = false)
    (loop : ∀ {c₀ memat made} {w : PvOctets}, w.length = mc.length_for_reverse c at_ buf →
      McObject.membersLoop mc.members_ c₀ ⟨0, 0⟩ w = .ok (r.c, memat, made) →
        Decoded.Fills aligned w ⟨0, 0⟩ memat made) :
    Decoded.Fills (at_.bits = 0 ∧ aligned) buf at_ r.at_ r.made ∧
      r.at_.toBits = at_.toBits + (8 * (mc.length_for_reverse c at_ buf).toNat : Nat) := by
  obtain ⟨c₀, w, children, _, fits, window, members, position, object, made⟩ :=
    McObject.reverse_ok run noError
  have size := PvOctets.length_substr window
  obtain ⟨inner, holds⟩ := window_fills (by rw [size]; exact small) (loop size) members noError
  rw [size] at inner
  rw [made, object, position]
  generalize mc.length_for_reverse c at_ buf = l at fits size inner small window
  have forward : 0 ≤ (ItPosition.mk l.toInt32 0).bytes.toInt := by
    rw [ItPosition.bytes_mk (by decide), ItPosition.toInt_toInt32 small]
    omega
  have bits (whole : at_.bits = 0) : (PvObject.octets w).bits ⟨l.toInt32, 0⟩ =
      Tiling.window (bit buf.cell) at_.toBits (8 * l.toNat) := by
    rw [PvObject.bits, size, place.bit_substr whole window, window_shift, zero_add]
  obtain ⟨fills, moved⟩ := fills_leaf countable place forward (ItPosition.toBits_octets_nat small)
    fits mc.string fun whole : at_.bits = 0 ∧ aligned => bits whole.1
  rw [place.addBytes]
  refine ⟨?_, moved⟩
  cases children with
  | nil => exact fills
  | cons r rest =>
      have shifted : RObject.leavesOf 0 [RObject.mk mc.string at_ ⟨l.toInt32, 0⟩
          (PvObject.octets w) (r :: rest)] =
          (RObject.leavesOf 0 (r :: rest)).map (·.shift at_.toBits) := by
        rw [← RObject.leavesOf_shift, RObject.leavesOf, RObject.leaves, RObject.leavesOf,
          RObject.leavesOf, List.append_nil]
      rw [Option.toList_some]
      refine ⟨fills.place, ?_, fun whole p member => ?_⟩
      · have placed := inner.shift at_.toBits
        rw [zero_add, add_comm] at placed
        rw [shifted, moved]
        exact placed
      · rw [shifted] at member
        obtain ⟨q, inside, rfl⟩ := List.mem_map.mp member
        have held := holds whole.2 q inside
        rw [place.bit_substr whole.1 window] at held
        exact held.shift

mutual

theorem member_fills {l : Layout} {c : RControl} {at_ : ItPosition} {buf : PvOctets}
    {r : Reversed} (small : l.Small) (countable : buf.length.toNat < 2 ^ 31)
    (place : Place buf at_) (run : l.member.reverse c at_ buf = .ok r)
    (noError : r.c.error = false) :
    Decoded.Fills (l.Aligned (at_.toBits % 8)) buf at_ r.at_ r.made ∧
      r.at_.toBits % 8 = l.next (at_.toBits % 8) := by
  cases l with
  | uint string m =>
      simp only [member, MmUint.member] at run
      obtain ⟨fills, reached⟩ := MmUint.reverse_fills countable place run noError
      exact ⟨fills, by rw [reached, next]; omega⟩
  | octets string m =>
      simp only [member, MmOctets.member] at run
      obtain ⟨fills, reached⟩ := MmOctets.reverse_fills countable place run noError
      exact ⟨fills.imp place.bits_eq_zero, by rw [reached, next]; omega⟩
  | data string evalskip =>
      simp only [member, MmData.member] at run
      exact MmData.reverse_fills countable place run noError
  | compound string alignment_requirement nextType_meta_ length_for_reverse members =>
      obtain ⟨small, inner⟩ := small
      simp only [member, MmTopHdr.reverse_eq] at run
      obtain ⟨s, decoded, error, position, object, made⟩ := McHeader.reverse_ok run
      rw [← error] at noError
      have short := small (c.setDictType .other) at_ buf countable place
      obtain ⟨fills, reached⟩ := compound_fills countable place short decoded noError
        fun size loop => members_fill inner (size ▸ short) (.origin _) loop noError
      rw [← position, ← made]
      refine ⟨fills.imp fun aligned => ⟨place.bits_eq_zero aligned.1, aligned.2⟩, ?_⟩
      rw [reached, next]
      omega
termination_by sizeOf l

/-- The members of a plain compound, by induction on the members. -/
theorem members_fill {ls : List Layout} {c c' : RControl} {memat memat' : ItPosition}
    {buf : PvOctets} {made : List Decoded} (small : AllSmall ls)
    (countable : buf.length.toNat < 2 ^ 31) (place : Place buf memat)
    (run : McObject.membersLoop (membersOf ls) c memat buf = .ok (c', memat', made))
    (noError : c'.error = false) :
    Decoded.Fills (AllAligned (memat.toBits % 8) ls) buf memat memat' made := by
  cases ls with
  | nil =>
      cases run
      exact .nil place
  | cons l ls =>
      obtain ⟨r, rest, first, noError', others, rfl⟩ := McObject.membersLoop_cons run noError
      obtain ⟨fills, phase⟩ := member_fills small.1 countable place first noError'
      have last := members_fill small.2 countable fills.place others noError
      rw [phase] at last
      exact fills.append last
termination_by sizeOf ls

end

/-- The leaves of a compound lie one behind the other and fill its octets, of which they
    have the bits if every member that reads whole octets stands at one. -/
theorem reverse_tiles {string : String} {alignment_requirement : UInt32}
    {length_for_reverse : RControl → ItPosition → PvOctets → UInt32} {members : List Layout}
    {c : RControl} {at_ : ItPosition} {buf : PvOctets} {r : Reversed}
    (countable : (length_for_reverse c at_ buf).toNat < 2 ^ 31) (small : AllSmall members)
    (run : McObject.reverse
      ⟨string, alignment_requirement, length_for_reverse, membersOf members⟩ c at_ buf = .ok r)
    (noError : r.c.error = false) :
    ∃ w children,
      buf.substr at_.bytes.toUInt32 (length_for_reverse c at_ buf) = some w ∧
      r.made = [.mk string at_ ⟨(length_for_reverse c at_ buf).toInt32, 0⟩ (.octets w) children] ∧
      Tiles 0 (8 * w.length.toNat : Nat) (RObject.leavesOf 0 children) ∧
      ((RObject.leavesOf 0 children).map Piece.width).sum =
        (8 * (length_for_reverse c at_ buf).toNat : Nat) ∧
      (AllAligned 0 members → (RObject.leavesOf 0 children).flatMap Piece.bits =
        window (bit w.cell) 0 (8 * w.length.toNat)) ∧
      r.at_.bytes.toUInt32.toNat =
        at_.bytes.toUInt32.toNat + (length_for_reverse c at_ buf).toNat ∧
      r.at_.bits = at_.bits := by
  obtain ⟨c₀, w, children, _, fits, window_, decoded, position, object, made⟩ :=
    McObject.reverse_ok run noError
  have size := PvOctets.length_substr window_
  have countable' : w.length.toNat < 2 ^ 31 := size ▸ countable
  obtain ⟨tiles, holds⟩ := window_fills countable'
    (fun loop => members_fill small countable' (.origin w) loop noError) decoded noError
  refine ⟨w, children, window_, by rw [made, object]; rfl, tiles, ?_, fun aligned => ?_, ?_, ?_⟩
  · rw [tiles.sum_width, size, sub_zero]
  · rw [tiles.flatMap_bits (holds aligned), sub_zero, Int.toNat_natCast]
  · rw [position]
    exact PvOctets.toNat_bytes_addBytes window_ (le_of_check countable fits)
  · rw [position]
    rfl

/-- An option of padding that has the length of the padding in its second octet. -/
def padN : McObject :=
  ⟨"Opt_PadN", 0, fun _ at_ buf => (MmUint.mk 8 MmUint.octet_pos MmUint.octet_fits).value ⟨1, 0⟩ at_ buf + 2,
    membersOf [.uint "Type" ⟨8, MmUint.octet_pos, MmUint.octet_fits⟩,
      .uint "Length" ⟨8, MmUint.octet_pos, MmUint.octet_fits⟩, .data "pad" false]⟩

/-- Two octets of padding, and an octet behind them. -/
theorem reverse_tiles_padN :
    ∃ r w children,
      padN.reverse {} ⟨0, 0⟩ ⟨5, fun i => [1, 2, 0xaa, 0xbb, 0xcc].getD i.toNat 0⟩ = .ok r ∧
      r.made = [.mk "Opt_PadN" ⟨0, 0⟩ ⟨4, 0⟩ (.octets w) children] ∧
      (RObject.leavesOf 0 children).flatMap Piece.bits =
        window (bit w.cell) 0 (8 * w.length.toNat) ∧
      r.at_.bytes.toUInt32.toNat = 0 + 4 := by
  obtain ⟨r, run, noError⟩ : ∃ r,
      padN.reverse {} ⟨0, 0⟩ ⟨5, fun i => [1, 2, 0xaa, 0xbb, 0xcc].getD i.toNat 0⟩ = .ok r ∧
        r.c.error = false := ⟨_, rfl, rfl⟩
  obtain ⟨w, children, _, made, _, _, bits, moved, _⟩ :=
    reverse_tiles (by decide) (by exact ⟨trivial, trivial, trivial, trivial⟩) run noError
  exact ⟨r, w, children, run, made, bits ⟨trivial, trivial, trivial, trivial⟩, moved⟩

/-- An address inside an octet is read from the start of that octet. A length that a
    signed word cannot count makes an object of a negative size. -/
theorem misaligned_differs :
    (∃ r w children,
      McObject.reverse ⟨"", 0, fun _ _ _ => 5, membersOf
        [.uint "" ⟨4, by decide, by decide⟩, .octets "" ⟨4, by decide⟩,
          .uint "" ⟨4, by decide, by decide⟩]⟩ {} ⟨0, 0⟩
        ⟨5, fun i => [0x12, 0x34, 0x56, 0x78, 0x9a].getD i.toNat 0⟩ = .ok r ∧
      r.c.error = false ∧ r.made = [.mk "" ⟨0, 0⟩ ⟨5, 0⟩ (.octets w) children] ∧
      (RObject.leavesOf 0 children).flatMap Piece.bits ≠ window (bit w.cell) 0 40) ∧
    ∃ r w children,
      McObject.reverse ⟨"", 0, fun _ _ _ => 0x80000001, membersOf [.data "" false]⟩ {} ⟨0, 0⟩
        ⟨0, fun _ => 0⟩ = .ok r ∧
      r.c.error = false ∧
      r.made = [.mk "" ⟨0, 0⟩ ⟨(0x80000001 : UInt32).toInt32, 0⟩ (.octets w) children] ∧
      ((RObject.leavesOf 0 children).map Piece.width).sum < 0 :=
  ⟨⟨_, _, _, rfl, rfl, rfl, by decide⟩, ⟨_, _, _, rfl, rfl, rfl, by decide⟩⟩

end Layout

end Tahi.Pz

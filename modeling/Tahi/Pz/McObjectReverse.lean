import Tahi.Pz.McObject

/-! # What a decoded compound is made of

One lemma for each decoder says what a call of it does, so that the properties of a
decoded packet follow without unfolding the decoders again.
-/

namespace Tahi.Pz

open MObject

namespace MObject

/-- What is left fits what is left, unless the position is inside an octet. -/
theorem check_decode_limit_rest (buf : PvOctets) (at_ : ItPosition) :
    check_decode_limit at_ buf ⟨(buf.length - at_.bytes.toUInt32).toInt32, 0⟩ =
      decide (at_.bits = 0) := by
  have left_ : (buf.length - at_.bytes.toUInt32).toInt32 = buf.length.toInt32 - at_.bytes := by
    rw [UInt32.toInt32_sub, Int32.toInt32_toUInt32]
  rw [check_decode_limit_octets, left_]
  cases whole : decide (at_.bits = 0) with
  | true =>
      rw [if_pos (of_decide_eq_true whole), Int32.sub_zero, Int32.sub_self]
      decide
  | false =>
      have back : buf.length.toInt32 - at_.bytes - 1 - (buf.length.toInt32 - at_.bytes) = -1 := by
        grind
      rw [if_neg (of_decide_eq_false whole), back]
      decide

end MObject

namespace ItPosition

theorem add_octets (o x : Int32) : (mk o 0).add ⟨x, 0⟩ = ⟨o + x, 0⟩ := by
  have bytes : (mk x 0).bytes = x := bytes_mk (by decide)
  have whole : (mk x 0).bits = 0 := rfl
  have none_ : Int32.ofNat (((0 : UInt16) % 8 + 0) / 8).toNat = 0 := by decide
  have zero : ((0 : UInt16) % 8 + 0) % 8 = 0 := by decide
  simp only [add, bytes, whole, addBits, bits_mk, none_, zero, addBytes, Int32.add_zero]

end ItPosition

namespace PvOctets

theorem length_substr {o w : PvOctets} {n l : UInt32} (window : o.substr n l = some w) :
    w.length = l := by
  rw [substr] at window
  split at window
  · cases window
  · cases window
    rfl

theorem le_of_substr {o w : PvOctets} {n l : UInt32} (window : o.substr n l = some w) :
    n ≤ o.length := by
  rw [substr] at window
  split at window
  · cases window
  · exact UInt32.not_lt.mp ‹_›

theorem substr_zero (o : PvOctets) (l : UInt32) : o.substr 0 l = some ⟨l, o.cell⟩ := by
  have inside : ¬(0 : UInt32) > o.length := UInt32.not_lt.mpr (UInt32.zero_le)
  rw [substr, if_neg inside]
  simp

end PvOctets

namespace MmElement

/-- Without an error, a member fits, it moves the position by its size, and it has made
    its object. -/
theorem reverseWith_ok {length_for_reverse : RControl → ItPosition → PvOctets → ItPosition}
    {reversePv : ItPosition → ItPosition → PvOctets → PvObject}
    {reverseRm : RControl → ItPosition → ItPosition → PvObject → Except Halt (RControl × Decoded)}
    {ForIPinfo : Option (Con_IPinfo → Decoded → PvOctets → Con_IPinfo)} {c : RControl}
    {at_ : ItPosition} {buf : PvOctets} {r : Reversed}
    (run : reverseWith length_for_reverse reversePv reverseRm ForIPinfo c at_ buf = .ok r)
    (noError : r.c.error = false) :
    check_decode_limit at_ buf (length_for_reverse c at_ buf) = true ∧
      r.at_ = at_.add (length_for_reverse c at_ buf) ∧
      ∃ c₁ r_self, reverseRm c at_ (length_for_reverse c at_ buf)
        (reversePv at_ (length_for_reverse c at_ buf) buf) = .ok (c₁, r_self) ∧
        r.made = [r_self] := by
  simp only [reverseWith] at run
  generalize length_for_reverse c at_ buf = size at run ⊢
  split at run
  · cases made : reverseRm c at_ size (reversePv at_ size buf) with
    | error h => simp [made] at run
    | ok result =>
        obtain ⟨c₁, r_self⟩ := result
        simp only [made] at run
        cases run
        exact ⟨‹_›, rfl, c₁, r_self, rfl, rfl⟩
  · cases run
    cases noError

/-- A member that becomes a leaf. -/
theorem reverseWith_leaf {length_for_reverse : RControl → ItPosition → PvOctets → ItPosition}
    {reversePv : ItPosition → ItPosition → PvOctets → PvObject} {string : String}
    {ForIPinfo : Option (Con_IPinfo → Decoded → PvOctets → Con_IPinfo)} {c : RControl}
    {at_ : ItPosition} {buf : PvOctets} {r : Reversed}
    (run : reverseWith length_for_reverse reversePv (leaf string) ForIPinfo c at_ buf = .ok r)
    (noError : r.c.error = false) :
    check_decode_limit at_ buf (length_for_reverse c at_ buf) = true ∧
      r.at_ = at_.add (length_for_reverse c at_ buf) ∧
      r.made = [.mk string at_ (length_for_reverse c at_ buf)
        (reversePv at_ (length_for_reverse c at_ buf) buf) []] := by
  obtain ⟨fits, moved, c₁, r_self, leaf_, made⟩ := reverseWith_ok run noError
  cases leaf_
  exact ⟨fits, moved, made⟩

end MmElement

namespace MmData

/-- A data member at the start of its window takes the window. -/
theorem reverse_window (string : String) (c : RControl) {buf : PvOctets}
    (nonempty : buf.length ≠ 0) (evalskip : Bool) :
    reverse string evalskip c ⟨0, 0⟩ buf =
      .ok ⟨c, ⟨buf.length.toInt32, 0⟩,
        some (.mk string ⟨0, 0⟩ ⟨buf.length.toInt32, 0⟩ (.octets buf) []),
        [.mk string ⟨0, 0⟩ ⟨buf.length.toInt32, 0⟩ (.octets buf) []]⟩ := by
  have start : (ItPosition.mk 0 0).bytes.toUInt32 = 0 := rfl
  have rest : (buf.remainLength 0).toUInt32 = buf.length := by
    rw [PvOctets.remainLength, UInt32.sub_zero]
    exact UInt32.toUInt32_toInt32 _
  have fits : check_decode_limit ⟨0, 0⟩ buf ⟨buf.length.toInt32, 0⟩ = true := by
    have all := check_decode_limit_rest buf ⟨0, 0⟩
    rw [start, UInt32.sub_zero] at all
    exact all
  have moved : (ItPosition.mk 0 0).add ⟨buf.length.toInt32, 0⟩ = ⟨buf.length.toInt32, 0⟩ := by
    rw [ItPosition.add_octets, Int32.zero_add]
  simp [reverse, start, rest, nonempty, fits, PvOctets.substr_zero, moved]

end MmData

namespace McNeedless

/-- The object for the octets `w` that are left over. -/
def object (at_ : ItPosition) (w : PvOctets) : Decoded :=
  .mk "[Needless]" at_ ⟨w.length.toInt32, 0⟩ (.octets w)
    [.mk "data" ⟨0, 0⟩ ⟨w.length.toInt32, 0⟩ (.octets w) []]

theorem reverse_eq (c : RControl) (at_ : ItPosition) (buf : PvOctets) :
    reverse c at_ buf =
      if buf.length - at_.bytes.toUInt32 = 0 then .ok ⟨c, at_, none, []⟩
      else if at_.bits = 0 then
        match buf.substr at_.bytes.toUInt32 (buf.length - at_.bytes.toUInt32) with
        | none => .error .abort
        | some w => .ok ⟨c, at_.addBytes w.length.toInt32, some (object at_ w), [object at_ w]⟩
      else .ok ⟨c.setError 1, at_, none, []⟩ := by
  have rest : (buf.remainLength at_.bytes.toUInt32).toUInt32 =
      buf.length - at_.bytes.toUInt32 := UInt32.toUInt32_toInt32 _
  rw [reverse]
  simp only [compound, rest]
  split
  · rfl
  · simp only [McObject.reverseWith, rest, check_decode_limit_rest, decide_eq_true_eq]
    split
    · cases window : buf.substr at_.bytes.toUInt32 (buf.length - at_.bytes.toUInt32) with
      | none => rfl
      | some w =>
          have length : w.length = buf.length - at_.bytes.toUInt32 := PvOctets.length_substr window
          have nonempty : w.length ≠ 0 := by
            rw [length]
            assumption
          have data := MmData.reverse_window "data" c nonempty false
          have taken : w.remainLength w.length = 0 := by
            rw [PvOctets.remainLength, UInt32.sub_self]
            rfl
          have last : (ItPosition.mk w.length.toInt32 0).bytes.toUInt32 = w.length := by
            rw [ItPosition.bytes_mk (by decide)]
            exact UInt32.toUInt32_toInt32 _
          rw [← length]
          simp [McObject.members_reverse, McObject.membersLoop, MmData.member, data, last, taken,
            check_decode_alignment_requirement, padcount_alignment_requirement, object]
    · rfl

end McNeedless

namespace McObject

variable {c c' : RControl} {at_ memat memat' : ItPosition} {buf : PvOctets}

/-- Without an error, the first member has been decoded and then the others. -/
theorem membersLoop_cons {mem : Member} {members : List Member} {made : List Decoded}
    (run : membersLoop (mem :: members) c memat buf = .ok (c', memat', made))
    (noError : c'.error = false) :
    ∃ r rest, mem.reverse c memat buf = .ok r ∧ r.c.error = false ∧
      membersLoop members r.c r.at_ buf = .ok (c', memat', rest) ∧ made = r.made ++ rest := by
  rw [membersLoop] at run
  cases first : mem.reverse c memat buf with
  | error h => simp [first] at run
  | ok r =>
      simp only [first] at run
      split at run
      · cases others : membersLoop members r.c r.at_ buf with
        | error h => simp [others] at run
        | ok result =>
            obtain ⟨c₁, memat₁, rest⟩ := result
            simp only [others] at run
            cases run
            exact ⟨r, rest, rfl, by simpa [PControl.ok] using ‹r.c.ok = true›, others, rfl⟩
      · cases run
        exact absurd noError (by simpa [PControl.ok] using ‹¬r.c.ok = true›)

theorem membersLoop_cons_ok {mem : Member} {members : List Member} {r : Reversed}
    {rest : List Decoded} (first : mem.reverse c memat buf = .ok r) (noError : r.c.error = false)
    (others : membersLoop members r.c r.at_ buf = .ok (c', memat', rest)) :
    membersLoop (mem :: members) c memat buf = .ok (c', memat', r.made ++ rest) := by
  have ok : r.c.ok = true := by simpa [PControl.ok] using noError
  simp only [membersLoop, first, ok, others, if_true]

/-- Without an error, what the members leave over has become one object. -/
theorem members_reverse_ok {members : List Member} {children : List Decoded}
    (run : members_reverse McNeedless.reverse members c memat buf = .ok (c', children))
    (noError : c'.error = false) :
    ∃ memat' made, membersLoop members c memat buf = .ok (c', memat', made) ∧
      ((buf.remainLength memat'.bytes.toUInt32 ≤ 0 ∧ children = made) ∨
        (0 < buf.remainLength memat'.bytes.toUInt32 ∧ memat'.bits = 0 ∧
          ∃ w, buf.substr memat'.bytes.toUInt32 (buf.length - memat'.bytes.toUInt32) = some w ∧
            children = made ++ [McNeedless.object memat' w])) := by
  rw [members_reverse] at run
  cases loop : membersLoop members c memat buf with
  | error h => simp [loop] at run
  | ok result =>
      obtain ⟨c₁, memat₁, made⟩ := result
      simp only [loop] at run
      split at run
      · rw [McNeedless.reverse_eq] at run
        have some_ : ¬buf.length - memat₁.bytes.toUInt32 = 0 := by
          intro none_
          have positive : buf.remainLength memat₁.bytes.toUInt32 > 0 := ‹_›
          rw [PvOctets.remainLength, none_] at positive
          exact absurd positive (by decide)
        rw [if_neg some_] at run
        by_cases whole : memat₁.bits = 0
        · rw [if_pos whole] at run
          cases window : buf.substr memat₁.bytes.toUInt32
              (buf.length - memat₁.bytes.toUInt32) with
          | none => simp [window] at run
          | some w =>
              simp only [window] at run
              cases run
              exact ⟨memat₁, made, rfl, .inr ⟨‹_›, whole, w, window, rfl⟩⟩
        · rw [if_neg whole] at run
          cases run
          cases noError
      · cases run
        exact ⟨memat₁, children, rfl, .inl ⟨Int32.not_lt.mp ‹_›, rfl⟩⟩

/-- Without an error, a compound is the window of its length and the objects of its
    members. -/
theorem reverse_ok {mc : McObject} {r : Reversed} (run : mc.reverse c at_ buf = .ok r)
    (noError : r.c.error = false) :
    ∃ c₀ buf_self children, (c₀ = c ∨ c₀ = c.setWarning 3) ∧
      check_decode_limit at_ buf ⟨(mc.length_for_reverse c at_ buf).toInt32, 0⟩ = true ∧
      buf.substr at_.bytes.toUInt32 (mc.length_for_reverse c at_ buf) = some buf_self ∧
      members_reverse McNeedless.reverse mc.members_ c₀ ⟨0, 0⟩ buf_self = .ok (r.c, children) ∧
      r.at_ = at_.addBytes (mc.length_for_reverse c at_ buf).toInt32 ∧
      r.rc = some (.mk mc.string at_ ⟨(mc.length_for_reverse c at_ buf).toInt32, 0⟩
        (.octets buf_self) children) ∧
      r.made = r.rc.toList := by
  rw [reverse, reverseWith] at run
  generalize mc.length_for_reverse c at_ buf = length at run ⊢
  generalize warned : (if check_decode_alignment_requirement at_ ⟨length.toInt32, 0⟩
    mc.alignment_requirement then c else c.setWarning 3) = c₀ at run
  simp only [] at run
  split at run
  · cases window : buf.substr at_.bytes.toUInt32 length with
    | none => simp [window] at run
    | some buf_self =>
        rw [window] at run
        cases members : members_reverse McNeedless.reverse mc.members_ c₀ ⟨0, 0⟩ buf_self with
        | error h => simp [members] at run
        | ok result =>
            obtain ⟨c₁, children⟩ := result
            simp only [members] at run
            cases run
            have same : c₀ = c ∨ c₀ = c.setWarning 3 := by
              rw [← warned]
              split
              · exact .inl rfl
              · exact .inr rfl
            exact ⟨c₀, buf_self, children, same, ‹_›, rfl, members, rfl, rfl, rfl⟩
  · cases run
    cases noError

end McObject

end Tahi.Pz

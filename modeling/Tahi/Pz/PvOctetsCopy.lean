import Tahi.Pz.PvOctetsEncode

/-! # What becomes of a stored string

The width of a misaligned string is passed on in 16 bits, so only the remainder of a
longer one is stored. The decoder has the same width.
-/

namespace Tahi.Pz.PvOctets

open BitField TracedMemory

/-- The octets that stand at `s`. -/
def octets (s : Memory) : Nat → List Octet
  | 0 => []
  | l + 1 => s 0 :: octets (fun i => s (i + 1)) l

@[simp] theorem length_octets (s : Memory) (l : Nat) : (octets s l).length = l := by
  induction l generalizing s with
  | zero => rfl
  | succ l ih => rw [octets, List.length_cons, ih]

theorem number_octets (s : Memory) (l : Nat) : number (octets s l) = value s 0 (8 * l) := by
  induction l generalizing s with
  | zero => rfl
  | succ l ih =>
      have width : 8 * (l + 1) = 8 + 8 * l := by omega
      have scale : 256 ^ l = 2 ^ (8 * l) := by
        rw [Nat.pow_mul]
      have first : value s 0 8 = (s 0).toNat := value_octet s 0
      rw [octets, number, length_octets, ih, value_shift, width, value_append, first, scale]
      rfl

theorem number_lt (ds : List Octet) : number ds < 256 ^ ds.length := by
  induction ds with
  | nil => decide
  | cons d ds ih =>
      have octet : d.toNat ≤ 255 := Nat.le_of_lt_succ d.isLt
      calc d.toNat * 256 ^ ds.length + number ds
          < d.toNat * 256 ^ ds.length + 256 ^ ds.length := Nat.add_lt_add_left ih _
        _ ≤ 255 * 256 ^ ds.length + 256 ^ ds.length :=
            Nat.add_le_add_right (Nat.mul_le_mul_right _ octet) _
        _ = 256 ^ (d :: ds).length := by rw [List.length_cons, Nat.pow_succ]; omega

/-- Strings of one length differ as their numbers do. -/
theorem number_inj {ds es : List Octet} (long : ds.length = es.length)
    (same : number ds = number es) : ds = es := by
  induction ds generalizing es with
  | nil => exact (List.length_eq_zero_iff.mp long.symm).symm
  | cons d ds ih =>
      cases es with
      | nil => cases long
      | cons e es =>
          have long := Nat.succ.inj long
          have low := number_lt ds
          have low' := number_lt es
          have base : 0 < 256 ^ es.length := Nat.pow_pos (by decide)
          rw [long] at low
          rw [number, number, long] at same
          have first : d.toNat = e.toNat := by
            have quotients := congrArg (· / 256 ^ es.length) same
            simpa only [Nat.mul_comm _ (256 ^ es.length), Nat.mul_add_div base,
              Nat.div_eq_of_lt low, Nat.div_eq_of_lt low', Nat.add_zero] using quotients
          rw [first] at same
          rw [BitVec.eq_of_toNat_eq first, ih long (Nat.add_left_cancel same)]

variable {at_ : ItPosition} {n : Nat}

/-- The width that is passed on. -/
theorem narrowed_toNat (l : UInt32) : (l * 8).toUInt16.toNat = 8 * l.toNat % 2 ^ 16 := by
  rw [UInt32.toNat_toUInt16, UInt32.toNat_mul]
  change l.toNat * 8 % 2 ^ 32 % 2 ^ 16 = _
  omega

theorem inside_shorter {w v : Nat} (inside : Inside at_ w n) (le : v ≤ w) : Inside at_ v n := by
  obtain ⟨nonneg, fits, countable⟩ := inside
  exact ⟨nonneg, by omega, by omega⟩

/-- Decoding whole octets. -/
theorem decodeLAs_octets {w : UInt16} {l : Nat} (whole : w.toNat = 8 * l)
    (inside : Inside at_ w.toNat n) (m : Memory) :
    ∃ ds, Runs (decodeLAs at_ w) m ds m ∧ ds.length = l ∧
      number ds = value m at_.toBits (8 * l) := by
  obtain ⟨found, loads, holds⟩ := decodeLAs_loads inside
  have held := (holds m).number_eq
  refine ⟨found m, loads.runs m, ?_⟩
  by_cases some_ : w = 0
  · have none : l = 0 := by
      rw [some_] at whole
      change 0 = 8 * l at whole
      omega
    have empty : found m = [] := by
      obtain ⟨ts, run, -⟩ := loads ⟨m, []⟩
      rw [some_, decodeLAs, decodeChunks_zero] at run
      exact (Prod.mk.inj (Option.some.inj run)).1.symm
    rw [empty, none]
    exact ⟨rfl, rfl⟩
  · have size := (holds m).size fun zero => some_ (UInt16.toNat_inj.mp zero)
    have pos : w.toNat ≠ 0 := fun zero => some_ (UInt16.toNat_inj.mp zero)
    have aligned : 7 - (w.toNat - 1) % 8 = 0 := by omega
    rw [aligned] at size held
    rw [whole, Nat.pow_zero, Nat.mul_one] at held
    exact ⟨by omega, held⟩

/-! ## Copied strings -/

/-- Whatever the buffer holds, `encode` stores the bits of the string and leaves all others. -/
def Copied (length : UInt32) (at_ : ItPosition) (o : PvOctets) : Prop :=
  ∀ m, ∃ m', Runs (encode length at_ o) m () m' ∧
    (∀ k : Int, 0 ≤ k → k < 8 * o.length.toNat → bit m' (at_.toBits + k) = bit o.cell k) ∧
    ∀ k, k < at_.toBits ∨ at_.toBits + 8 * o.length.toNat ≤ k → bit m' k = bit m k

/-- Whatever the buffer holds, `decodeLAs` returns the string that `encode` has stored, and all
    other bits are as before. -/
def Returned (length : UInt32) (at_ : ItPosition) (o : PvOctets) : Prop :=
  ∀ m, ∃ m', Runs (encode length at_ o) m () m' ∧
    Runs (decodeLAs at_ (o.length * 8).toUInt16) m' (octets o.cell o.length.toNat) m' ∧
    ∀ k, k < at_.toBits ∨ at_.toBits + 8 * o.length.toNat ≤ k → bit m' k = bit m k

/-- A memory that has the other bit everywhere. -/
def opposite (b : Bool) : Memory := fun _ => if b then 0#8 else BitVec.allOnes 8

theorem bit_opposite (b : Bool) (k : Int) : bit (opposite b) k = !b := by
  have inside : (k % 8).toNat < 8 := by omega
  cases b with
  | false => simp only [bit, opposite, Bool.false_eq_true, if_false, BitVec.getMsbD_allOnes, inside,
      decide_true, Bool.not_false]
  | true => simp only [bit, opposite, if_true, BitVec.getMsbD_zero, Bool.not_true]

section

variable {length : UInt32} {o : PvOctets}

/-- The string is copied when it starts at an octet or is short enough for the width. -/
theorem copied_iff (inside : Inside at_ (8 * o.length.toNat) length.toNat) :
    Copied length at_ o ↔ at_.bits = 0 ∨ 8 * o.length.toNat < 2 ^ 16 := by
  constructor
  · intro copied
    by_contra long
    obtain ⟨misaligned, wide⟩ := not_or.mp long
    have width := narrowed_toNat o.length
    have lost : 8 * o.length.toNat % 2 ^ 16 < 8 * o.length.toNat := by omega
    -- the first bit behind the stored part is kept, so let it be the wrong one
    obtain ⟨m', run, bits, -⟩ := copied (opposite (bit o.cell (8 * o.length.toNat % 2 ^ 16 : Nat)))
    have stored := (encodeLAs_stores (w := (o.length * 8).toUInt16) o.cell
      (by rw [width]; exact inside_shorter inside (Nat.le_of_lt lost))).puts
    have positive : at_.bits > 0 := by
      apply UInt16.lt_iff_toNat_lt.mpr
      exact Nat.pos_of_ne_zero fun zero => misaligned (UInt16.toNat_inj.mp zero)
    rw [encode, if_pos positive] at run
    obtain ⟨-, left⟩ := run.unique (stored.runs _)
    have copy := bits _ (Int.natCast_nonneg _) (by exact_mod_cast lost)
    have kept := (writes_put (opposite (bit o.cell (8 * o.length.toNat % 2 ^ 16 : Nat)))
      at_.toBits (o.length * 8).toUInt16.toNat
      (value o.cell 0 (o.length * 8).toUInt16.toNat)).outside (.inr (by rw [width]))
    rw [← left, copy, bit_opposite] at kept
    exact (Bool.eq_not_self _).mp kept
  · intro narrow m
    have stored := encode_puts inside narrow
    have writes := writes_put m at_.toBits (8 * o.length.toNat)
      (value o.cell 0 (8 * o.length.toNat))
    refine ⟨_, stored.runs m, fun k low high => ?_, fun k away => ?_⟩
    · rw [writes.bit_copied low (by push_cast; exact high), Int.zero_add]
    · exact writes.outside (by push_cast; exact away)

/-- The string is returned when it is short enough for the width. -/
theorem returned_iff (inside : Inside at_ (8 * o.length.toNat) length.toNat) :
    Returned length at_ o ↔ 8 * o.length.toNat < 2 ^ 16 := by
  have width := narrowed_toNat o.length
  have whole : (o.length * 8).toUInt16.toNat = 8 * (o.length.toNat % 8192) := by
    rw [width]
    omega
  have part : Inside at_ (o.length * 8).toUInt16.toNat length.toNat :=
    inside_shorter inside (by rw [whole]; omega)
  constructor
  · intro returned
    obtain ⟨m', -, fetched, -⟩ := returned fun _ => 0
    obtain ⟨ds, decoded, long, -⟩ := decodeLAs_octets whole part m'
    have same := (fetched.unique decoded).1
    rw [← same, length_octets] at long
    omega
  · intro small m
    have stored := encode_puts inside (.inr small)
    have writes := writes_put m at_.toBits (8 * o.length.toNat)
      (value o.cell 0 (8 * o.length.toNat))
    refine ⟨_, stored.runs m, ?_, fun k away => writes.outside (by push_cast; exact away)⟩
    obtain ⟨ds, decoded, long, held⟩ := decodeLAs_octets whole part
      (put m at_.toBits (8 * o.length.toNat) (value o.cell 0 (8 * o.length.toNat)))
    have short : o.length.toNat % 8192 = o.length.toNat := Nat.mod_eq_of_lt (by omega)
    rw [short] at long held
    have same : ds = octets o.cell o.length.toNat := by
      apply number_inj
      · rw [long, length_octets]
      · rw [held, number_octets, writes.value_eq]
        exact Nat.mod_eq_of_lt (value_lt _ _ _)
    rwa [same] at decoded

/-- In whatever buffer there is room for a string, it is copied without touching other bits
    exactly when it starts at an octet or its bits can be counted in 16 bits; and it is decoded
    again exactly when its bits can be counted in 16 bits. -/
theorem encode_copies_iff (length : UInt32) (at_ : ItPosition) (o : PvOctets)
    (inside : Inside at_ (8 * o.length.toNat) length.toNat) :
    (Copied length at_ o ↔ at_.bits = 0 ∨ o.length.toNat < 8192) ∧
      (Copied length at_ o ∧ Returned length at_ o ↔ o.length.toNat < 8192) := by
  have narrow : 8 * o.length.toNat < 2 ^ 16 ↔ o.length.toNat < 8192 := by omega
  rw [copied_iff inside, returned_iff inside, narrow]
  exact ⟨Iff.rfl, and_iff_right_of_imp .inr⟩

end

/-- Two octets behind the third bit of the second octet. -/
theorem encode_copies_two : Returned 4 ⟨1, 3⟩ (zeroOctets 2) :=
  ((encode_copies_iff 4 ⟨1, 3⟩ (zeroOctets 2) ⟨by decide, by decide, by decide⟩).2.mpr
    (by decide)).2

/-- Of 8192 octets behind one bit none is copied. -/
theorem not_encode_copies : ¬ ∀ (length : UInt32) (at_ : ItPosition) (o : PvOctets),
    Inside at_ (8 * o.length.toNat) length.toNat →
    Copied length at_ o ∧ Returned length at_ o := by
  intro claim
  have inside : Inside ⟨0, 1⟩ (8 * (zeroOctets 8192).length.toNat) (8193 : UInt32).toNat :=
    ⟨by decide, by decide, by decide⟩
  have copied := (copied_iff inside).mp (claim _ _ _ inside).1
  exact absurd copied (by decide)

end Tahi.Pz.PvOctets

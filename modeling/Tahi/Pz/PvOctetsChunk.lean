import Tahi.Pz.PvOctets

/-! # What one chunk of a bit codec does

A chunk of at most eight bits lies in one octet or straddles two. It touches the
second octet as soon as `e`, the end of the chunk counted from the top of the
first octet, is eight: the case in which the chunk needs none of its bits.
-/

namespace Tahi.Pz.PvOctets

open BitField TracedMemory

/-- The mask selects the bits from `lo` up to, and without, `hi`. -/
def Selects (m : Octet) (lo hi : Nat) : Prop := ∀ i, m.getLsbD i = decide (lo ≤ i ∧ i < hi)

theorem rightMask_selects {w : Nat} (small : w ≤ 8) :
    Selects (BitVec.ofNat 8 (2 ^ w - 1)) 0 w := by
  intro i
  rw [BitVec.getLsbD_ofNat, Nat.testBit_two_pow_sub_one, ← Bool.decide_and, decide_eq_decide]
  omega

theorem leftMask_selects {w : Nat} (small : w ≤ 8) :
    Selects (BitVec.ofNat 8 ((2 ^ w - 1) <<< (8 - w))) (8 - w) 8 := by
  intro i
  rw [BitVec.getLsbD_ofNat, Nat.testBit_shiftLeft, Nat.testBit_two_pow_sub_one]
  simp only [ge_iff_le, ← Bool.decide_and, decide_eq_decide]
  omega

theorem Selects.up {m : Octet} {lo hi s : Nat} (mask : Selects m lo hi) :
    Selects (m <<< s) (lo + s) (min 8 (hi + s)) := by
  intro i
  rw [BitVec.getLsbD_shiftLeft, mask, ← decide_not, ← Bool.decide_and, ← Bool.decide_and,
    decide_eq_decide]
  omega

theorem Selects.down {m : Octet} {lo hi s : Nat} (mask : Selects m lo hi) :
    Selects (m >>> s) (lo - s) (hi - s) := by
  intro i
  rw [BitVec.getLsbD_ushiftRight, mask, decide_eq_decide]
  omega

/-- Storing the bits of `t` that the mask selects. -/
theorem overlay_stores {o : UInt32} {b w v : Nat} {t sm : Octet} (fits : b + w ≤ 8)
    (mask : Selects sm (8 - (b + w)) (8 - b))
    (bits : ∀ i, 8 - (b + w) ≤ i → i < 8 - b → t.getLsbD i = v.testBit (i - (8 - (b + w)))) :
    Stores (overlay o t sm) (8 * o.toNat + b) w v (fun x => x = o.toNat) := by
  apply loadStore_stores (fun d => (t &&& sm) ||| (d &&& ~~~sm)) fits
  intro d j inside
  have low : 7 - j < 8 := by omega
  simp only [BitVec.getMsbD, inside, decide_true, Bool.true_and, BitVec.getLsbD_or,
    BitVec.getLsbD_and, BitVec.getLsbD_not, mask (7 - j), low]
  by_cases inField : b ≤ j ∧ j < b + w
  · have selected : 8 - (b + w) ≤ 7 - j ∧ 7 - j < 8 - b := by omega
    have index : 7 - j - (8 - (b + w)) = b + w - 1 - j := by omega
    rw [if_pos inField, bits _ selected.1 selected.2, index]
    simp [selected]
  · have kept : ¬(8 - (b + w) ≤ 7 - j ∧ 7 - j < 8 - b) := by omega
    rw [if_neg inField, decide_eq_false kept]
    simp

/-- The octet offset of a position, and its successor, as the codecs index with
    them: unsigned, and without a wrap. -/
theorem offset_eq {at_ : ItPosition} (nonneg : 0 ≤ at_.bytes.toInt) :
    (at_.bytes.toUInt32.toNat : Int) = at_.bytes.toInt ∧
      ((at_.bytes.toUInt32 + 1).toNat : Int) = at_.bytes.toInt + 1 := by
  have sign : 0 ≤ at_.bytes := Int32.le_iff_toInt_le.mpr nonneg
  have unsigned : (at_.bytes.toUInt32.toNat : Int) = at_.bytes.toInt := by
    rw [Int32.toNat_toUInt32_of_le sign, Int32.cast_toNatClampNeg _ sign]
  have bound := at_.bytes.toInt_lt
  refine ⟨unsigned, ?_⟩
  have successor : (at_.bytes.toUInt32 + 1).toNat = at_.bytes.toUInt32.toNat + 1 := by
    rw [UInt32.toNat_add]
    exact Nat.mod_eq_of_lt (by change at_.bytes.toUInt32.toNat + 1 < 2 ^ 32; omega)
  rw [successor, ← unsigned]
  rfl

/-- The addresses a chunk touches: the second octet already when `e` is eight. -/
def chunkReach (at_ : ItPosition) (w : Nat) (x : Int) : Prop :=
  x = at_.bytes.toInt ∨ (8 ≤ at_.bits.toNat + w ∧ x = at_.bytes.toInt + 1)

/-- A masked octet moved up: the field ends `lo + s` bits above the octet's end,
    and is cut off at the octet's top. -/
theorem overlay_up {o : UInt32} {n m : Octet} {lo hi s b w : Nat} (mask : Selects m lo hi)
    (top : 8 - b = min 8 (hi + s)) (bottom : b + w + (lo + s) = 8) :
    Stores (overlay o ((n &&& m) <<< s) (m <<< s)) (8 * o.toNat + b) w (n.toNat / 2 ^ lo)
      (fun x => x = o.toNat) := by
  have lowest : lo + s = 8 - (b + w) := by omega
  have moved := mask.up (s := s)
  rw [← top, lowest] at moved
  refine overlay_stores (by omega) moved fun i low high => ?_
  have selected : lo ≤ i - s ∧ i - s < hi := by omega
  have index : i - (8 - (b + w)) + lo = i - s := by omega
  have up : ¬i < s := by omega
  have inside : i < 8 := by omega
  rw [BitVec.getLsbD_shiftLeft, BitVec.getLsbD_and, mask, Nat.testBit_div_two_pow, index,
    BitVec.testBit_toNat]
  simp [selected, up, inside]

/-- A masked octet moved down: what falls below the octet's end is lost. -/
theorem overlay_down {o : UInt32} {n m : Octet} {lo hi s b w : Nat} (mask : Selects m lo hi)
    (top : 8 - b + s = hi) (fits : b + w ≤ 8) (bottom : 8 - (b + w) = lo - s) :
    Stores (overlay o ((n &&& m) >>> s) (m >>> s)) (8 * o.toNat + b) w
      (n.toNat / 2 ^ max lo s) (fun x => x = o.toNat) := by
  have highest : hi - s = 8 - b := by omega
  have moved := mask.down (s := s)
  rw [highest, ← bottom] at moved
  refine overlay_stores fits moved fun i low high => ?_
  have selected : lo ≤ s + i ∧ s + i < hi := by omega
  have index : i - (8 - (b + w)) + max lo s = s + i := by omega
  rw [BitVec.getLsbD_ushiftRight, BitVec.getLsbD_and, mask, Nat.testBit_div_two_pow, index,
    BitVec.testBit_toNat]
  simp [selected]

variable {at_ : ItPosition} {w : UInt16}

private theorem not_wide (small : w.toNat ≤ 8) : ¬8 < w := by
  rw [UInt16.lt_iff_toNat_lt]
  exact Nat.not_lt.mpr small

private theorem div_pow_pow (n a b : Nat) : n / 2 ^ a / 2 ^ b = n / 2 ^ (a + b) := by
  rw [Nat.div_div_eq_div_mul, Nat.pow_add]

/-- A chunk that ends before the top of the second octet. -/
private theorem inFirst {prog : Access Unit} {v : Nat} (nonneg : 0 ≤ at_.bytes.toInt)
    (fits : at_.bits.toNat + w.toNat < 8)
    (only : Stores prog (8 * at_.bytes.toUInt32.toNat + at_.bits.toNat) w.toNat v
      (fun x => x = at_.bytes.toUInt32.toNat)) :
    Stores prog at_.toBits w.toNat v (chunkReach at_ w.toNat) := by
  obtain ⟨first, -⟩ := offset_eq nonneg
  rw [first] at only
  refine only.congr rfl rfl fun x => ?_
  rw [chunkReach]
  omega

/-- A chunk that ends in the second octet, or exactly at the top of it. -/
private theorem inBoth {high low : Access Unit} {v : Nat} (nonneg : 0 ≤ at_.bytes.toInt)
    (spills : ¬at_.bits.toNat + w.toNat < 8)
    (firstPart : Stores high (8 * at_.bytes.toUInt32.toNat + at_.bits.toNat)
      (8 - at_.bits.toNat) (v / 2 ^ (at_.bits.toNat + w.toNat - 8))
      (fun x => x = at_.bytes.toUInt32.toNat))
    (secondPart : Stores low (8 * (at_.bytes.toUInt32 + 1).toNat + (0 : Nat))
      (at_.bits.toNat + w.toNat - 8) v (fun x => x = (at_.bytes.toUInt32 + 1).toNat)) :
    Stores (high >>= fun _ => low) at_.toBits w.toNat v (chunkReach at_ w.toNat) := by
  obtain ⟨first, second⟩ := offset_eq nonneg
  have remainder := at_.bits_lt
  have next : 8 * (at_.bytes.toInt + 1) + ((0 : Nat) : Int) =
      8 * at_.bytes.toInt + at_.bits.toNat + (8 - at_.bits.toNat : Nat) := by omega
  rw [first] at firstPart
  rw [second, next] at secondPart
  have both := firstPart.seq secondPart
  have whole : 8 - at_.bits.toNat + (at_.bits.toNat + w.toNat - 8) = w.toNat := by omega
  rw [whole] at both
  refine both.congr rfl rfl fun x => ?_
  rw [chunkReach]
  omega

theorem encodeLA_stores (n : Octet) (nonneg : 0 ≤ at_.bytes.toInt) (small : w.toNat ≤ 8) :
    Stores (encodeLA n at_ w) at_.toBits w.toNat (n.toNat / 2 ^ (8 - w.toNat))
      (chunkReach at_ w.toNat) := by
  have remainder := at_.bits_lt
  have mask := leftMask_selects small
  rw [encodeLA, if_neg (not_wide small)]
  by_cases fits : at_.bits.toNat + w.toNat < 8
  · have shift : max (8 - w.toNat) at_.bits.toNat = 8 - w.toNat := by omega
    have only := overlay_down (o := at_.bytes.toUInt32) (n := n) (b := at_.bits.toNat)
      (s := at_.bits.toNat) (w := w.toNat) mask (by omega) (by omega) (by omega)
    rw [shift] at only
    simp only [if_pos fits, bind_pure_unit]
    exact inFirst nonneg fits only
  · have shift : max (8 - w.toNat) at_.bits.toNat =
        8 - w.toNat + (at_.bits.toNat + w.toNat - 8) := by omega
    have high := overlay_down (o := at_.bytes.toUInt32) (n := n) (b := at_.bits.toNat)
      (s := at_.bits.toNat) (w := 8 - at_.bits.toNat) mask (by omega) (by omega) (by omega)
    have low := overlay_up (o := at_.bytes.toUInt32 + 1) (n := n) (b := 0)
      (s := 8 - at_.bits.toNat) (w := at_.bits.toNat + w.toNat - 8) mask (by omega) (by omega)
    rw [shift, ← div_pow_pow] at high
    simp only [if_neg fits]
    exact inBoth nonneg fits high low

theorem encodeRA_stores (n : Octet) (nonneg : 0 ≤ at_.bytes.toInt) (small : w.toNat ≤ 8) :
    Stores (encodeRA n at_ w) at_.toBits w.toNat n.toNat (chunkReach at_ w.toNat) := by
  have remainder := at_.bits_lt
  have mask := rightMask_selects small
  rw [encodeRA, if_neg (not_wide small)]
  by_cases fits : at_.bits.toNat + w.toNat < 8
  · have only := overlay_up (o := at_.bytes.toUInt32) (n := n) (b := at_.bits.toNat)
      (s := 8 - (at_.bits.toNat + w.toNat)) (w := w.toNat) mask (by omega) (by omega)
    rw [Nat.pow_zero, Nat.div_one] at only
    simp only [if_pos fits]
    exact inFirst nonneg fits only
  · have high := overlay_down (o := at_.bytes.toUInt32) (n := n) (b := at_.bits.toNat)
      (s := at_.bits.toNat + w.toNat - 8) (w := 8 - at_.bits.toNat) mask (by omega) (by omega)
      (by omega)
    have low := overlay_up (o := at_.bytes.toUInt32 + 1) (n := n) (b := 0)
      (s := 8 - (at_.bits.toNat + w.toNat - 8)) (w := at_.bits.toNat + w.toNat - 8) mask
      (by omega) (by omega)
    rw [Nat.zero_max] at high
    rw [Nat.pow_zero, Nat.div_one] at low
    simp only [if_neg fits]
    exact inBoth nonneg fits high low

/-! ## Fetching -/

/-- Bit `i` of an octet, from its low end, in the numbering of the memory. -/
theorem getLsbD_eq_bit (m : Memory) (a : Int) {i : Nat} (inside : i < 8) :
    (m a).getLsbD i = bit m (8 * a + (7 - i : Nat)) := by
  have index : 7 - (7 - i) = i := by omega
  rw [bit_at m a (by omega), BitVec.getMsbD]
  simp [index]
  omega

/-- An octet that has the field's bits from `lo` upwards, and no others. -/
theorem octet_eq_value {m : Memory} {p : Int} {w lo : Nat} {t : Octet}
    (bits : ∀ i < 8, t.getLsbD i =
      (decide (lo ≤ i ∧ i < lo + w) && bit m (p + w - 1 - (i - lo : Nat)))) :
    t = BitVec.ofNat 8 (value m p w * 2 ^ lo) := by
  apply BitVec.eq_of_getLsbD_eq
  intro i inside
  rw [bits i inside, BitVec.getLsbD_ofNat, Nat.testBit_mul_two_pow, testBit_value]
  by_cases reached : lo ≤ i
  · have width : i < lo + w ↔ i - lo < w := by omega
    simp [inside, reached, width]
  · simp [reached]

private theorem loadFirst {f : Octet → Octet} (nonneg : 0 ≤ at_.bytes.toInt)
    (fits : at_.bits.toNat + w.toNat < 8) :
    Loads (load at_.bytes.toUInt32.toNat >>= fun d0 => pure (f d0))
      (fun m => f (m at_.bytes.toInt)) (chunkReach at_ w.toNat) := by
  obtain ⟨first, -⟩ := offset_eq nonneg
  rw [first]
  refine ((load_loads _).bind fun d0 => Loads.pure (f d0)).congr (fun m => rfl) fun x => ?_
  simp only [chunkReach, or_false]
  omega

private theorem loadBoth {f : Octet → Octet → Octet} (nonneg : 0 ≤ at_.bytes.toInt)
    (spills : ¬at_.bits.toNat + w.toNat < 8) :
    Loads (load at_.bytes.toUInt32.toNat >>= fun d0 =>
        load (at_.bytes.toUInt32 + 1).toNat >>= fun d1 => pure (f d0 d1))
      (fun m => f (m at_.bytes.toInt) (m (at_.bytes.toInt + 1))) (chunkReach at_ w.toNat) := by
  obtain ⟨first, second⟩ := offset_eq nonneg
  rw [first, second]
  refine ((load_loads _).bind fun d0 => (load_loads _).bind fun d1 =>
    Loads.pure (f d0 d1)).congr (fun m => rfl) fun x => ?_
  simp only [chunkReach, or_false]
  omega

/-- The bit of a fetched octet under a mask, shifted up by `s`. -/
private theorem fetchUp (m : Memory) (a : Int) {sm : Octet} {lo hi s i : Nat}
    (mask : Selects sm lo hi) (inside : i < 8) :
    ((m a &&& sm) <<< s).getLsbD i =
      (decide (lo + s ≤ i ∧ i < hi + s) && bit m (8 * a + s + 7 - i)) := by
  rw [BitVec.getLsbD_shiftLeft, BitVec.getLsbD_and, mask]
  by_cases up : i < s
  · have away : ¬(lo + s ≤ i ∧ i < hi + s) := by omega
    simp [up, away]
  · have index : 8 * a + ((7 - (i - s) : Nat) : Int) = 8 * a + s + 7 - i := by omega
    have selected : (lo ≤ i - s ∧ i - s < hi) = (lo + s ≤ i ∧ i < hi + s) := by
      apply propext
      omega
    simp only [getLsbD_eq_bit m a (by omega : i - s < 8), index, selected]
    simp [up, inside, Bool.and_comm]

/-- The same, shifted down by `s`. -/
private theorem fetchDown (m : Memory) (a : Int) {sm : Octet} {lo hi s i : Nat}
    (mask : Selects sm lo hi) (top : hi ≤ 8) :
    ((m a &&& sm) >>> s).getLsbD i =
      (decide (lo ≤ s + i ∧ s + i < hi) && bit m (8 * a - s + 7 - i)) := by
  rw [BitVec.getLsbD_ushiftRight, BitVec.getLsbD_and, mask]
  by_cases selected : lo ≤ s + i ∧ s + i < hi
  · have index : 8 * a + ((7 - (s + i) : Nat) : Int) = 8 * a - s + 7 - i := by omega
    rw [getLsbD_eq_bit m a (by omega), index]
    simp [selected]
  · simp [selected]

private theorem onePart {m : Memory} {p q : Prop} [Decidable p] [Decidable q] {k l : Int}
    (same : p ↔ q) (index : q → k = l) : (decide p && bit m k) = (decide q && bit m l) := by
  by_cases inField : q
  · rw [index inField, decide_eq_decide.mpr same]
  · simp [inField, same]

private theorem twoParts {m : Memory} {p₁ p₂ q : Prop} [Decidable p₁] [Decidable p₂]
    [Decidable q] {k₁ k₂ l : Int} (either : p₁ ∨ p₂ ↔ q) (index₁ : p₁ → k₁ = l)
    (index₂ : p₂ → k₂ = l) :
    (decide p₁ && bit m k₁ || decide p₂ && bit m k₂) = (decide q && bit m l) := by
  by_cases high : p₁
  · have inField : q := either.mp (.inl high)
    by_cases low : p₂
    · simp [high, low, inField, index₁ high, index₂ low]
    · simp [high, low, inField, index₁ high]
  · rw [decide_eq_false high, Bool.false_and, Bool.false_or]
    exact onePart ⟨fun low => either.mp (.inr low),
      fun inField => (either.mpr inField).resolve_left high⟩
      fun inField => index₂ ((either.mpr inField).resolve_left high)

theorem decodeLA_loads (nonneg : 0 ≤ at_.bytes.toInt) (small : w.toNat ≤ 8) :
    Loads (decodeLA at_ w)
      (fun m => BitVec.ofNat 8 (value m at_.toBits w.toNat * 2 ^ (8 - w.toNat)))
      (chunkReach at_ w.toNat) := by
  have remainder := at_.bits_lt
  have mask := leftMask_selects small
  rw [decodeLA, if_neg (not_wide small), ItPosition.toBits]
  by_cases fits : at_.bits.toNat + w.toNat < 8
  · simp only [if_pos fits]
    refine (loadFirst nonneg fits).congr (fun m => octet_eq_value fun i inside => ?_)
      fun _ => Iff.rfl
    rw [fetchUp m _ mask.down inside]
    exact onePart (by omega) (by omega)
  · simp only [if_neg fits]
    refine (loadBoth nonneg fits).congr (fun m => octet_eq_value fun i inside => ?_)
      fun _ => Iff.rfl
    rw [BitVec.getLsbD_or, fetchUp m _ mask.down inside, fetchDown m _ mask.up (by omega)]
    exact twoParts (by omega) (by omega) (by omega)

theorem decodeRA_loads (nonneg : 0 ≤ at_.bytes.toInt) (small : w.toNat ≤ 8) :
    Loads (decodeRA at_ w) (fun m => BitVec.ofNat 8 (value m at_.toBits w.toNat * 2 ^ 0))
      (chunkReach at_ w.toNat) := by
  have remainder := at_.bits_lt
  have mask := rightMask_selects small
  rw [decodeRA, if_neg (not_wide small), ItPosition.toBits]
  by_cases fits : at_.bits.toNat + w.toNat < 8
  · simp only [if_pos fits]
    refine (loadFirst nonneg fits).congr (fun m => octet_eq_value fun i inside => ?_)
      fun _ => Iff.rfl
    rw [fetchDown m _ mask.up (by omega)]
    exact onePart (by omega) (by omega)
  · simp only [if_neg fits]
    refine (loadBoth nonneg fits).congr (fun m => octet_eq_value fun i inside => ?_)
      fun _ => Iff.rfl
    rw [BitVec.getLsbD_or, fetchUp m _ mask.down inside, fetchDown m _ mask.up (by omega)]
    exact twoParts (by omega) (by omega) (by omega)

end Tahi.Pz.PvOctets

import Mathlib.Data.Nat.Bitwise
import Mathlib.Tactic.Ring

/-! # Bit fields over octet memory

A memory is read here as one sequence of bits, the most significant bit of each
octet first. A field is a position and a width in that sequence. `Writes`
relates the memories before and after a field is stored, so that a codec which
cuts a field into pieces is understood by composing the pieces.
-/

namespace BitField

abbrev Octet := BitVec 8

/-- Octets by their distance from a pointer. Nothing bounds the distance. -/
abbrev Memory := Int → Octet

/-- Bit `k` of a memory, counted from the most significant bit of octet 0. -/
def bit (m : Memory) (k : Int) : Bool := (m (k / 8)).getMsbD (k % 8).toNat

theorem bit_at (m : Memory) (a : Int) {j : Nat} (inside : j < 8) :
    bit m (8 * a + j) = (m a).getMsbD j := by
  have quotient : (8 * a + (j : Int)) / 8 = a := by omega
  have remainder : ((8 * a + (j : Int)) % 8).toNat = j := by omega
  rw [bit, quotient, remainder]

/-- Two memories with the same bits are the same memory. -/
theorem ext_bits {m m' : Memory} (h : ∀ k, bit m k = bit m' k) : m = m' := by
  funext a
  apply BitVec.eq_of_getMsbD_eq
  intro j inside
  rw [← bit_at m a inside, ← bit_at m' a inside]
  exact h _

/-- The unsigned number held by the `w` bits that start at bit `p`. -/
def value (m : Memory) (p : Int) : Nat → Nat
  | 0 => 0
  | w + 1 => 2 * value m p w + (bit m (p + w)).toNat

@[simp] theorem value_zero (m : Memory) (p : Int) : value m p 0 = 0 := rfl

theorem testBit_value (m : Memory) (p : Int) (w i : Nat) :
    (value m p w).testBit i = (decide (i < w) && bit m (p + w - 1 - i)) := by
  induction w generalizing i with
  | zero => simp
  | succ w ih =>
      cases i with
      | zero =>
          have position : p + ((w + 1 : Nat) : Int) - 1 - ((0 : Nat) : Int) = p + w := by omega
          rw [position]
          simp only [value, Nat.testBit_zero, Nat.zero_lt_succ, decide_true, Bool.true_and]
          cases bit m (p + w) <;> simp
      | succ i =>
          have position : p + ((w + 1 : Nat) : Int) - 1 - ((i + 1 : Nat) : Int) = p + w - 1 - i := by
            omega
          have half : (2 * value m p w + (bit m (p + w)).toNat) / 2 = value m p w := by
            cases bit m (p + w) with
            | false => simp
            | true => simp; omega
          rw [position, value, Nat.testBit_succ, half, ih]
          simp

theorem value_lt (m : Memory) (p : Int) (w : Nat) : value m p w < 2 ^ w := by
  apply Nat.lt_pow_two_of_testBit
  intro i outside
  simp [testBit_value, Nat.not_lt.mpr outside]

/-- Fields with the same bits hold the same number. -/
theorem value_congr {m m' : Memory} {p : Int} {w : Nat}
    (h : ∀ k, p ≤ k → k < p + w → bit m k = bit m' k) : value m p w = value m' p w := by
  apply Nat.eq_of_testBit_eq
  intro i
  rw [testBit_value, testBit_value]
  by_cases inside : i < w
  · rw [h _ (by omega) (by omega)]
  · simp [inside]

/-- `m'` is `m` with the low `w` bits of `v` stored at bit `p`, and with every
    other bit, below and above the field, as it was. -/
def Writes (m m' : Memory) (p : Int) (w : Nat) (v : Nat) : Prop :=
  ∀ k, bit m' k = if p ≤ k ∧ k < p + w then v.testBit (p + w - 1 - k).toNat else bit m k

namespace Writes

variable {m m₁ m₂ : Memory} {p : Int} {w v : Nat}

theorem empty (m : Memory) (p : Int) (v : Nat) : Writes m m p 0 v := by
  intro k
  rw [if_neg (by omega)]

theorem inside (h : Writes m m₁ p w v) {k : Int} (lo : p ≤ k) (hi : k < p + w) :
    bit m₁ k = v.testBit (p + w - 1 - k).toNat := by
  rw [h k, if_pos ⟨lo, hi⟩]

theorem outside (h : Writes m m₁ p w v) {k : Int} (away : k < p ∨ p + w ≤ k) :
    bit m₁ k = bit m k := by
  rw [h k, if_neg (by omega)]

theorem unique (h₁ : Writes m m₁ p w v) (h₂ : Writes m m₂ p w v) : m₁ = m₂ :=
  ext_bits fun k => (h₁ k).trans (h₂ k).symm

/-- Only the low `w` bits of the stored number matter. -/
theorem congr {u : Nat} (h : Writes m m₁ p w v) (same : v % 2 ^ w = u % 2 ^ w) :
    Writes m m₁ p w u := by
  intro k
  rw [h k]
  by_cases inField : p ≤ k ∧ k < p + w
  · rw [if_pos inField, if_pos inField]
    have low : (p + w - 1 - k).toNat < w := by omega
    have bits := congrArg (fun n => n.testBit (p + w - 1 - k).toNat) same
    simpa [Nat.testBit_mod_two_pow, low] using bits
  · rw [if_neg inField, if_neg inField]

/-- Storing the high part and then the low part stores the whole field. -/
theorem append {a b : Nat} (high : Writes m m₁ p a (v / 2 ^ b))
    (low : Writes m₁ m₂ (p + a) b v) : Writes m m₂ p (a + b) v := by
  intro k
  by_cases inLow : p + a ≤ k ∧ k < p + a + b
  · have inField : p ≤ k ∧ k < p + ((a + b : Nat) : Int) := by omega
    have index : p + ((a + b : Nat) : Int) - 1 - k = p + a + b - 1 - k := by omega
    rw [if_pos inField, low.inside inLow.1 inLow.2, index]
  · rw [low.outside (by omega)]
    by_cases inHigh : p ≤ k ∧ k < p + a
    · have inField : p ≤ k ∧ k < p + ((a + b : Nat) : Int) := by omega
      have index : (p + ((a + b : Nat) : Int) - 1 - k).toNat = (p + a - 1 - k).toNat + b := by omega
      rw [if_pos inField, high.inside inHigh.1 inHigh.2, index, Nat.testBit_div_two_pow]
    · rw [if_neg (by omega), high.outside (by omega)]

/-- A second store to the same field hides the first. -/
theorem overwrite {u : Nat} (first : Writes m m₁ p w u) (second : Writes m₁ m₂ p w v) :
    Writes m m₂ p w v := by
  intro k
  by_cases inField : p ≤ k ∧ k < p + w
  · rw [if_pos inField, second.inside inField.1 inField.2]
  · rw [if_neg inField, second.outside (by omega), first.outside (by omega)]

/-- Reading a stored field gives back the low bits of what was stored. -/
theorem value_eq (h : Writes m m₁ p w v) : value m₁ p w = v % 2 ^ w := by
  apply Nat.eq_of_testBit_eq
  intro i
  rw [testBit_value, Nat.testBit_mod_two_pow]
  by_cases low : i < w
  · have index : (p + w - 1 - (p + w - 1 - (i : Int))).toNat = i := by omega
    rw [h.inside (by omega) (by omega), index]
  · simp [low]

/-- A copied field has the bits of the field it was copied from. -/
theorem bit_copied {c : Memory} {q : Int} (h : Writes m m₁ p w (value c q w)) {k : Int}
    (lo : 0 ≤ k) (hi : k < w) : bit m₁ (p + k) = bit c (q + k) := by
  have low : (p + w - 1 - (p + k)).toNat < w := by omega
  have index : q + (w : Int) - 1 - ((p + w - 1 - (p + k)).toNat : Int) = q + k := by omega
  rw [h.inside (by omega) (by omega), testBit_value, index, decide_eq_true low, Bool.true_and]

/-- Storing what a field already holds changes nothing. -/
theorem refl (m : Memory) (p : Int) (w : Nat) : Writes m m p w (value m p w) := by
  intro k
  by_cases inField : p ≤ k ∧ k < p + w
  · have low : (p + w - 1 - k).toNat < w := by omega
    have index : p + w - 1 - ((p + w - 1 - k).toNat : Int) = k := by omega
    rw [if_pos inField, testBit_value, index]
    simp [low]
  · rw [if_neg inField]

/-- A store as seen through a pointer `a` octets further on. -/
theorem window (h : Writes m m₁ p w v) (a : Int) :
    Writes (fun i => m (i + a)) (fun i => m₁ (i + a)) (p - 8 * a) w v := by
  intro k
  have octet : k / 8 + a = (k + 8 * a) / 8 := by omega
  have place : k % 8 = (k + 8 * a) % 8 := by omega
  have index : p - 8 * a + w - 1 - k = p + w - 1 - (k + 8 * a) := by omega
  have moved := h (k + 8 * a)
  rw [bit, bit] at moved
  rw [bit, bit, octet, place, moved, index]
  congr 1
  exact propext ⟨fun _ => by omega, fun _ => by omega⟩

end Writes

/-- Storing `w` bits inside one octet, `b` bits from its top: the new octet has
    the bits of `v` in the field and the old bits beside it. -/
theorem writes_inOctet {m : Memory} {a : Int} {b w v : Nat} {o : Octet} (fits : b + w ≤ 8)
    (bits : ∀ j < 8, o.getMsbD j =
      if b ≤ j ∧ j < b + w then v.testBit (b + w - 1 - j) else (m a).getMsbD j) :
    Writes m (Function.update m a o) (8 * a + b) w v := by
  intro k
  by_cases here : k / 8 = a
  · have position : (k % 8).toNat < 8 := by omega
    rw [bit, here, Function.update_self, bits _ position]
    by_cases inField : b ≤ (k % 8).toNat ∧ (k % 8).toNat < b + w
    · have index : (8 * a + b + w - 1 - k).toNat = b + w - 1 - (k % 8).toNat := by omega
      rw [if_pos inField, if_pos (by omega), index]
    · rw [if_neg inField, if_neg (by omega), bit, here]
  · rw [if_neg (by omega), bit, bit, Function.update_of_ne here]

/-- Replacing one octet is storing an aligned field of eight bits. -/
theorem writes_octet (m : Memory) (a : Int) (o : Octet) :
    Writes m (Function.update m a o) (8 * a) 8 o.toNat := by
  have stored : Writes m (Function.update m a o) (8 * a + (0 : Nat)) 8 o.toNat := by
    apply writes_inOctet (by omega)
    intro j inside
    simp [BitVec.getMsbD, BitVec.getLsbD, inside]
  simpa using stored

/-- An aligned field of eight bits is the octet that stands there. -/
theorem value_octet (m : Memory) (a : Int) : value m (8 * a) 8 = (m a).toNat := by
  have stored := (writes_octet m a (m a)).value_eq
  rw [Function.update_eq_self] at stored
  rw [stored]
  exact Nat.mod_eq_of_lt (m a).isLt

/-- The bits of a field that stays inside one octet are bits of that octet. -/
theorem testBit_value_inOctet (m : Memory) (a : Int) {b w i : Nat} (fits : b + w ≤ 8)
    (low : i < w) : (value m (8 * a + b) w).testBit i = (m a).getMsbD (b + w - 1 - i) := by
  have position : 8 * a + b + w - 1 - (i : Int) = 8 * a + ((b + w - 1 - i : Nat) : Int) := by omega
  rw [testBit_value, position, bit_at m a (by omega)]
  simp [low]

/-- A field inside one octet, by the arithmetic of that octet. -/
theorem value_inOctet (m : Memory) (a : Int) {b w : Nat} (fits : b + w ≤ 8) :
    value m (8 * a + b) w = (m a).toNat / 2 ^ (8 - b - w) % 2 ^ w := by
  apply Nat.eq_of_testBit_eq
  intro i
  rw [Nat.testBit_mod_two_pow, Nat.testBit_div_two_pow]
  by_cases low : i < w
  · have index : 7 - (b + w - 1 - i) = i + (8 - b - w) := by omega
    rw [testBit_value_inOctet m a fits low, BitVec.getMsbD, index, BitVec.testBit_toNat]
    simp [low]
    omega
  · simp [testBit_value, low]

/-- A pointer `a` octets further on reads the field `8 * a` bits further on. -/
theorem value_shift (m : Memory) (a p : Int) (w : Nat) :
    value (fun i => m (i + a)) p w = value m (p + 8 * a) w := by
  induction w with
  | zero => rfl
  | succ w ih =>
      have octet : (p + 8 * a + w) / 8 = (p + w) / 8 + a := by omega
      have place : (p + 8 * a + w) % 8 = (p + w) % 8 := by omega
      rw [value, value, ih, bit, bit, octet, place]

/-- A field is its high part followed by its low part. -/
theorem value_append (m : Memory) (p : Int) (a b : Nat) :
    value m p (a + b) = value m p a * 2 ^ b + value m (p + a) b := by
  induction b with
  | zero => simp
  | succ b ih =>
      have position : p + ((a + b : Nat) : Int) = p + a + b := by omega
      rw [← Nat.add_assoc, value, ih, value, position]
      ring

theorem value_high (m : Memory) (p : Int) (a b : Nat) :
    value m p (a + b) / 2 ^ b = value m p a := by
  rw [value_append, Nat.mul_comm, Nat.mul_add_div (Nat.two_pow_pos b),
    Nat.div_eq_of_lt (value_lt m (p + a) b), Nat.add_zero]

theorem value_low (m : Memory) (p : Int) (a b : Nat) :
    value m p (a + b) % 2 ^ b = value m (p + a) b := by
  rw [value_append, Nat.mul_comm, Nat.mul_add_mod, Nat.mod_eq_of_lt (value_lt m (p + a) b)]

/-- The octet with the given bits, the most significant one first. -/
def octetOf (f : Nat → Bool) : Octet :=
  BitVec.ofBool (f 0) ++ BitVec.ofBool (f 1) ++ BitVec.ofBool (f 2) ++ BitVec.ofBool (f 3) ++
    BitVec.ofBool (f 4) ++ BitVec.ofBool (f 5) ++ BitVec.ofBool (f 6) ++ BitVec.ofBool (f 7)

theorem getMsbD_append_ofBool {w : Nat} (x : BitVec w) (b : Bool) (j : Nat) :
    (x ++ BitVec.ofBool b).getMsbD j = if j < w then x.getMsbD j else decide (j = w) && b := by
  simp only [BitVec.getMsbD_append, BitVec.getMsbD_ofBool]
  by_cases low : j < w
  · simp [low]
  · have last : j - w = 0 ↔ j = w := by omega
    simp [low, Nat.not_lt.mp low, last]

theorem getMsbD_octetOf (f : Nat → Bool) {j : Nat} (inside : j < 8) :
    (octetOf f).getMsbD j = f j := by
  unfold octetOf
  repeat rw [getMsbD_append_ofBool]
  match j, inside with
  | 0, _ | 1, _ | 2, _ | 3, _ | 4, _ | 5, _ | 6, _ | 7, _ => simp

/-- The memory that a store of a field leaves. -/
def put (m : Memory) (p : Int) (w v : Nat) : Memory := fun a =>
  octetOf fun j =>
    if p ≤ 8 * a + j ∧ 8 * a + j < p + w then v.testBit (p + w - 1 - (8 * a + j)).toNat
    else (m a).getMsbD j

theorem writes_put (m : Memory) (p : Int) (w v : Nat) : Writes m (put m p w v) p w v := by
  intro k
  have place : 8 * (k / 8) + ((k % 8).toNat : Int) = k := by omega
  rw [bit, put, getMsbD_octetOf _ (by omega), place, bit]

/-- The memory that a store of fields of one width leaves, one behind the other. -/
def putAll (m : Memory) (p : Int) (w : Nat) : List Nat → Memory
  | [] => m
  | v :: vs => putAll (put m p w v) (p + w) w vs

theorem putAll_outside (m : Memory) (p : Int) (w : Nat) (vs : List Nat) {k : Int}
    (away : k < p ∨ p + (w * vs.length : Nat) ≤ k) : bit (putAll m p w vs) k = bit m k := by
  induction vs generalizing m p with
  | nil => rfl
  | cons v vs ih =>
      have width : w * (v :: vs).length = w + w * vs.length := by
        rw [List.length_cons, Nat.mul_succ, Nat.add_comm]
      rw [width] at away
      rw [putAll, ih _ _ (by omega), (writes_put m p w v).outside (by omega)]

/-- A store of several fields leaves every field that does not meet them. -/
theorem putAll_away (m : Memory) (p : Int) (w : Nat) (vs : List Nat) {q : Int} {u : Nat}
    (away : q + u ≤ p ∨ p + (w * vs.length : Nat) ≤ q) :
    value (putAll m p w vs) q u = value m q u :=
  value_congr fun _ _ _ => putAll_outside m p w vs (by omega)

theorem value_putAll (m : Memory) (p : Int) (w : Nat) {vs : List Nat} {i v : Nat}
    (listed : vs[i]? = some v) (small : ∀ x ∈ vs, x < 2 ^ w) :
    value (putAll m p w vs) (p + (w * i : Nat)) w = v := by
  induction vs generalizing m p i with
  | nil => cases listed
  | cons x vs ih =>
      have rest : ∀ y ∈ vs, y < 2 ^ w := fun y mem => small y (List.mem_cons_of_mem x mem)
      cases i with
      | zero =>
          obtain rfl : x = v := Option.some.inj listed
          have first := (writes_put m p w x).value_eq
          rw [Nat.mod_eq_of_lt (small x List.mem_cons_self)] at first
          rw [putAll, Nat.mul_zero, putAll_away _ _ _ _ (by omega)]
          exact (congrArg (value _ · w) (Int.add_zero p)).trans first
      | succ i =>
          have place : p + (w * (i + 1) : Nat) = p + w + (w * i : Nat) := by
            rw [Nat.mul_succ]
            omega
          rw [putAll, place]
          exact ih _ _ listed rest

end BitField

import Mathlib.Algebra.Order.Ring.Int
import Mathlib.Data.List.Basic
import Mathlib.Data.List.DropRight

/-! # Octet strings in Perl

Strings of octets as the Perl operators see them. An undefined string counts as an empty
one wherever it is read.
-/

namespace Perl

/-- A string of octets or `undef`. -/
abbrev Str := Option (List UInt8)

def Str.octets (s : Str) : List UInt8 := s.getD []

@[simp] theorem Str.octets_some (l : List UInt8) : Str.octets (some l) = l := rfl
@[simp] theorem Str.octets_none : Str.octets none = [] := rfl

/-- `length`, where `undef` is 0 as a number. -/
def Str.len (s : Str) : Nat := s.octets.length

@[simp] theorem Str.len_some (l : List UInt8) : Str.len (some l) = l.length := rfl
@[simp] theorem Str.len_none : Str.len none = 0 := rfl

/-- `substr(s, pos, len)` and, without a length, `substr(s, pos)`. A negative position
    counts from the end, a negative length leaves that many octets off the end. -/
@[grind =]
def substr (s : Str) (pos : Int) (len : Option Int) : Str :=
  let n : Int := s.len
  let first := if pos < 0 then n + pos else pos
  let last := match len with
    | none => n
    | some l => if l < 0 then n + l else first + l
  if n < first ∨ first < 0 ∧ last < 0 then none
  else
    let first := first.toNat
    some ((s.octets.drop first).take (last.toNat - first))

/-- A position that is not past the end, and everything behind it. -/
theorem substr_from (s : Str) (pos : Nat) :
    substr s pos none = if s.len < pos then none else some (s.octets.drop pos) := by
  have positive : ¬ (pos : Int) < 0 := by omega
  simp only [substr, positive, if_false, false_and, or_false, Nat.cast_lt, Int.toNat_natCast]
  split
  · rfl
  · rw [List.take_of_length_le]
    simp [Str.len]

/-- So many octets at a position that is not past the end. -/
theorem substr_part (s : Str) (pos len : Nat) :
    substr s pos (some (len : Int)) =
      if s.len < pos then none else some ((s.octets.drop pos).take len) := by
  have positive : ¬ (pos : Int) < 0 := by omega
  have positive' : ¬ (len : Int) < 0 := by omega
  simp only [substr, positive, positive', if_false, false_and, or_false, Nat.cast_lt,
    Int.toNat_natCast]
  split
  · rfl
  · rw [show (pos + len : Int).toNat - pos = len by omega]

/-- So many octets from the beginning. -/
theorem substr_first (s : Str) (len : Nat) :
    substr s 0 (some (len : Int)) = some (s.octets.take len) := by
  have first := substr_part s 0 len
  rwa [Nat.cast_zero, if_neg (Nat.not_lt_zero _), List.drop_zero] at first

/-- What is behind the octets in front. -/
theorem substr_behind (front behind : List UInt8) :
    substr (some (front ++ behind)) front.length none = some behind := by
  rw [substr_from, if_neg (by simp), Str.octets_some, List.drop_left]

/-- As many octets behind those in front as asked for, if there are so many. -/
theorem substr_middle (front behind : List UInt8) (len : Nat) :
    substr (some (front ++ behind)) front.length (some len) = some (behind.take len) := by
  rw [substr_part, if_neg (by simp), Str.octets_some, List.drop_left]

/-- All of them, with the length they have. -/
theorem substr_behind_length (front behind : List UInt8) {len : Int}
    (length : len = behind.length) :
    substr (some (front ++ behind)) front.length (some len) = some behind := by
  rw [length, substr_middle, List.take_length]

/-- Everything but the octets behind, of which there has to be one. -/
theorem substr_before (front : List UInt8) {behind : List UInt8} (nonempty : behind ≠ []) :
    substr (some (front ++ behind)) 0 (some (-(behind.length : Int))) = some front := by
  have negative : (-(behind.length : Int)) < 0 := by
    have := List.length_pos_iff.mpr nonempty
    omega
  have last : (((front ++ behind).length : Int) + -(behind.length : Int)).toNat = front.length := by
    rw [List.length_append]
    omega
  simp only [substr, Str.len_some, negative, if_true, last, Int.lt_irrefl, if_false, false_and,
    or_false, Int.toNat_zero, List.drop_zero, Nat.sub_zero, Str.octets_some, List.take_left]
  rw [if_neg (by omega)]

theorem substr_len_le (s : Str) (pos : Int) (len : Option Int) :
    (substr s pos len).len ≤ s.len := by
  unfold substr
  extract_lets n first last start
  split
  · simp
  · simp only [Str.len_some, List.length_take, List.length_drop]
    exact le_trans (Nat.min_le_right _ _) (Nat.sub_le _ _)

/-- What is behind some octets is shorter than they are together. -/
theorem substr_from_lt (s : Str) (pos : Int) (positive : 0 < pos) (nonempty : 0 < s.len) :
    (substr s pos none).len < s.len := by
  obtain ⟨n, rfl⟩ := Int.eq_ofNat_of_zero_le (Int.le_of_lt positive)
  rw [substr_from]
  split
  · exact nonempty
  · rw [Str.len_some, List.length_drop]
    unfold Str.len at nonempty ⊢
    omega

/-- The octets of a number, the most significant one first. -/
@[grind =]
def be (octets : List UInt8) : Nat := octets.foldl (fun n b => 256 * n + b.toNat) 0

/-- A hexadecimal digit. -/
abbrev Digit := Fin 16

scoped instance neZero_sixteen : NeZero 16 := ⟨by decide⟩

def hexOctet (b : UInt8) : List Digit :=
  [⟨b.toNat / 16, by have := b.toNat_lt; omega⟩, ⟨b.toNat % 16, Nat.mod_lt _ (by decide)⟩]

/-- `unpack('H*')`. -/
def hex (octets : List UInt8) : List Digit := octets.flatMap hexOctet

/-- `pack('H*')`, where a last digit without a second one is the upper half of its octet. -/
def unhex : List Digit → List UInt8
  | [] => []
  | [d] => [UInt8.ofNat (16 * d)]
  | d :: e :: digits => UInt8.ofNat (16 * d + e) :: unhex digits

@[simp] theorem length_hex (octets : List UInt8) : (hex octets).length = 2 * octets.length := by
  induction octets with
  | nil => rfl
  | cons b octets ih =>
      simp only [hex, List.flatMap_cons, List.length_append, List.length_cons] at ih ⊢
      rw [ih]
      simp only [hexOctet, List.length_cons, List.length_nil]
      omega

/-- The digit that `pack('H')` takes a character for. -/
def hexDigit (c : UInt8) : Digit :=
  let letter := 0x41 ≤ c ∧ c ≤ 0x5a ∨ 0x61 ≤ c ∧ c ≤ 0x7a
  ⟨(c.toNat + if letter then 9 else 0) % 16, Nat.mod_lt _ (by decide)⟩

theorem length_unhex (digits : List Digit) : (unhex digits).length = (digits.length + 1) / 2 := by
  fun_induction unhex digits with
  | case1 => rfl
  | case2 => simp
  | case3 d e digits ih =>
      simp only [List.length_cons, ih]
      omega

@[simp] theorem unhex_hex (octets : List UInt8) : unhex (hex octets) = octets := by
  induction octets with
  | nil => rfl
  | cons b octets ih =>
      have same : UInt8.ofNat (16 * (b.toNat / 16) + b.toNat % 16) = b := by
        rw [Nat.div_add_mod]
        exact UInt8.ofNat_toNat
      simp only [hex, List.flatMap_cons, hexOctet, List.cons_append, List.nil_append, unhex]
        at ih ⊢
      rw [ih, same]

/-- `split` at a single character. Empty fields at the end are left out. -/
def split (separator : UInt8) (s : Str) : List (List UInt8) :=
  (s.octets.splitOn separator).rdropWhile List.isEmpty

/-- Fields that are joined come apart again, with and without a separator at the end. -/
theorem split_intercalate (separator : UInt8) {fields : List (List UInt8)}
    (apart : ∀ field ∈ fields, separator ∉ field) (filled : ∀ field ∈ fields, field ≠ []) :
    split separator (some ([separator].intercalate fields)) = fields ∧
      split separator (some ([separator].intercalate (fields ++ [[]]))) = fields := by
  have kept : fields.rdropWhile List.isEmpty = fields := by
    rw [List.rdropWhile_eq_self_iff]
    intro nonempty
    simpa using filled _ (List.getLast_mem nonempty)
  have dropped : (fields ++ [[]]).rdropWhile List.isEmpty = fields := by
    rw [List.rdropWhile_concat_pos _ _ _ rfl, kept]
  constructor
  · cases fields with
    | nil => rfl
    | cons field fields =>
        rw [split, Str.octets_some, List.splitOn_intercalate _ apart (by simp), kept]
  · rw [split, Str.octets_some, List.splitOn_intercalate, dropped]
    · intro field mem
      rw [List.mem_append, List.mem_singleton] at mem
      rcases mem with mem | rfl
      · exact apart field mem
      · exact List.not_mem_nil
    · simp

/-- What a condition makes of a string: no octets and a single `'0'` are false. -/
def Str.truth (s : Str) : Bool := s.octets ≠ [] && s.octets ≠ [0x30]

/-- `$s = '' unless $s`. -/
def Str.orEmpty (s : Str) : List UInt8 := if s.truth then s.octets else []

/-- Only `'0'` counts as false and is not empty. -/
theorem Str.orEmpty_eq (s : Str) : s.orEmpty = if s.octets = [0x30] then [] else s.octets := by
  unfold Str.orEmpty Str.truth
  by_cases none_ : s.octets = []
  · simp [none_]
  · by_cases zero : s.octets = [0x30] <;> simp [none_, zero]

theorem Str.orEmpty_of_len {s : Str} (other : s.len ≠ 1) : s.orEmpty = s.octets := by
  rw [Str.orEmpty_eq, if_neg]
  intro zero
  exact other (congrArg List.length zero)

/-- `.=`. -/
def Str.append (s t : Str) : Str := some (s.octets ++ t.octets)

@[simp] theorem Str.octets_append (s t : Str) : (s.append t).octets = s.octets ++ t.octets := rfl

/-- The octets of a number, the most significant one first. What does not fit is cut off. -/
@[grind =]
def packInt : Nat → Nat → List UInt8
  | 0, _ => []
  | size + 1, n => packInt size (n / 256) ++ [UInt8.ofNat n]

/-- `pack` with a template of numbers (`C`, `n` and `N`), each with the size it has there. -/
def pack (fields : List (Nat × Nat)) : List UInt8 :=
  fields.flatMap fun field => packInt field.1 field.2

/-- What stands for no digits at all. -/
def noDigits : List Digit := [0]

/-- `pack('H' . n)`, which fills up with zeros. -/
def packH (n : Nat) (digits : List Digit) : List UInt8 :=
  unhex ((digits ++ List.replicate n 0).take n)

theorem length_packH (n : Nat) (digits : List Digit) :
    (packH (2 * n) digits).length = n := by
  simp only [packH, length_unhex, List.length_take, List.length_append, List.length_replicate]
  omega

/-- The digits of octets are packed to these. -/
theorem packH_hex (octets : List UInt8) : packH (octets.length * 2) (hex octets) = octets := by
  rw [packH, List.take_left' (by rw [length_hex, Nat.mul_comm]), unhex_hex]

/-- The number in so many octets at a position. -/
def field (octets : List UInt8) (pos size : Nat) : Nat := be ((octets.drop pos).take size)

@[simp] theorem length_packInt (size n : Nat) : (packInt size n).length = size := by
  induction size generalizing n with
  | zero => rfl
  | succ size ih => simp [packInt, ih]

@[simp] theorem length_pack (fields : List (Nat × Nat)) :
    (pack fields).length = (fields.map Prod.fst).sum := by
  simp only [pack, List.length_flatMap, length_packInt]

@[simp] theorem pack_nil : pack [] = [] := rfl

@[simp] theorem pack_cons (size n : Nat) (fields : List (Nat × Nat)) :
    pack ((size, n) :: fields) = packInt size n ++ pack fields := rfl

theorem pack_append (l m : List (Nat × Nat)) : pack (l ++ m) = pack l ++ pack m :=
  List.flatMap_append

theorem be_packInt (size n : Nat) : be (packInt size n) = n % 256 ^ size := by
  induction size generalizing n with
  | zero => simp [packInt, be, Nat.mod_one]
  | succ size ih =>
      have last : (UInt8.ofNat n).toNat = n % 256 := rfl
      simp only [be, packInt, List.foldl_append, List.foldl_cons, List.foldl_nil] at ih ⊢
      rw [ih, last, pow_succ', Nat.mod_mul]
      exact Nat.add_comm _ _

/-- What does not fit makes no difference. -/
theorem packInt_mod (size n : Nat) : packInt size (n % 256 ^ size) = packInt size n := by
  induction size generalizing n with
  | zero => rfl
  | succ size ih =>
      have front : n % 256 ^ (size + 1) / 256 = n / 256 % 256 ^ size := by
        rw [pow_succ', Nat.mod_mul_right_div_self]
      have last : UInt8.ofNat (n % 256 ^ (size + 1)) = UInt8.ofNat n := by
        rw [← UInt8.toNat_inj, UInt8.toNat_ofNat', UInt8.toNat_ofNat', pow_succ']
        exact Nat.mod_mul_right_mod n 256 _
      rw [packInt, packInt, front, last, ih]

theorem be_append (front behind : List UInt8) :
    be (front ++ behind) = be front * 256 ^ behind.length + be behind := by
  induction behind using List.reverseRecOn with
  | nil => simp [be]
  | append_singleton behind b ih =>
      simp only [be, ← List.append_assoc, List.foldl_append, List.foldl_cons, List.foldl_nil]
        at ih ⊢
      rw [ih, List.length_append, List.length_singleton, pow_succ', Nat.mul_add,
        Nat.mul_left_comm, Nat.add_assoc]

theorem packInt_append (front behind n : Nat) :
    packInt (front + behind) n = packInt front (n / 256 ^ behind) ++ packInt behind n := by
  induction behind generalizing n with
  | zero => simp [packInt]
  | succ behind ih =>
      rw [← Nat.add_assoc, packInt, ih, packInt, List.append_assoc, Nat.div_div_eq_div_mul,
        pow_succ']

theorem packInt_be (octets : List UInt8) : packInt octets.length (be octets) = octets := by
  induction octets using List.reverseRecOn with
  | nil => rfl
  | append_singleton octets b ih =>
      have last := b.toNat_lt
      have single : be [b] = b.toNat := by simp [be]
      rw [List.length_append, List.length_singleton, packInt, be_append, single,
        List.length_singleton, pow_one, Nat.mul_comm, Nat.mul_add_div (by decide),
        Nat.div_eq_of_lt last, Nat.add_zero, ih]
      congr 2
      rw [← UInt8.toNat_inj, UInt8.toNat_ofNat', Nat.mul_add_mod, Nat.mod_eq_of_lt last]

/-- A number is read where it was packed, as far as it fits. -/
theorem field_pack (before : List (Nat × Nat)) (size n : Nat) (behind : List (Nat × Nat))
    (rest : List UInt8) :
    field (pack (before ++ (size, n) :: behind) ++ rest) (before.map Prod.fst).sum size =
      n % 256 ^ size := by
  rw [← length_pack]
  simp only [field, pack_append, pack_cons, List.append_assoc, List.drop_left]
  rw [List.take_left' (length_packInt size n), be_packInt]

/-- An item of a template for `unpack`: a number of so many octets (`C`, `n` and `N`), or so
    many hexadecimal digits (`H`), where none stands for all there are. -/
inductive Template where
  | int (octets : Nat)
  | H (digits : Option Nat)
deriving DecidableEq, Repr

inductive Item where
  | num (n : Nat)
  | digits (l : List Digit)
deriving DecidableEq, Repr

/-- `unpack`. What is too short for a number is left to the next item. -/
@[grind =]
def unpack : List Template → List UInt8 → List Item
  | [], _ => []
  | .int size :: template, data =>
      if data.length < size then unpack template data
      else .num (be (data.take size)) :: unpack template (data.drop size)
  | .H none :: template, data => .digits (hex data) :: unpack template []
  | .H (some n) :: template, data =>
      .digits ((hex data).take n) :: unpack template (data.drop ((n + 1) / 2))

/-- What was packed is unpacked again, in front of anything else. -/
theorem unpack_pack (fields : List (Nat × Nat)) (fits : ∀ f ∈ fields, f.2 < 256 ^ f.1)
    (rest : List UInt8) :
    unpack (fields.map fun f => .int f.1) (pack fields ++ rest) = fields.map fun f => .num f.2 := by
  induction fields with
  | nil => rfl
  | cons f fields ih =>
      obtain ⟨size, n⟩ := f
      have enough : ¬ (packInt size n ++ (pack fields ++ rest)).length < size := by
        simp only [List.length_append, length_packInt]
        omega
      have number : be (packInt size n) = n := by
        rw [be_packInt]
        exact Nat.mod_eq_of_lt (fits (size, n) (by simp))
      simp only [List.map_cons, pack_cons, List.append_assoc, unpack, if_neg enough]
      rw [List.take_left' (length_packInt _ _), List.drop_left' (length_packInt _ _), number,
        ih fun f mem => fits f (by simp [mem])]

/-- Without a bound on the numbers, what fits of them is unpacked. -/
theorem unpack_pack_mod (fields : List (Nat × Nat)) (rest : List UInt8) :
    unpack (fields.map fun f => .int f.1) (pack fields ++ rest) =
      fields.map fun f => .num (f.2 % 256 ^ f.1) := by
  have cut : pack fields = pack (fields.map fun f => (f.1, f.2 % 256 ^ f.1)) := by
    rw [pack, pack, List.flatMap_map]
    exact List.flatMap_congr fun f _ => (packInt_mod f.1 f.2).symm
  have unpacked := unpack_pack (fields.map fun f => (f.1, f.2 % 256 ^ f.1)) (by
    intro f mem
    obtain ⟨g, -, rfl⟩ := List.mem_map.mp mem
    exact Nat.mod_lt _ (Nat.pow_pos (by decide))) rest
  rw [List.map_map, List.map_map] at unpacked
  rw [cut]
  exact unpacked

/-- The variable a list of items is assigned to, where it is used as a number. -/
def Item.num? : Option Item → Option Nat
  | some (.num n) => some n
  | _ => none

def Item.digits? : Option Item → Option (List Digit)
  | some (.digits l) => some l
  | _ => none

theorem be_lt (octets : List UInt8) : be octets < 256 ^ octets.length := by
  induction octets using List.reverseRecOn with
  | nil => decide
  | append_singleton octets b ih =>
      have last := b.toNat_lt
      simp only [be, List.foldl_append, List.foldl_cons, List.foldl_nil] at ih ⊢
      rw [List.length_append, List.length_singleton, pow_succ]
      omega

/-- A template of numbers gives numbers that fit its sizes. -/
theorem unpack_lt {size : Nat} {template : List Template}
    (sizes : ∀ t ∈ template, ∃ n ≤ size, t = .int n) (data : List UInt8) :
    ∀ item ∈ unpack template data, ∃ n < 256 ^ size, item = .num n := by
  induction template generalizing data with
  | nil => simp [unpack]
  | cons t template ih =>
      obtain ⟨n, le, rfl⟩ := sizes t (by simp)
      have rest := ih fun t mem => sizes t (by simp [mem])
      unfold unpack
      split
      · exact rest data
      · rename_i enough
        intro item mem
        rcases List.mem_cons.mp mem with rfl | mem
        · refine ⟨_, Nat.lt_of_lt_of_le (be_lt _) (Nat.pow_le_pow_right (by decide) ?_), rfl⟩
          rw [List.length_take]
          omega
        · exact rest _ item mem

/-- The highest bit of 16, and the others. -/
theorem word_high (n : Nat) : (n &&& 0x8000) >>> 15 = n / 2 ^ 15 % 2 := by
  rw [Nat.shiftRight_and_distrib, Nat.shiftRight_eq_div_pow]
  exact Nat.and_one_is_mod _

theorem word_low (n : Nat) : n &&& 0x7fff = n % 2 ^ 15 := Nat.and_two_pow_sub_one_eq_mod n 15

/-- `unpack('C')`, `unpack('n')` and `unpack('N')` of a string. -/
def unpackInt (size : Nat) (s : Str) : Option Nat :=
  Item.num? (unpack [.int size] s.octets)[0]?

theorem unpackInt_eq (size : Nat) (s : Str) :
    unpackInt size s = if s.len < size then none else some (be (s.octets.take size)) := by
  unfold unpackInt
  by_cases short : s.len < size
  · simp only [unpack, Str.len] at short ⊢
    simp [short, Item.num?]
  · simp only [unpack, Str.len] at short ⊢
    simp [short, Item.num?]

theorem unpackInt_take {size : Nat} {l : List UInt8} (enough : size ≤ l.length) :
    unpackInt size (some (l.take size)) = some (be (l.take size)) := by
  rw [unpackInt_eq, if_neg, Str.octets_some, List.take_take, Nat.min_self]
  rw [Str.len_some, List.length_take]
  omega

theorem unpackInt_packInt {size n : Nat} (fits : n < 256 ^ size) (rest : List UInt8) :
    unpackInt size (some (packInt size n ++ rest)) = some n := by
  rw [unpackInt_eq, if_neg (by simp), Str.octets_some, List.take_left' (length_packInt _ _),
    be_packInt, Nat.mod_eq_of_lt fits]

end Perl

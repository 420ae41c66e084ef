import Tahi.General.Der
import Tahi.Kink.KerberosRoundTrip

/-! # An encoded Kerberos error in the distinguished encoding

Lengths cover what they have to. An integer is in two's complement as long as the first bit of its
octets is not set, for the encoder never puts a zero in front.
-/

namespace Tahi.Kink

open Perl Der

/-- The number fills its octets up to their first bit. -/
def SetsFirstBit (n : Nat) : Prop := ∃ k, 2 ^ (8 * k + 7) ≤ n ∧ n < 2 ^ (8 * k + 8)

theorem SetsFirstBit.le {n : Nat} (set : SetsFirstBit n) : 128 ≤ n := by
  obtain ⟨k, ge, -⟩ := set
  have least : 2 ^ 7 ≤ 2 ^ (8 * k + 7) :=
    Nat.pow_le_pow_right (by decide) (Nat.le_add_left 7 (8 * k))
  exact Nat.le_trans least ge

section Octets

/-- There is no zero in front, and the first octet has the first bit of the number. -/
theorem hexOctets_cons (n : Nat) : ∃ a rest, hexOctets n = a :: rest ∧ (n ≠ 0 → a ≠ 0) ∧
    (rest ≠ [] → 256 ≤ n) ∧ (0x80 ≤ a ↔ SetsFirstBit n) := by
  induction n using Nat.strong_induction_on with
  | _ n ih =>
      by_cases short : n < 256
      · have number : (UInt8.ofNat n).toNat = n := by
          rw [UInt8.toNat_ofNat', Nat.mod_eq_of_lt short]
        refine ⟨UInt8.ofNat n, [], hexOctets_one short, fun some zero => some ?_, by simp, ?_⟩
        · rw [← number, zero]
          rfl
        · rw [UInt8.le_iff_toNat_le, number]
          exact ⟨fun set => ⟨0, set, short⟩, SetsFirstBit.le⟩
      · obtain ⟨a, rest, octets, some, -, set⟩ := ih (n / 256) (by omega)
        refine ⟨a, rest ++ [UInt8.ofNat n], ?_, fun _ => some (by omega), fun _ => by omega, ?_⟩
        · rw [hexOctets_of_le (by omega), octets, List.cons_append]
        · rw [set]
          constructor
          · rintro ⟨k, ge, lt⟩
            refine ⟨k + 1, ?_, ?_⟩
            · rw [show 8 * (k + 1) + 7 = 8 * k + 7 + 8 by omega, pow_add]
              exact (Nat.le_div_iff_mul_le (by decide)).mp ge
            · rw [show 8 * (k + 1) + 8 = 8 * k + 8 + 8 by omega, pow_add]
              exact (Nat.div_lt_iff_lt_mul (by decide)).mp lt
          · rintro ⟨k, ge, lt⟩
            cases k with
            | zero => exact absurd lt short
            | succ k =>
                rw [show 8 * (k + 1) + 7 = 8 * k + 7 + 8 by omega, pow_add] at ge
                rw [show 8 * (k + 1) + 8 = 8 * k + 8 + 8 by omega, pow_add] at lt
                exact ⟨k, (Nat.le_div_iff_mul_le (by decide)).mpr ge,
                  (Nat.div_lt_iff_lt_mul (by decide)).mpr lt⟩

theorem integer_hexOctets (n : Nat) : Der.Integer (hexOctets n) n ↔ ¬ SetsFirstBit n := by
  have number := be_hexOctets n
  obtain ⟨a, rest, octets, some, long, set⟩ := hexOctets_cons n
  have few : rest ≠ [] → a ≠ 0 := fun more => some (by have := long more; omega)
  have iff := integer_be_iff few
  rw [octets] at number ⊢
  rw [number] at iff
  rw [iff, ← set, UInt8.not_le]

theorem length_encode_ASN1_Length {n : Nat} (fits : n < 2 ^ 64) :
    Der.Length n (encode_ASN1_Length n) := by
  by_cases short : n < 128
  · rw [encode_ASN1_Length, if_neg (by omega), hexOctets_one (by omega)]
    exact .short short
  · have number := be_hexOctets n
    have few := @length_hexOctets_le n 7 (by omega)
    obtain ⟨a, rest, octets, some, -⟩ := hexOctets_cons n
    have first : (hexOctets n).head? ≠ .some 0 := by
      rw [octets, List.head?_cons]
      exact fun zero => some (by omega) (Option.some.inj zero)
    have long := Der.Length.long (by omega) first (by rw [number]; omega)
    rw [encode_ASN1_Length, if_pos (by omega)]
    rwa [number] at long

variable (type : Nat) {value : List UInt8} (fits : value.length < 2 ^ 64)
include fits

theorem encodes_primitive (octets : UInt8.ofNat type &&& 0x20 = 0) :
    Encodes (.primitive (UInt8.ofNat type) value) (asn1 type value) :=
  .primitive octets (length_encode_ASN1_Length fits)

theorem encodes_constructed (inside : UInt8.ofNat type &&& 0x20 ≠ 0) {elements : List Element}
    (all : EncodesAll elements value) :
    Encodes (.constructed (UInt8.ofNat type) elements) (asn1 type value) :=
  .constructed inside all (length_encode_ASN1_Length fits)

end Octets

/-! ## The elements of an error -/

/-- An integer, strings in a sequence, and so on, each with the tag of its type. -/
def Name.IsElement (p : Name) (e : Element) : Prop :=
  ∃ type, Der.Integer type p.nameType ∧
    e = .constructed 0x30 [
      .constructed 0xa0 [.primitive 0x02 type],
      .constructed 0xa1 [.constructed 0x30 (p.nameString.map (.primitive 0x1b))]]

namespace Field

def IsElement : Field → Element → Prop
  | integer n, e => ∃ contents, Der.Integer contents n ∧ e = .primitive 0x02 contents
  | time s, e => e = .primitive 0x18 (s ++ [0x5a])
  | text s, e => e = .primitive 0x1b s
  | name p, e => p.IsElement e
  | octets digits, e => e = .primitive 0x04 (unhex digits)

def integers : Field → List Nat
  | integer n => [n]
  | name p => [p.nameType]
  | _ => []

def strings : Field → List (List UInt8)
  | text s => [s]
  | name p => p.nameString
  | _ => []

end Field

namespace KrbError

def integers (e : KrbError) : List Nat := e.fields.flatMap fun f => f.2.integers

def strings (e : KrbError) : List (List UInt8) := e.fields.flatMap fun f => f.2.strings

/-- `[APPLICATION 30] SEQUENCE`, with the fields under their indexes. -/
def Encoded (e : KrbError) (octets : List UInt8) : Prop :=
  ∃ elements, Encodes (.constructed 0x7e [.constructed 0x30 elements]) octets ∧
    List.Forall₂ (fun f element => ∃ inner, f.2.IsElement inner ∧
      element = .constructed (UInt8.ofNat (0xa0 + f.1)) [inner]) e.fields elements

/-- The fields are decoded under their indexes. -/
def Returned (e : KrbError) (octets : List UInt8) : Prop :=
  ∃ krb_error seq elements, decode_Kerberos_KRB_ERROR (some octets) = .ok krb_error ∧
    krb_error.value = .nested seq ∧ seq.value = .sequence elements ∧
    List.Forall₂ (fun f tlv => TLV.At f.1 f.2.Decoded tlv) e.fields elements

end KrbError

namespace Field

/-- What is encoded, whatever its integers are read as. -/
def element : Field → Element
  | integer n => .primitive 0x02 (hexOctets n)
  | time s => .primitive 0x18 (s ++ [0x5a])
  | text s => .primitive 0x1b s
  | name p => .constructed 0x30 [
      .constructed 0xa0 [.primitive 0x02 (hexOctets p.nameType)],
      .constructed 0xa1 [.constructed 0x30 (p.nameString.map (.primitive 0x1b))]]
  | octets digits => .primitive 0x04 (unhex digits)

theorem encodes_element (field : Field) (fits : field.encode.length < 2 ^ 64) :
    Encodes field.element field.encode := by
  cases field with
  | integer | time | text | octets =>
      exact encodes_primitive _ (Nat.lt_trans (length_asn1 ..) fits) (by decide)
  | name p =>
      have inside := Nat.lt_trans (length_asn1 ..) fits
      rw [List.length_append] at inside
      have type := Nat.lt_trans (length_asn1 ..) (Nat.lt_of_le_of_lt (Nat.le_add_right ..) inside)
      have string := Nat.lt_trans (length_asn1 ..) (Nat.lt_of_le_of_lt (Nat.le_add_left ..) inside)
      have strings := Nat.lt_trans (length_asn1 ..) string
      have components : EncodesAll (p.nameString.map (.primitive 0x1b))
          (p.nameString.flatMap (asn1 0x1b)) :=
        .flatMap fun s mem => encodes_primitive 0x1b (Nat.lt_trans (length_asn1 0x1b s)
          (Nat.lt_of_le_of_lt (length_le_flatMap (asn1 0x1b) mem) strings)) (by decide)
      refine encodes_constructed _ (Nat.lt_trans (length_asn1 ..) fits) (by decide) (.cons ?_
        (.single ?_))
      · exact encodes_constructed _ type (by decide)
          (.single (encodes_primitive _ (Nat.lt_trans (length_asn1 ..) type) (by decide)))
      · exact encodes_constructed _ string (by decide)
          (.single (encodes_constructed _ strings (by decide) components))

theorem isElement_element (field : Field) :
    field.IsElement field.element ↔ ∀ n ∈ field.integers, ¬ SetsFirstBit n := by
  cases field with
  | integer n =>
      simp [IsElement, element, integers, ← integer_hexOctets]
  | name p =>
      simp [IsElement, Name.IsElement, element, integers, ← integer_hexOctets]
  | time | text | octets => simp [IsElement, element, integers]

theorem trimmed_eq {field : Field} (ends : ∀ s ∈ field.strings, ∀ c ∈ s.getLast?, c ∉ blanks) :
    field.trimmed = field := by
  have kept {s : List UInt8} (last : ∀ c ∈ s.getLast?, c ∉ blanks) : Kink.trimmed s = s := by
    rw [Kink.trimmed, List.rdropWhile_eq_self_iff]
    intro some
    simpa using last _ (List.getLast_mem_getLast? some)
  cases field with
  | text s => exact congrArg text (kept (ends s (List.mem_singleton_self s)))
  | name p =>
      have all : p.nameString.map Kink.trimmed = p.nameString := by
        conv_rhs => rw [← List.map_id p.nameString]
        exact List.map_congr_left fun s mem => kept (ends s mem)
      simp only [trimmed, Name.trimmed, all]
  | integer | time | octets => rfl

end Field

namespace KrbError

variable {e : KrbError} {octets : List UInt8}
  (encoded : encode_Kerberos_KRB_ERROR e.packet = .ok octets) (fits : octets.length < 2 ^ 64)

include encoded fits

/-- The octets are those of the elements, which no others have. -/
theorem encoded_iff : e.Encoded octets ↔ ∀ n ∈ e.integers, ¬ SetsFirstBit n := by
  rw [encode_Kerberos_KRB_ERROR_eq] at encoded
  obtain rfl := Except.ok.inj encoded
  have inner := Nat.lt_trans (length_asn1 ..) fits
  have short := Nat.lt_trans (length_asn1 ..) inner
  let elements := e.fields.map fun f =>
    Element.constructed (UInt8.ofNat (0xa0 + f.1)) [f.2.element]
  have context : ∀ i < 13, UInt8.ofNat (0xa0 + i) &&& 0x20 ≠ 0 := by decide
  have all : EncodesAll elements (parts (fun f => (0xa0 + f.1, f.2.encode)) e.fields) := by
    refine .flatMap fun f mem => ?_
    have place := (List.getElem?_eq_some_iff.mp (mem_fields mem)).1
    have length := Nat.lt_trans
      (length_lt_parts (fun f : Nat × Field => (0xa0 + f.1, f.2.encode)) mem) short
    exact encodes_constructed _ length (context f.1 place) (.single (f.2.encodes_element length))
  have whole := encodes_constructed 0x7e inner (by decide)
    (.single (encodes_constructed 0x30 short (by decide) all))
  have each : (∀ f ∈ e.fields, f.2.IsElement f.2.element) ↔
      ∀ n ∈ e.integers, ¬ SetsFirstBit n := by
    simp only [Field.isElement_element, integers, List.mem_flatMap]
    constructor
    · rintro fit n ⟨f, mem, isInteger⟩
      exact fit f mem n isInteger
    · intro fit f mem n isInteger
      exact fit n ⟨f, mem, isInteger⟩
  rw [← each]
  constructor
  · rintro ⟨others, encodes, fields⟩
    have same := encodes.eq whole
    simp only [Element.constructed.injEq, List.cons.injEq, and_true] at same
    obtain ⟨-, -, rfl⟩ := same
    simp only [elements, List.forall₂_map_right_iff, List.forall₂_same] at fields
    intro f mem
    obtain ⟨inner, is_, eq⟩ := fields f mem
    simp only [Element.constructed.injEq, List.cons.injEq, true_and, and_true] at eq
    rwa [eq]
  · intro fit
    refine ⟨elements, whole, ?_⟩
    simp only [elements, List.forall₂_map_right_iff, List.forall₂_same]
    exact fun f mem => ⟨f.2.element, fit f mem, rfl⟩

theorem returned (ends : ∀ s ∈ e.strings, ∀ c ∈ s.getLast?, c ∉ blanks) : e.Returned octets := by
  obtain ⟨krb_error, seq, elements, decodes, outer, inner, fields⟩ :=
    decode_Kerberos_KRB_ERROR_fields e encoded fits
  have same : e.fields.map (fun f => (f.1, f.2.trimmed)) = e.fields := by
    conv_rhs => rw [← List.map_id e.fields]
    refine List.map_congr_left fun f mem => ?_
    rw [Field.trimmed_eq fun s is_ => ends s (List.mem_flatMap.mpr ⟨f, mem, is_⟩)]
    rfl
  refine ⟨krb_error, seq, elements, decodes, outer, inner, ?_⟩
  rwa [← same, List.forall₂_map_left_iff]

omit encoded fits

/-- Everything but the sign of the integers is right, and that is, too, unless one of them sets the
    first bit of its octets. -/
theorem encode_decode_iff (e : KrbError) (ends : ∀ s ∈ e.strings, ∀ c ∈ s.getLast?, c ∉ blanks) :
    ∃ octets, encode_Kerberos_KRB_ERROR e.packet = .ok octets ∧
      (octets.length < 2 ^ 64 →
        (e.Encoded octets ∧ e.Returned octets ↔ ∀ n ∈ e.integers, ¬ SetsFirstBit n)) := by
  have encoded := encode_Kerberos_KRB_ERROR_eq e
  refine ⟨_, encoded, fun fits => ?_⟩
  rw [encoded_iff encoded fits, and_iff_left (returned encoded fits ends)]

/-- An error with the code 60, from `a` to `b`. -/
def generic : KrbError where
  pvno := 5
  msgType := 30
  ctime := none
  cusec := none
  stime := [0x32, 0x30, 0x30, 0x39, 0x30, 0x38, 0x31, 0x30, 0x31, 0x34, 0x35, 0x33, 0x30, 0x30]
  susec := 0
  errorCode := 60
  crealm := [0x52]
  cname := ⟨1, [[0x61]]⟩
  realm := [0x52]
  sname := ⟨1, [[0x62], [0x63]]⟩
  eText := none
  eData := some [0, 1, 2, 3]

theorem encode_decode_generic :
    ∃ octets, encode_Kerberos_KRB_ERROR generic.packet = .ok octets ∧
      generic.Encoded octets ∧ generic.Returned octets := by
  obtain ⟨octets, encoded, iff⟩ := encode_decode_iff generic (by decide +kernel)
  have fits : octets.length < 2 ^ 64 := by
    rw [encode_Kerberos_KRB_ERROR_eq] at encoded
    obtain rfl := Except.ok.inj encoded
    decide +kernel
  have small : ∀ n ∈ generic.integers, n < 128 := by decide
  refine ⟨octets, encoded, (iff fits).mpr fun n mem set => ?_⟩
  exact Nat.not_lt_of_le set.le (small n mem)

/-- 128 is an octet with its first bit set, and is read as -128. -/
theorem not_encoded_susec :
    ∃ octets, encode_Kerberos_KRB_ERROR { generic with susec := 128 }.packet = .ok octets ∧
      ¬ KrbError.Encoded { generic with susec := 128 } octets := by
  have encoded := encode_Kerberos_KRB_ERROR_eq { generic with susec := 128 }
  refine ⟨_, encoded, fun fit => ?_⟩
  exact (encoded_iff encoded (by decide +kernel)).mp fit 128 (by decide) ⟨0, by decide⟩

end KrbError

end Tahi.Kink

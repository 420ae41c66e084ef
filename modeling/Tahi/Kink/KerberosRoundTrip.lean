import Mathlib.Data.List.Forall2
import Mathlib.Data.Nat.Bitwise
import Mathlib.Tactic.IntervalCases
import Tahi.Kink.Cutting
import Tahi.Kink.Kerberos
import Tahi.Kink.KEnc

/-! # An encoded Kerberos error can be decoded

Whatever the keys are set to, as long as the lengths are words. What is decoded has the fields of
the definition under their indexes, and the blanks at the end of a string are left off.
-/

namespace Tahi.Kink

open Perl

section Digits

theorem sprintfx_of_lt {n : Nat} (lt : n < 16) : sprintfx n = [Fin.ofNat 16 n] := by
  unfold sprintfx
  split
  · rename_i zero
    rw [zero]
    rfl
  · rename_i positive
    rw [Nat.digits_of_lt 16 n positive lt]
    rfl

theorem sprintfx_of_le {n : Nat} (le : 16 ≤ n) :
    sprintfx n = sprintfx (n / 16) ++ [Fin.ofNat 16 n] := by
  have positive : n ≠ 0 := by omega
  have shorter : n / 16 ≠ 0 := by omega
  simp only [sprintfx, if_neg positive, if_neg shorter]
  rw [Nat.digits_def' (by decide) (by omega), List.map_cons, List.reverse_cons]
  simp [Fin.ofNat]

/-- Two digits are one octet. -/
theorem octet_of_digits (n : Nat) :
    UInt8.ofNat (16 * (Fin.ofNat 16 (n / 16)).val + (Fin.ofNat 16 n).val) = UInt8.ofNat n := by
  apply UInt8.toNat_inj.mp
  simp only [Fin.ofNat, UInt8.toNat_ofNat']
  omega

theorem hexOctets_one {n : Nat} (lt : n < 256) : hexOctets n = [UInt8.ofNat n] := by
  have octet := octet_of_digits n
  by_cases short : n < 16
  · have zero : Fin.ofNat 16 (n / 16) = 0 := by
      rw [Nat.div_eq_of_lt short]
      rfl
    rw [zero] at octet
    simpa [hexOctets, sprintfx_of_lt short, unhex] using octet
  · rw [hexOctets, sprintfx_of_le (by omega), sprintfx_of_lt (by omega)]
    simpa [unhex] using octet

theorem unhex_append {l : List Digit} (even : l.length % 2 = 0) (m : List Digit) :
    unhex (l ++ m) = unhex l ++ unhex m := by
  fun_induction unhex l with
  | case1 => rfl
  | case2 d => simp at even
  | case3 d e l ih =>
      have shorter : l.length % 2 = 0 := by
        simp only [List.length_cons] at even
        omega
      simp [unhex, ih shorter]

theorem hexOctets_of_le {n : Nat} (le : 256 ≤ n) :
    hexOctets n = hexOctets (n / 256) ++ [UInt8.ofNat n] := by
  have lastTwo : sprintfx n =
      sprintfx (n / 256) ++ [Fin.ofNat 16 (n / 16), Fin.ofNat 16 n] := by
    rw [sprintfx_of_le (by omega), sprintfx_of_le (n := n / 16) (by omega),
      Nat.div_div_eq_div_mul, List.append_assoc]
    rfl
  have last : unhex [Fin.ofNat 16 (n / 16), Fin.ofNat 16 n] = [UInt8.ofNat n] := by
    rw [unhex, octet_of_digits]
    rfl
  simp only [hexOctets, lastTwo, List.length_append, List.length_cons, List.length_nil,
    Nat.add_mod_right]
  split
  · rename_i odd
    rw [← List.cons_append, unhex_append, last]
    rw [List.length_cons]
    omega
  · rename_i even
    rw [unhex_append (by omega), last]

/-- The octets of a number stand for it. -/
theorem be_hexOctets (n : Nat) : be (hexOctets n) = n := by
  induction n using Nat.strong_induction_on with
  | _ n ih =>
      by_cases short : n < 256
      · simp [hexOctets_one short, be, Nat.mod_eq_of_lt short]
      · have quotient := ih (n / 256) (by omega)
        simp only [be] at quotient
        rw [hexOctets_of_le (by omega), be, List.foldl_append, quotient]
        simp only [List.foldl_cons, List.foldl_nil, UInt8.toNat_ofNat']
        omega

theorem length_hexOctets_le {n k : Nat} (lt : n < 256 ^ (k + 1)) :
    (hexOctets n).length ≤ k + 1 := by
  induction k generalizing n with
  | zero => simp [hexOctets_one lt]
  | succ k ih =>
      by_cases short : n < 256
      · simp [hexOctets_one short]
      · have shorter := ih (Nat.div_lt_of_lt_mul (by rwa [← pow_succ']))
        rw [hexOctets_of_le (by omega), List.length_append, List.length_singleton]
        omega

/-- Eight octets do not overflow. -/
theorem foldl_shift {octets : List UInt8} (short : octets.length ≤ 8) :
    (octets.map UInt8.toNat).foldl (fun length elm => (length <<< 8) % 2 ^ 64 + elm) 0 =
      be octets := by
  induction octets using List.reverseRecOn with
  | nil => rfl
  | append_singleton octets b ih =>
      rw [List.length_append, List.length_singleton] at short
      have before := be_lt octets
      have bound : 256 ^ octets.length ≤ 256 ^ 7 := Nat.pow_le_pow_right (by decide) (by omega)
      rw [List.map_append, List.foldl_append, ih (by omega)]
      simp only [List.map_cons, List.map_nil, List.foldl_cons, List.foldl_nil, be,
        List.foldl_append, Nat.shiftLeft_eq] at before ⊢
      omega

end Digits

section Elements

theorem unpackAt_middle (front octets rest : List UInt8) :
    unpackAt (some (front ++ (octets ++ rest))) front.length octets.length =
      .ok (octets.map UInt8.toNat) := by
  rw [unpackAt, if_neg (by simp), Str.octets_some, List.drop_left, List.take_left]

/-- The first bit of an octet apart from the others. -/
theorem first_bit {n : Nat} (low : n < 2 ^ 7) :
    n &&& 0x80 = 0 ∧ (0x80 + n) &&& 0x80 = 0x80 ∧ (0x80 + n) &&& 0x7f = n := by
  have unset := Nat.and_two_pow n 7
  have set := Nat.and_two_pow (2 ^ 7 + n) 7
  have others := Nat.and_two_pow_sub_one_eq_mod (2 ^ 7 + n) 7
  rw [Nat.testBit_lt_two_pow low] at unset
  rw [Nat.testBit_two_pow_add_eq, Nat.testBit_lt_two_pow low] at set
  rw [Nat.add_mod_left, Nat.mod_eq_of_lt low] at others
  exact ⟨unset, set, others⟩

/-- The length is behind the type, and its own octets are skipped. -/
theorem kDec_ASN1_Length_encode {length : Nat} (fits : length < 2 ^ 64)
    (front rest : List UInt8) :
    kDec_ASN1_Length (some (front ++ (encode_ASN1_Length length ++ rest))) front.length =
      .ok (some length, front.length + (encode_ASN1_Length length).length) := by
  by_cases short : length ≤ 127
  · have encoded : encode_ASN1_Length length = [UInt8.ofNat length] := by
      rw [encode_ASN1_Length, if_neg (by omega), hexOctets_one (by omega)]
    have number : (UInt8.ofNat length).toNat = length := by
      rw [UInt8.toNat_ofNat']
      omega
    obtain ⟨unset, -, -⟩ := first_bit (show length < 2 ^ 7 by omega)
    have first := unpackAt_middle front [UInt8.ofNat length] rest
    simp only [List.length_singleton, List.map_cons, List.map_nil, number] at first
    simp only [encoded, kDec_ASN1_Length, first, bind, Except.bind, List.head?_cons,
      Option.getD_some, unset, ne_eq, not_true_eq_false, if_false, List.length_singleton]
    rfl
  · have octets := @length_hexOctets_le length 7 (by omega)
    let len := hexOctets length
    let head := UInt8.ofNat (0x80 + len.length)
    have encoded : encode_ASN1_Length length ++ rest = [head] ++ (len ++ rest) := by
      rw [encode_ASN1_Length, if_pos (by omega)]
      rfl
    have size : (encode_ASN1_Length length).length = 1 + len.length := by
      rw [encode_ASN1_Length, if_pos (by omega), List.length_append, length_pack]
      rfl
    have number : head.toNat = 0x80 + len.length := by
      simp only [head, UInt8.toNat_ofNat', len]
      omega
    obtain ⟨-, set, others⟩ := first_bit (show len.length < 2 ^ 7 by
      simp only [len]
      omega)
    have first := unpackAt_middle front [head] (len ++ rest)
    have second := unpackAt_middle (front ++ [head]) len rest
    simp only [List.length_singleton, List.map_cons, List.map_nil, number] at first
    rw [List.append_assoc, List.length_append, List.length_singleton] at second
    have value : (len.map UInt8.toNat).foldl
        (fun length elm => (length <<< 8) % 2 ^ 64 + elm) 0 = length := by
      rw [foldl_shift (show len.length ≤ 8 from by simp only [len]; omega)]
      exact be_hexOctets length
    simp only [encoded, size, kDec_ASN1_Length, first, bind, Except.bind, List.head?_cons,
      Option.getD_some, set, others, ne_eq, OfNat.ofNat_ne_zero, not_false_eq_true, if_true,
      second, value, Nat.add_assoc]
    rfl

variable {type : Nat} (octet : type < 256) (value rest : List UInt8)
  (fits : value.length < 2 ^ 64)
include octet fits

/-- The first element of a string. -/
theorem kDec_ASN1_TLV_asn1 :
    ∃ tlv, kDec_ASN1_TLV (some (asn1 type value ++ rest)) = .ok tlv ∧
      tlv.self = some (asn1 type value) ∧ tlv.value.octets = some value ∧
      tlv.index = if is_context type then some (type &&& 0x1f) else none := by
  let head := packInt 1 type
  let size := encode_ASN1_Length value.length
  have start : asn1 type value ++ rest = head ++ (size ++ (value ++ rest)) := by
    simp [asn1, head, size]
  have first : unpackAt (some (head ++ (size ++ (value ++ rest)))) 0 1 = .ok [type] := by
    have middle := unpackAt_middle [] head (size ++ (value ++ rest))
    have number : head.map UInt8.toNat = [type] := by
      simp [head, packInt, Nat.mod_eq_of_lt octet]
    rwa [number] at middle
  have one : head.length = 1 := length_packInt 1 type
  have second : kDec_ASN1_Length (some (head ++ (size ++ (value ++ rest)))) 1 =
      .ok (some value.length, 1 + size.length) := by
    have length := kDec_ASN1_Length_encode fits head (value ++ rest)
    rwa [one] at length
  have offset : ((1 + size.length + value.length : Nat) : Int) = (asn1 type value).length := by
    simp only [asn1, List.length_append, length_pack, size]
    rfl
  have inside : substr (some (head ++ (size ++ (value ++ rest)))) (1 + size.length : Nat)
      (some value.length) = some value := by
    have middle := substr_middle (head ++ size) (value ++ rest) value.length
    rwa [List.append_assoc, List.length_append, one, List.take_left] at middle
  have self : substr (some (head ++ (size ++ (value ++ rest)))) 0
      (some ((1 + size.length + value.length : Nat) : Int)) = some (asn1 type value) := by
    rw [offset, substr_first, Str.octets_some, ← start, List.take_left]
  simp only [start, kDec_ASN1_TLV, kDec_ASN1_Type, first, bind, Except.bind, pure, Except.pure,
    List.head?_cons, Nat.zero_add, second, kDec_ASN1_Value, Option.getD_some]
  exact ⟨_, rfl, self, inside, rfl⟩

end Elements

section Sequences

theorem length_asn1 (type : Nat) (value : List UInt8) :
    value.length < (asn1 type value).length := by
  simp [asn1]
  omega

/-- Elements one behind the other, each with its type and its value. -/
def parts {α : Type} (part : α → Nat × List UInt8) (items : List α) : List UInt8 :=
  items.flatMap fun x => asn1 (part x).1 (part x).2

variable {α : Type} {part : α → Nat × List UInt8} {items : List α}

variable (part) in
theorem length_lt_parts {x : α} (mem : x ∈ items) :
    (part x).2.length < (parts part items).length :=
  Nat.lt_of_lt_of_le (length_asn1 _ _)
    (length_le_flatMap (fun x => asn1 (part x).1 (part x).2) mem)

/-- An element whose type and value are as they were encoded. -/
def Stands (tlv : TLV) (p : Nat × List UInt8) : Prop :=
  tlv.value.octets = some p.2 ∧
    tlv.index = if is_context p.1 then some (p.1 &&& 0x1f) else none

/-- The place of an element is in its type. -/
theorem Stands.index {tlv : TLV} {i : Nat} {value : List UInt8}
    (stands : Stands tlv (0xa0 + i, value)) (place : i < 13) : tlv.index = some i := by
  have context : ∀ i < 13, is_context (0xa0 + i) = true ∧ (0xa0 + i) &&& 0x1f = i := by decide
  obtain ⟨set, rest⟩ := context i place
  rw [stands.2, if_pos set, rest]

variable {element : TLV → Except ASN1Exit TLV} {Result : α → TLV → Prop}

/-- Elements are decoded one after the other, if each alone can be. -/
theorem decodeElements_asn1 (octet : ∀ x ∈ items, (part x).1 < 256)
    (fits : (parts part items).length < 2 ^ 64)
    (each : ∀ x ∈ items, ∀ tlv, Stands tlv (part x) →
      ∃ decoded, element tlv = .ok decoded ∧ Result x decoded) (front : List UInt8) :
    ∃ decoded, decodeElements element (some (front ++ parts part items)) front.length =
      .ok decoded ∧ List.Forall₂ Result items decoded := by
  induction items generalizing front with
  | nil => exact ⟨[], by rw [decodeElements, if_neg (by simp [parts])]; rfl, .nil⟩
  | cons x items ih =>
      let p := part x
      let rest := parts part items
      have all : parts part (x :: items) = asn1 p.1 p.2 ++ rest := List.flatMap_cons ..
      obtain ⟨tlv, decodes, self, stands⟩ := kDec_ASN1_TLV_asn1 (octet x (by simp)) p.2 rest
        (Nat.lt_trans (length_lt_parts part (List.mem_cons_self ..)) fits)
      obtain ⟨first, known, result⟩ := each x (by simp) tlv stands
      rw [all] at fits ⊢
      obtain ⟨others, behind, results⟩ := ih (fun y mem => octet y (by simp [mem]))
        (Nat.lt_of_le_of_lt (by rw [List.length_append]; exact Nat.le_add_left ..) fits)
        (fun y mem => each y (by simp [mem]))
        (front ++ asn1 p.1 p.2)
      have more : front.length < Str.len (some (front ++ (asn1 p.1 p.2 ++ rest))) := by
        simp [asn1]
      have here := substr_behind front (asn1 p.1 p.2 ++ rest)
      rw [decodeElements, if_pos more]
      split
      · rename_i failed
        rw [here, decodes] at failed
        cases failed
      · rename_i seq_elm decodes'
        rw [here, decodes] at decodes'
        cases decodes'
        rw [List.append_assoc, List.length_append] at behind
        simp only [known, bind, Except.bind, self, Str.len_some]
        rw [behind]
        exact ⟨_, rfl, .cons result results⟩

/-- A sequence is an element with elements inside. -/
theorem decode_sequence (octets : ∀ x ∈ items, (part x).1 < 256)
    (fits : (parts part items).length < 2 ^ 64)
    (each : ∀ x ∈ items, ∀ tlv, Stands tlv (part x) →
      ∃ decoded, element tlv = .ok decoded ∧ Result x decoded) :
    ∃ tlv decoded, kDec_ASN1_TLV (some (asn1 0x30 (parts part items))) = .ok tlv ∧
      decodeElements element tlv.value.octets 0 = .ok decoded ∧
        List.Forall₂ Result items decoded := by
  obtain ⟨tlv, decodes, -, inside, -⟩ :=
    kDec_ASN1_TLV_asn1 (show 0x30 < 256 by decide) _ [] fits
  obtain ⟨decoded, elements, results⟩ := decodeElements_asn1 octets fits each []
  rw [List.append_nil] at decodes
  exact ⟨tlv, decoded, decodes, inside ▸ elements, results⟩

end Sequences

/-! ## What an element is decoded to -/

namespace TLV

/-- The digits are the number. -/
def IsInteger (n : Nat) (tlv : TLV) : Prop := ∃ l, tlv.value = .digits l ∧ be (unhex l) = n

/-- The digits are the octets. -/
def IsOctets (octets : List UInt8) (tlv : TLV) : Prop :=
  ∃ l, tlv.value = .digits l ∧ unhex l = octets

def IsText (s : List UInt8) (tlv : TLV) : Prop := tlv.value = .text s

def IsTexts (l : List (List UInt8)) (tlv : TLV) : Prop :=
  ∃ elements, tlv.value = .sequence elements ∧ List.Forall₂ IsText l elements

/-- An element under an index, with one element inside. -/
def At (i : Nat) (Inner : TLV → Prop) (tlv : TLV) : Prop :=
  tlv.index = some i ∧ ∃ inner, tlv.value = .nested inner ∧ Inner inner

end TLV

/-- A name in which both keys are set. -/
structure Name where
  nameType : Nat
  nameString : List (List UInt8)

def TLV.IsName (name : Name) (tlv : TLV) : Prop :=
  ∃ type string, tlv.value = .sequence [type, string] ∧
    type.At 0 (TLV.IsInteger name.nameType) ∧ string.At 1 (TLV.IsTexts name.nameString)

/-- NUL and white space. -/
def blanks : List UInt8 := [0x00, 0x09, 0x0a, 0x0b, 0x0c, 0x0d, 0x20]

/-- What is blank at the end is left off. -/
def trimmed (s : List UInt8) : List UInt8 := s.rdropWhile fun c => c ∈ blanks

def Name.trimmed (name : Name) : Name := { name with nameString := name.nameString.map Kink.trimmed }

def Name.encode (name : Name) : List UInt8 :=
  asn1 0x30 (asn1 0xa0 (asn1 0x02 (hexOctets name.nameType)) ++
    asn1 0xa1 (asn1 0x30 (name.nameString.flatMap (asn1 0x1b))))

/-- A field of an error with its value. -/
inductive Field where
  | integer (n : Nat)
  | time (s : List UInt8)
  | text (s : List UInt8)
  | name (p : Name)
  | octets (digits : List Digit)

namespace Field

def encode : Field → List UInt8
  | integer n => asn1 0x02 (hexOctets n)
  | time s => asn1 0x18 (s ++ [0x5a])
  | text s => asn1 0x1b s
  | name p => p.encode
  | octets digits => asn1 0x04 (unhex digits)

def trimmed : Field → Field
  | text s => text (Kink.trimmed s)
  | name p => name p.trimmed
  | field => field

/-- A time has the mark of its zone behind it. -/
def Decoded : Field → TLV → Prop
  | integer n => TLV.IsInteger n
  | time s => TLV.IsText (s ++ [0x5a])
  | text s => TLV.IsText s
  | name p => TLV.IsName p
  | octets digits => TLV.IsOctets (unhex digits)

end Field

/-- A definition in which every key is set that has to be. -/
structure KrbError where
  pvno : Nat
  msgType : Nat
  ctime : Option (List UInt8)
  cusec : Option Nat
  stime : List UInt8
  susec : Nat
  errorCode : Nat
  crealm : List UInt8
  cname : Name
  realm : List UInt8
  sname : Name
  eText : Option (List UInt8)
  eData : Option (List Digit)

namespace KrbError

def packet (e : KrbError) : Def.KRB_ERROR where
  pvno := some e.pvno
  msgType := some e.msgType
  ctime := e.ctime
  cusec := e.cusec
  stime := some e.stime
  susec := some e.susec
  errorCode := some e.errorCode
  crealm := some e.crealm
  cname := some ⟨some e.cname.nameType, some e.cname.nameString⟩
  realm := some e.realm
  sname := some ⟨some e.sname.nameType, some e.sname.nameString⟩
  eText := e.eText
  eData := e.eData

/-- The fields at their places. -/
def data (e : KrbError) : List (Option Field) := [
  some (.integer e.pvno),
  some (.integer e.msgType),
  e.ctime.map .time,
  e.cusec.map .integer,
  some (.time e.stime),
  some (.integer e.susec),
  some (.integer e.errorCode),
  some (.text e.crealm),
  some (.name e.cname),
  some (.text e.realm),
  some (.name e.sname),
  e.eText.map .text,
  e.eData.map .octets]

/-- The fields that are there, each under its index. -/
def fields (e : KrbError) : List (Nat × Field) :=
  e.data.zipIdx.filterMap fun (field, i) => field.map fun field => (i, field)

theorem mem_fields {e : KrbError} {f : Nat × Field} (mem : f ∈ e.fields) :
    e.data[f.1]? = some (some f.2) := by
  simp only [fields, List.mem_filterMap] at mem
  obtain ⟨⟨entry, i⟩, place, there⟩ := mem
  rw [List.mem_zipIdx_iff_getElem?] at place
  cases entry with
  | none => cases there
  | some field =>
      cases there
      exact place

end KrbError

/-! ## Decoding a name -/

section Names

/-- The value of an element that is one element itself. -/
theorem simpleElement_asn1 (name kind : String) (reading : Reading) {type : Nat}
    (octet : type < 256) {value : List UInt8} (fits : value.length < 2 ^ 64) {tlv : TLV}
    (inside : tlv.value.octets = some (asn1 type value)) :
    ∃ inner, inner.value = reading.read (some value) ∧
      simpleElement name kind reading tlv = .ok { tlv with value := .nested inner } := by
  obtain ⟨inner, decodes, -, octets, -⟩ := kDec_ASN1_TLV_asn1 octet value [] fits
  rw [List.append_nil, ← inside] at decodes
  refine ⟨_, ?_, by simp only [simpleElement, decodes, bind, Except.bind]; rfl⟩
  exact congrArg reading.read octets

theorem isInteger_digits {tlv : TLV} {n : Nat}
    (read : tlv.value = Reading.digits.read (some (hexOctets n))) : tlv.IsInteger n :=
  ⟨_, read, by rw [Str.octets_some, unhex_hex, be_hexOctets]⟩

theorem isOctets_digits {tlv : TLV} {octets : List UInt8}
    (read : tlv.value = Reading.digits.read (some octets)) : tlv.IsOctets octets :=
  ⟨_, read, unhex_hex octets⟩

theorem kDecKerberos_SEQ_KerberosString_encode (name : List (List UInt8))
    (fits : (name.flatMap (asn1 0x1b)).length < 2 ^ 64) :
    ∃ decoded, kDecKerberos_SEQ_KerberosString (some (asn1 0x30 (name.flatMap (asn1 0x1b)))) =
      .ok decoded ∧ decoded.IsTexts (name.map trimmed) := by
  let part (s : List UInt8) : Nat × List UInt8 := (0x1b, s)
  let element (seq_elm : TLV) : Except ASN1Exit TLV :=
    .ok { seq_elm with
      name := "KerberosString"
      kind := "KerberosString"
      value := Reading.text.read seq_elm.value.octets }
  have each : ∀ s ∈ name, ∀ tlv, Stands tlv (part s) →
      ∃ decoded, element tlv = .ok decoded ∧ decoded.IsText (trimmed s) := by
    intro s _ tlv stands
    exact ⟨_, rfl, congrArg Reading.text.read stands.1⟩
  have octet : ∀ s ∈ name, (part s).1 < 256 := fun _ _ => show 0x1b < 256 by decide
  obtain ⟨tlv, decoded, decodes, elements, texts⟩ := decode_sequence octet fits each
  simp only [element] at elements
  refine ⟨{ tlv with name := "SEQUENCE OF", kind := "SEQUENCE OF", value := .sequence decoded }, ?_,
    decoded, rfl, ?_⟩
  · have same : parts part name = name.flatMap (asn1 0x1b) := rfl
    rw [← same]
    simp only [kDecKerberos_SEQ_KerberosString, decodes, bind, Except.bind, elements]
    rfl
  · exact List.forall₂_map_left_iff.mpr texts

theorem kDecKerberos_PrincipalName_encode (name : Name) (fits : name.encode.length < 2 ^ 64) :
    ∃ decoded, kDecKerberos_PrincipalName (some name.encode) = .ok decoded ∧
      decoded.IsName name.trimmed := by
  -- Both elements, and what is to become of them.
  let items : List (Nat × List UInt8 × (TLV → Prop)) := [
    (0, asn1 0x02 (hexOctets name.nameType), TLV.IsInteger name.nameType),
    (1, asn1 0x30 (name.nameString.flatMap (asn1 0x1b)),
      TLV.IsTexts (name.nameString.map trimmed))]
  let part (x : Nat × List UInt8 × (TLV → Prop)) : Nat × List UInt8 := (0xa0 + x.1, x.2.1)
  have same : name.encode = asn1 0x30 (parts part items) := by
    simp [Name.encode, parts, part, items]
  rw [same] at fits ⊢
  have short := Nat.lt_trans (length_asn1 ..) fits
  have inner {type i : Nat} {value : List UInt8} {Is : TLV → Prop}
      (mem : (i, asn1 type value, Is) ∈ items) : value.length < 2 ^ 64 :=
    Nat.lt_trans (Nat.lt_trans (length_asn1 type value) (length_lt_parts part mem)) short
  have each : ∀ x ∈ items, ∀ tlv, Stands tlv (part x) →
      ∃ decoded, principalNameElement tlv = .ok decoded ∧ decoded.At x.1 x.2.2 := by
    simp only [items, List.forall_mem_cons]
    refine ⟨fun tlv stands => ?_, fun tlv stands => ?_, by simp⟩
    · have index : tlv.index = some 0 := stands.index (show 0 < 13 by decide)
      obtain ⟨type, read, decodes⟩ := simpleElement_asn1 "name-type" "Int32" .digits
        (by decide) (inner (List.mem_cons_self ..)) stands.1
      refine ⟨{ tlv with value := .nested type }, ?_, index, _, rfl, isInteger_digits read⟩
      simp only [principalNameElement, index, decodes]
    · have index : tlv.index = some 1 := stands.index (show 1 < 13 by decide)
      obtain ⟨strings, decodes, texts⟩ := kDecKerberos_SEQ_KerberosString_encode name.nameString
        (inner (List.mem_cons_of_mem _ (List.mem_cons_self ..)))
      have inside : tlv.value.octets = some (asn1 0x30 (name.nameString.flatMap (asn1 0x1b))) :=
        stands.1
      refine ⟨{ tlv with value := .nested { strings with name := "name-string" } }, ?_, index, _,
        rfl, texts⟩
      simp only [principalNameElement, index, inside, decodes, bind, Except.bind]
      rfl
  obtain ⟨tlv, decoded, decodes, elements, results⟩ :=
    decode_sequence (by simp [items, part]) short each
  refine ⟨{ tlv with name := "SEQUENCE", kind := "PrincipalName", value := .sequence decoded }, ?_,
    ?_⟩
  · simp only [kDecKerberos_PrincipalName, decodes, bind, Except.bind, elements]
    rfl
  · obtain ⟨type, _, isType, rest, rfl⟩ := List.forall₂_cons_left_iff.mp results
    obtain ⟨string, _, isString, none, rfl⟩ := List.forall₂_cons_left_iff.mp rest
    obtain rfl := List.forall₂_nil_left_iff.mp none
    exact ⟨type, string, rfl, isType, isString⟩

end Names

/-! ## Decoding an error -/

section Error

variable {tlv : TLV} {i : Nat} {Inner : TLV → Prop}

/-- Elements of a simple type, whatever they are called. -/
theorem krbErrorElement_simple {reading : Reading}
    (element : i < 13 ∧ ∃ name kind, ∀ tlv : TLV, tlv.index = some i →
      krbErrorElement tlv = simpleElement name kind reading tlv)
    {type : Nat} (octet : type < 256) {value : List UInt8} (fits : value.length < 2 ^ 64)
    (stands : Stands tlv (0xa0 + i, asn1 type value))
    (reads : ∀ inner : TLV, inner.value = reading.read (some value) → Inner inner) :
    ∃ decoded, krbErrorElement tlv = .ok decoded ∧ decoded.At i Inner := by
  obtain ⟨place, name, kind, element⟩ := element
  have index := stands.index place
  obtain ⟨inner, read, decodes⟩ := simpleElement_asn1 name kind reading octet fits stands.1
  exact ⟨_, (element tlv index).trans decodes, index, inner, rfl, reads inner read⟩

theorem krbErrorElement_digits (place : i ∈ [0, 1, 3, 5, 6, 12]) :
    i < 13 ∧ ∃ name kind, ∀ tlv : TLV, tlv.index = some i →
      krbErrorElement tlv = simpleElement name kind .digits tlv := by
  simp only [List.mem_cons, List.not_mem_nil, or_false] at place
  rcases place with rfl | rfl | rfl | rfl | rfl | rfl <;>
    exact ⟨by decide, _, _, fun tlv index => by simp only [krbErrorElement, index]; rfl⟩

theorem krbErrorElement_text (place : i ∈ [2, 4, 7, 9, 11]) :
    i < 13 ∧ ∃ name kind, ∀ tlv : TLV, tlv.index = some i →
      krbErrorElement tlv = simpleElement name kind .text tlv := by
  simp only [List.mem_cons, List.not_mem_nil, or_false] at place
  rcases place with rfl | rfl | rfl | rfl | rfl <;>
    exact ⟨by decide, _, _, fun tlv index => by simp only [krbErrorElement, index]; rfl⟩

theorem krbErrorElement_principal (place : i = 8 ∨ i = 10) {name : Name}
    (fits : name.encode.length < 2 ^ 64) (stands : Stands tlv (0xa0 + i, name.encode)) :
    ∃ decoded, krbErrorElement tlv = .ok decoded ∧ decoded.At i (TLV.IsName name.trimmed) := by
  obtain ⟨inner, decodes, is_⟩ := kDecKerberos_PrincipalName_encode name fits
  have index := stands.index (show i < 13 by omega)
  have element : ∃ called, krbErrorElement tlv = principalName called tlv := by
    rcases place with rfl | rfl <;>
      exact ⟨_, by simp only [krbErrorElement, index]; rfl⟩
  obtain ⟨called, element⟩ := element
  refine ⟨{ tlv with value := .nested { inner with name := called } }, ?_, index, _, rfl, is_⟩
  simp only [element, principalName, stands.1, decodes, bind, Except.bind]
  rfl

/-- No `Z` is blank. -/
theorem trimmed_time (s : List UInt8) : trimmed (s ++ [0x5a]) = s ++ [0x5a] :=
  List.rdropWhile_concat_neg _ _ _ (by decide)

/-- Where the decoder looks for fields of a type. -/
def Field.places : Field → List Nat
  | .integer _ | .octets _ => [0, 1, 3, 5, 6, 12]
  | .time _ | .text _ => [2, 4, 7, 9, 11]
  | .name _ => [8, 10]

theorem krbErrorElement_of_places {field : Field} (place : i ∈ field.places)
    (fits : field.encode.length < 2 ^ 64) (stands : Stands tlv (0xa0 + i, field.encode)) :
    ∃ decoded, krbErrorElement tlv = .ok decoded ∧ decoded.At i field.trimmed.Decoded := by
  cases field with
  | integer n =>
      exact krbErrorElement_simple (krbErrorElement_digits place) (by decide)
        (Nat.lt_trans (length_asn1 ..) fits) stands fun _ read => isInteger_digits read
  | time s =>
      refine krbErrorElement_simple (krbErrorElement_text place) (by decide)
        (Nat.lt_trans (length_asn1 ..) fits) stands fun _ read => read.trans ?_
      exact congrArg Value.text (trimmed_time s)
  | text s =>
      exact krbErrorElement_simple (krbErrorElement_text place) (by decide)
        (Nat.lt_trans (length_asn1 ..) fits) stands fun _ read => read
  | name p => exact krbErrorElement_principal (by simpa [Field.places] using place) fits stands
  | octets digits =>
      exact krbErrorElement_simple (krbErrorElement_digits place) (by decide)
        (Nat.lt_trans (length_asn1 ..) fits) stands fun _ read => isOctets_digits read

/-- Every field has the type that is looked for at its place. -/
theorem place_of_mem {e : KrbError} {f : Nat × Field} (mem : f ∈ e.fields) : f.1 ∈ f.2.places := by
  have there := KrbError.mem_fields mem
  have place := (List.getElem?_eq_some_iff.mp there).1
  obtain ⟨i, field⟩ := f
  simp only [KrbError.data, List.length_cons, List.length_nil] at place there
  interval_cases i
  all_goals simp only [List.getElem?_cons_zero, List.getElem?_cons_succ, Option.some.injEq,
    Option.map_eq_some_iff] at there
  case «0» | «1» | «4» | «5» | «6» | «7» | «8» | «9» | «10» =>
      subst there
      simp [Field.places]
  case «2» | «3» | «11» | «12» =>
      obtain ⟨_, -, rfl⟩ := there
      simp [Field.places]

theorem krbErrorElement_field {e : KrbError} {f : Nat × Field} (mem : f ∈ e.fields)
    (fits : f.2.encode.length < 2 ^ 64) (stands : Stands tlv (0xa0 + f.1, f.2.encode)) :
    ∃ decoded, krbErrorElement tlv = .ok decoded ∧ decoded.At f.1 f.2.trimmed.Decoded :=
  krbErrorElement_of_places (place_of_mem mem) fits stands

/-! ## Whole errors -/

theorem of_defined {α β : Type} {sub key : String} {value : Option α} {f : α → Except String β}
    {b : β} (gives : (defined sub key value >>= f) = .ok b) :
    ∃ a, value = some a ∧ f a = .ok b := by
  cases value with
  | none => cases gives
  | some a => exact ⟨a, rfl, gives⟩

theorem of_bind {α β ε : Type} {x : Except ε α} {f : α → Except ε β} {b : β}
    (gives : (x >>= f) = .ok b) : ∃ a, x = .ok a ∧ f a = .ok b := by
  cases x with
  | error _ => cases gives
  | ok a => exact ⟨a, rfl, gives⟩

/-- The elements are the fields that are there. -/
theorem elements_fields (e : KrbError) :
    elements (e.data.map (Option.map Field.encode)) =
      e.fields.map fun f => (0xa0 + f.1, f.2.encode) := by
  rw [elements, KrbError.fields, List.zipIdx_map, List.filterMap_map, List.map_filterMap]
  congr 1
  funext entry
  obtain ⟨field, i⟩ := entry
  cases field <;> rfl

theorem encode_Kerberos_KRB_ERROR_eq (e : KrbError) :
    encode_Kerberos_KRB_ERROR e.packet =
      .ok (asn1 0x7e (asn1 0x30 (parts (fun f => (0xa0 + f.1, f.2.encode)) e.fields))) := by
  have value : (elements (e.data.map (Option.map Field.encode))).flatMap
      (fun p => asn1 p.1 p.2) = parts (fun f => (0xa0 + f.1, f.2.encode)) e.fields := by
    rw [elements_fields, List.flatMap_map]
    rfl
  rw [← value]
  obtain ⟨_, _, ctime, cusec, _, _, _, _, _, _, _, eText, eData⟩ := e
  cases ctime <;> cases cusec <;> cases eText <;> cases eData <;> rfl

/-- What is encoded has all keys set that have to be. -/
theorem exists_of_encode {packet : Def.KRB_ERROR} {octets : List UInt8}
    (encoded : encode_Kerberos_KRB_ERROR packet = .ok octets) :
    ∃ e : KrbError, packet = e.packet := by
  obtain ⟨pvno, pvno_eq, encoded⟩ := of_defined encoded
  obtain ⟨msg_type, msg_type_eq, encoded⟩ := of_defined encoded
  obtain ⟨stime, stime_eq, encoded⟩ := of_defined encoded
  obtain ⟨susec, susec_eq, encoded⟩ := of_defined encoded
  obtain ⟨error_code, error_code_eq, encoded⟩ := of_defined encoded
  obtain ⟨crealm, crealm_eq, encoded⟩ := of_defined encoded
  obtain ⟨cname, cname_eq, encoded⟩ := of_defined encoded
  obtain ⟨_, first, encoded⟩ := of_bind encoded
  obtain ⟨realm, realm_eq, encoded⟩ := of_defined encoded
  obtain ⟨sname, sname_eq, encoded⟩ := of_defined encoded
  obtain ⟨_, second, -⟩ := of_bind encoded
  have complete {pname : Def.PrincipalName} {d : List UInt8}
      (encoded : encode_Kerberos_PrincipalName pname = .ok d) :
      ∃ name : Name, pname = ⟨some name.nameType, some name.nameString⟩ := by
    obtain ⟨nameType, type_eq, encoded⟩ := of_defined encoded
    obtain ⟨nameString, string_eq, -⟩ := of_defined encoded
    exact ⟨⟨nameType, nameString⟩, by rw [← type_eq, ← string_eq]⟩
  obtain ⟨cname', rfl⟩ := complete first
  obtain ⟨sname', rfl⟩ := complete second
  refine ⟨⟨pvno, msg_type, packet.ctime, packet.cusec, stime, susec, error_code, crealm, cname',
    realm, sname', packet.eText, packet.eData⟩, ?_⟩
  simp only [KrbError.packet, ← pvno_eq, ← msg_type_eq, ← stime_eq, ← susec_eq, ← error_code_eq,
    ← crealm_eq, ← cname_eq, ← realm_eq, ← sname_eq]

/-- The fields come back in their order. -/
theorem decode_Kerberos_KRB_ERROR_fields (e : KrbError) {octets : List UInt8}
    (encoded : encode_Kerberos_KRB_ERROR e.packet = .ok octets) (fits : octets.length < 2 ^ 64) :
    ∃ krb_error seq elements, decode_Kerberos_KRB_ERROR (some octets) = .ok krb_error ∧
      krb_error.value = .nested seq ∧ seq.value = .sequence elements ∧
      List.Forall₂ (fun f tlv => TLV.At f.1 f.2.trimmed.Decoded tlv) e.fields elements := by
  rw [encode_Kerberos_KRB_ERROR_eq] at encoded
  obtain rfl := Except.ok.inj encoded
  have inner := Nat.lt_trans (length_asn1 ..) fits
  have short := Nat.lt_trans (length_asn1 ..) inner
  have octet : ∀ f ∈ e.fields, 0xa0 + f.1 < 256 := by
    intro f mem
    have place := (List.getElem?_eq_some_iff.mp (KrbError.mem_fields mem)).1
    simp only [KrbError.data, List.length_cons, List.length_nil] at place
    omega
  obtain ⟨outer, first, -, inside, -⟩ :=
    kDec_ASN1_TLV_asn1 (show 0x7e < 256 by decide) _ [] inner
  obtain ⟨seq, decoded, second, elements, results⟩ := decode_sequence octet short
    fun f mem tlv stands => krbErrorElement_field mem
      (Nat.lt_trans (length_lt_parts (fun f : Nat × Field => (0xa0 + f.1, f.2.encode)) mem) short) stands
  rw [List.append_nil] at first
  let seq' : TLV := { seq with name := "SEQUENCE", kind := "SEQUENCE", value := .sequence decoded }
  refine ⟨{ outer with kind := "KRB-ERROR", value := .nested seq' }, seq', decoded, ?_, rfl, rfl,
    results⟩
  simp only [decode_Kerberos_KRB_ERROR, first, bind, Except.bind, inside, second, elements]
  rfl

theorem decode_Kerberos_KRB_ERROR_encode {packet : Def.KRB_ERROR} {octets : List UInt8}
    (encoded : encode_Kerberos_KRB_ERROR packet = .ok octets) (fits : octets.length < 2 ^ 64) :
    ∃ decoded, decode_Kerberos_KRB_ERROR (some octets) = .ok decoded := by
  obtain ⟨e, rfl⟩ := exists_of_encode encoded
  obtain ⟨krb_error, _, _, decodes, -⟩ := decode_Kerberos_KRB_ERROR_fields e encoded fits
  exact ⟨krb_error, decodes⟩

end Error

end Tahi.Kink

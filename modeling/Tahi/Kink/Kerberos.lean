import Tahi.Kink.KUtil

/-! # Decoding a Kerberos error

The elements of a sequence are decoded one after the other. One that has no place in it ends the
process, and so does an element without any octets where one is needed.
-/

namespace Tahi.Kink

open Perl

mutual

structure TLV where
  name : String
  kind : String
  self : Str
  remain : Str
  index : Option Nat
  type : Option Nat
  length : Option Nat
  value : Value

/-- The octets of a value, or what has become of them. -/
inductive Value where
  | raw (s : Str)
  | digits (l : List Digit)
  | text (s : List UInt8)
  | nested (tlv : TLV)
  | sequence (elements : List TLV)

end

def Value.octets : Value → Str
  | .raw s => s
  | _ => none

def is_context (type : Nat) : Bool := type &&& 0x80 != 0 && type &&& 0x40 == 0

/-- `unpack("\@$offset C$n")`. A number that is not there is left out. -/
def unpackAt (data : Str) (offset n : Nat) : Except ASN1Exit (List Nat) :=
  if data.len < offset then .error .outsideOfString
  else .ok (((data.octets.drop offset).take n).map UInt8.toNat)

def kDec_ASN1_Type (data : Str) (offset : Nat) : Except ASN1Exit (Option Nat × Nat) := do
  let type ← unpackAt data offset 1
  return (type.head?, offset + 1)

def kDec_ASN1_Length (data : Str) (offset : Nat) : Except ASN1Exit (Option Nat × Nat) := do
  let length ← unpackAt data offset 1
  let length := length.head?
  let offset := offset + 1
  if length.getD 0 &&& 0x80 ≠ 0 then
    let length_len := length.getD 0 &&& 0x7f
    let elements ← unpackAt data offset length_len
    let length := elements.foldl (fun length elm => (length <<< 8) % 2 ^ 64 + elm) 0
    return (some length, offset + length_len)
  else return (length, offset)

def kDec_ASN1_Value (data : Str) (offset : Nat) (length : Option Nat) : Str × Nat :=
  (substr data offset (some (length.getD 0 : Nat)), offset + length.getD 0)

def kDec_ASN1_TLV (data : Str) : Except ASN1Exit TLV := do
  let (type, offset) ← kDec_ASN1_Type data 0
  let (length, offset) ← kDec_ASN1_Length data offset
  let (value, offset) := kDec_ASN1_Value data offset length
  let context := is_context (type.getD 0)
  return {
    name := if context then "CONTEXT" else "TLV"
    kind := if context then "CONTEXT" else "TLV"
    self := substr data 0 (some (offset : Nat))
    remain := substr data offset none
    index := if context then some (type.getD 0 &&& 0x1f) else none
    type
    length
    value := .raw value }

theorem of_unpackAt {data : Str} {offset n : Nat} {l : List Nat}
    (reads : unpackAt data offset n = .ok l) : offset ≤ data.len := by
  unfold unpackAt at reads
  split at reads
  · cases reads
  · omega

theorem of_kDec_ASN1_Length {data : Str} {offset : Nat} {r : Option Nat × Nat}
    (decodes : kDec_ASN1_Length data offset = .ok r) : offset ≤ data.len ∧ offset < r.2 := by
  unfold kDec_ASN1_Length at decodes
  cases first : unpackAt data offset 1 with
  | error exit =>
      rw [first] at decodes
      cases decodes
  | ok length =>
      rw [first] at decodes
      simp only [bind, Except.bind, pure, Except.pure] at decodes
      refine ⟨of_unpackAt first, ?_⟩
      split at decodes
      · split at decodes
        · cases decodes
        · cases decodes
          simp only
          omega
      · cases decodes
        simp only
        omega

/-- An element has its type octet at least. -/
theorem kDec_ASN1_TLV_self {data : Str} {tlv : TLV} (decodes : kDec_ASN1_TLV data = .ok tlv) :
    0 < tlv.self.len := by
  unfold kDec_ASN1_TLV kDec_ASN1_Type at decodes
  cases first : unpackAt data 0 1 with
  | error exit =>
      rw [first] at decodes
      cases decodes
  | ok type =>
      rw [first] at decodes
      simp only [bind, Except.bind, pure, Except.pure] at decodes
      split at decodes
      · cases decodes
      · rename_i second
        obtain ⟨longEnough, behind⟩ := of_kDec_ASN1_Length second
        cases decodes
        simp only [kDec_ASN1_Value, substr_first, Str.len_some, List.length_take]
        unfold Str.len at longEnough
        omega

/-- The loops over the elements of a sequence, with what each does with an element. -/
def decodeElements (element : TLV → Except ASN1Exit TLV) (seq_data : Str) (seq_offset : Nat) :
    Except ASN1Exit (List TLV) :=
  if seq_offset < seq_data.len then
    match decodes : kDec_ASN1_TLV (substr seq_data seq_offset none) with
    | .error exit => .error exit
    | .ok seq_elm => do
        have := kDec_ASN1_TLV_self decodes
        let seq_elm' ← element seq_elm
        let rest ← decodeElements element seq_data (seq_offset + seq_elm.self.len)
        return seq_elm' :: rest
  else return []
termination_by seq_data.len - seq_offset

/-- How the octets of a value are read. -/
inductive Reading where
  | digits
  | text
deriving DecidableEq, Repr

/-- `unpack('H*')` and `unpack('A*')`, which leaves off what is blank at the end. -/
def Reading.read : Reading → Str → Value
  | .digits, s => .digits (hex s.octets)
  | .text, s => .text (s.octets.rdropWhile fun c => c ∈ [0x00, 0x09, 0x0a, 0x0b, 0x0c, 0x0d, 0x20])

/-- An element that has one value of a simple type inside. -/
def simpleElement (name kind : String) (reading : Reading) (seq_elm : TLV) :
    Except ASN1Exit TLV := do
  let tmp ← kDec_ASN1_TLV seq_elm.value.octets
  let tmp := { tmp with name, kind, value := reading.read tmp.value.octets }
  return { seq_elm with value := .nested tmp }

def kDecKerberos_SEQ_KerberosString (data : Str) : Except ASN1Exit TLV := do
  let result ← kDec_ASN1_TLV data
  let element (seq_elm : TLV) : Except ASN1Exit TLV :=
    .ok { seq_elm with
      name := "KerberosString"
      kind := "KerberosString"
      value := Reading.text.read seq_elm.value.octets }
  let seq_value ← decodeElements element result.value.octets 0
  return { result with name := "SEQUENCE OF", kind := "SEQUENCE OF", value := .sequence seq_value }

def principalNameElement (seq_elm : TLV) : Except ASN1Exit TLV :=
  match seq_elm.index with
  | some 0 => simpleElement "name-type" "Int32" .digits seq_elm
  | some 1 => do
      let tmp ← kDecKerberos_SEQ_KerberosString seq_elm.value.octets
      return { seq_elm with value := .nested { tmp with name := "name-string" } }
  | _ => .error .unknownElement

def kDecKerberos_PrincipalName (data : Str) : Except ASN1Exit TLV := do
  let result ← kDec_ASN1_TLV data
  let seq_value ← decodeElements principalNameElement result.value.octets 0
  return { result with name := "SEQUENCE", kind := "PrincipalName", value := .sequence seq_value }

def principalName (name : String) (seq_elm : TLV) : Except ASN1Exit TLV := do
  let tmp ← kDecKerberos_PrincipalName seq_elm.value.octets
  return { seq_elm with value := .nested { tmp with name } }

def krbErrorElement (seq_elm : TLV) : Except ASN1Exit TLV :=
  match seq_elm.index with
  | some 0 => simpleElement "pvno" "INTEGER" .digits seq_elm
  | some 1 => simpleElement "msg-type" "INTEGER" .digits seq_elm
  | some 2 => simpleElement "ctime" "KerberosTime" .text seq_elm
  | some 3 => simpleElement "cutime" "Microseconds" .digits seq_elm
  | some 4 => simpleElement "stime" "KerberosTime" .text seq_elm
  | some 5 => simpleElement "susec" "Microseconds" .digits seq_elm
  | some 6 => simpleElement "error-code" "Int32" .digits seq_elm
  | some 7 => simpleElement "crealm" "Realm" .text seq_elm
  | some 8 => principalName "cname" seq_elm
  | some 9 => simpleElement "realm" "Realm" .text seq_elm
  | some 10 => principalName "sname" seq_elm
  | some 11 => simpleElement "e-text" "KerberosString" .text seq_elm
  | some 12 => simpleElement "e-data" "OCTET STRING" .digits seq_elm
  | _ => .error .unknownElement

def decode_Kerberos_KRB_ERROR (data : Str) : Except ASN1Exit TLV := do
  let krb_error ← kDec_ASN1_TLV data
  let seq ← kDec_ASN1_TLV krb_error.value.octets
  let seq_value ← decodeElements krbErrorElement seq.value.octets 0
  let seq := { seq with name := "SEQUENCE", kind := "SEQUENCE", value := .sequence seq_value }
  return { krb_error with kind := "KRB-ERROR", value := .nested seq }

end Tahi.Kink

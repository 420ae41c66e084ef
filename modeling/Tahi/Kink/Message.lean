import Tahi.Kink.KEnc

/-! # Definitions of KINK messages in range

The values of the keys of a message whose lengths are left to the encoders, and the octets these
make of them.
-/

namespace Tahi.Kink

open Perl

namespace Message

/-- A definition that has an encoding. -/
structure Encodable {δ : Type} (encode : δ → Except String (List UInt8)) where
  packet : δ
  octets : List UInt8
  encoded : encode packet = .ok octets

/-- The keys that only the payloads of one type have. For most of them `RESERVED` need not be
    set. -/
inductive Body where
  | AP_REQ (reserved : UInt8) (epoch : UInt32) (ap_req : List UInt8)
  | AP_REP (reserved : UInt8) (epoch : UInt32) (ap_rep : List UInt8)
  | KRB_ERROR (reserved : Option UInt8) (krb_error : Encodable encode_Kerberos_KRB_ERROR)
  | TGT_REQ (reserved : Option UInt8) (princname : List UInt8)
  | TGT_REP (reserved : Option UInt8) (tgt : List UInt8)
  | ISAKMP (reserved : Option UInt8) (innerNextPayload : UInt8) (qmmaj qmmin : Option (Fin 16))
      (reserved2 : Option UInt16) (payloads : Encodable encode_ISAKMP_Payload)
  | ERROR (reserved : Option UInt8) (errorCode : UInt32)

structure Payload where
  nextPayload : UInt8
  body : Body

/-- The hash that defines a payload. -/
def Payload.define (p : Payload) : Def.KINKPayload :=
  let header (reserved : Option UInt8) : Def.Generic :=
    ⟨some p.nextPayload.toNat, reserved.map UInt8.toNat, some .auto⟩
  match p.body with
  | .AP_REQ reserved epoch ap_req => .AP_REQ ⟨header (some reserved), some epoch.toNat, some ap_req⟩
  | .AP_REP reserved epoch ap_rep => .AP_REP ⟨header (some reserved), some epoch.toNat, some ap_rep⟩
  | .KRB_ERROR reserved krb_error => .KRB_ERROR ⟨header reserved, some krb_error.packet⟩
  | .TGT_REQ reserved princname => .TGT_REQ ⟨header reserved, some princname⟩
  | .TGT_REP reserved tgt => .TGT_REP ⟨header reserved, some tgt⟩
  | .ISAKMP reserved innerNextPayload qmmaj qmmin reserved2 payloads =>
      .ISAKMP ⟨header reserved, some innerNextPayload.toNat, qmmaj.map Fin.val, qmmin.map Fin.val,
        reserved2.map UInt16.toNat, some payloads.packet⟩
  | .ERROR reserved errorCode => .ERROR ⟨header reserved, some errorCode.toNat⟩

def Body.type : Body → Nat
  | .AP_REQ .. => 1
  | .AP_REP .. => 2
  | .KRB_ERROR .. => 3
  | .TGT_REQ .. => 4
  | .TGT_REP .. => 5
  | .ISAKMP .. => 6
  | .ERROR .. => 8

def Body.reserved : Body → UInt8
  | .AP_REQ reserved _ _ => reserved
  | .AP_REP reserved _ _ => reserved
  | .KRB_ERROR reserved _ => reserved.getD 0
  | .TGT_REQ reserved _ => reserved.getD 0
  | .TGT_REP reserved _ => reserved.getD 0
  | .ISAKMP reserved _ _ _ _ _ => reserved.getD 0
  | .ERROR reserved _ => reserved.getD 0

/-- The fixed part of a payload behind its length. -/
def Body.fields : Body → List (Nat × Nat)
  | .AP_REQ _ epoch _ => [(4, epoch.toNat)]
  | .AP_REP _ epoch _ => [(4, epoch.toNat)]
  | .KRB_ERROR .. => []
  | .TGT_REQ .. => []
  | .TGT_REP .. => []
  | .ISAKMP _ innerNextPayload qmmaj qmmin reserved2 _ =>
      [(1, innerNextPayload.toNat), (1, (qmmaj.getD 1).val <<< 4 ||| (qmmin.getD 0).val),
        (2, (reserved2.getD 0).toNat)]
  | .ERROR _ errorCode => [(4, errorCode.toNat)]

/-- What is behind the fixed part. -/
def Body.rest : Body → List UInt8
  | .AP_REQ _ _ ap_req => ap_req
  | .AP_REP _ _ ap_rep => ap_rep
  | .KRB_ERROR _ krb_error => krb_error.octets
  | .TGT_REQ _ princname =>
      packInt 2 (escapePrincName princname).length ++ escapePrincName princname
  | .TGT_REP _ tgt => tgt
  | .ISAKMP _ _ _ _ _ payloads => payloads.octets
  | .ERROR .. => []

/-- The octets that the length counts but the payload does not have. -/
def Body.excess : Body → Nat
  | .TGT_REP .. => 2
  | _ => 0

def Body.width (body : Body) : Nat := 4 + (body.fields.map Prod.fst).sum

/-- The length field of a payload. -/
def Payload.length (p : Payload) : Nat := p.body.width + p.body.rest.length + p.body.excess

def Payload.fields (p : Payload) : List (Nat × Nat) :=
  [(1, p.nextPayload.toNat), (1, p.body.reserved.toNat), (2, p.length)] ++ p.body.fields

/-- A payload without its padding. -/
def Payload.octets (p : Payload) : List UInt8 := pack p.fields ++ p.body.rest

def Payload.padded (p : Payload) : List UInt8 := p.octets ++ pad p.octets

/-- The type that leads to a list of payloads. -/
def firstType : List Payload → Nat
  | [] => 0
  | p :: _ => p.body.type

/-- Each payload names the one that follows. -/
def Linked : List Payload → Prop
  | [] => True
  | p :: ps => p.nextPayload.toNat = firstType ps ∧ Linked ps

end Message

structure Message where
  type : UInt8
  mjVer : Fin 16
  reserved : Fin 16
  doi : UInt32
  xid : UInt32
  ackreq : Fin 2
  reserved2 : Fin 128
  payloads : List Message.Payload
  cksum : List UInt8

namespace Message

variable (m : Message)

def body : List UInt8 := m.payloads.flatMap Payload.padded

def length : Nat := 16 + m.body.length + m.cksum.length

def header : Def.Header where
  type := some m.type.toNat
  mjVer := some m.mjVer.val
  reserved := some m.reserved.val
  length := some m.length
  doi := some m.doi.toNat
  xid := some m.xid.toNat
  nextPayload := some (firstType m.payloads)
  ackreq := some m.ackreq.val
  reserved2 := some m.reserved2.val
  cksumLen := some m.cksum.length

/-- The header, the payloads and the checksum, one behind the other. -/
def encode : Except String (List UInt8) := do
  let header ← encode_KINK_Header m.header
  let payloads ← (m.payloads.map Payload.define).mapM encode_KINK_Payload
  return header ++ payloads.flatten ++ m.cksum

def headerFields : List (Nat × Nat) :=
  [(1, m.type.toNat), (1, m.mjVer.val <<< 4 ||| m.reserved.val), (2, m.length), (4, m.doi.toNat),
    (4, m.xid.toNat), (1, firstType m.payloads), (1, m.ackreq.val <<< 7 ||| m.reserved2.val),
    (2, m.cksum.length)]

def octets : List UInt8 := pack m.headerFields ++ m.body ++ m.cksum

theorem encodePayload_define (p : Payload) : encodePayload p.define = .ok p.octets := by
  obtain ⟨nextPayload, body⟩ := p
  cases body with
  | AP_REQ reserved epoch ap_req =>
      simp [encodePayload, encode_KINK_AP_REQ, Payload.define, bind, Except.bind, pure,
        Except.pure, lengthOr, Payload.octets, Payload.fields, Payload.length, Body.width,
        Body.fields, Body.rest, Body.excess, Body.reserved]
  | AP_REP reserved epoch ap_rep =>
      simp [encodePayload, encode_KINK_AP_REP, Payload.define, bind, Except.bind, pure,
        Except.pure, lengthOr, Payload.octets, Payload.fields, Payload.length, Body.width,
        Body.fields, Body.rest, Body.excess, Body.reserved]
  | KRB_ERROR reserved krb_error =>
      cases reserved <;>
        simp [encodePayload, encode_KINK_KRB_ERROR, Payload.define, krb_error.encoded, bind,
          Except.bind, pure, Except.pure, lengthOr, Payload.octets, Payload.fields,
          Payload.length, Body.width, Body.fields, Body.rest, Body.excess, Body.reserved]
  | TGT_REQ reserved princname =>
      have length : 4 + ((escapePrincName princname).length + 2) =
          4 + 2 + (escapePrincName princname).length := by omega
      cases reserved <;>
        simp [encodePayload, encode_KINK_TGT_REQ, Payload.define, bind, Except.bind, pure,
          Except.pure, lengthOr, Payload.octets, Payload.fields, Payload.length, Body.width,
          Body.fields, Body.rest, Body.excess, Body.reserved, Nat.add_comm 2, length]
  | TGT_REP reserved tgt =>
      have length : 4 + tgt.length + 2 = 4 + 2 + tgt.length := by omega
      cases reserved <;>
        simp [encodePayload, encode_KINK_TGT_REP, Payload.define, bind, Except.bind, pure,
          Except.pure, lengthOr, Payload.octets, Payload.fields, Payload.length, Body.width,
          Body.fields, Body.rest, Body.excess, Body.reserved, length]
  | ISAKMP reserved innerNextPayload qmmaj qmmin reserved2 payloads =>
      cases reserved <;> cases qmmaj <;> cases qmmin <;> cases reserved2 <;>
        simp [encodePayload, encode_KINK_ISAKMP, Payload.define, payloads.encoded, bind,
          Except.bind, pure, Except.pure, lengthOr, Payload.octets, Payload.fields,
          Payload.length, Body.width, Body.fields, Body.rest, Body.excess, Body.reserved]
  | ERROR reserved errorCode =>
      cases reserved <;>
        simp [encodePayload, encode_KINK_ERROR, Payload.define, bind, Except.bind, pure,
          Except.pure, lengthOr, Payload.octets, Payload.fields, Payload.length, Body.width,
          Body.fields, Body.rest, Body.excess, Body.reserved]

theorem encode_KINK_Payload_define (p : Payload) :
    encode_KINK_Payload p.define = .ok p.padded := by
  rw [encode_KINK_Payload, encodePayload_define]
  rfl

theorem encode_eq : m.encode = .ok m.octets := by
  have payloads := mapM_ok encode_KINK_Payload_define m.payloads
  simp [encode, payloads, encode_KINK_Header, header, octets, headerFields, body, bind, Except.bind,
    pure, Except.pure, List.flatMap]

end Message

end Tahi.Kink

import Mathlib.Data.Nat.Digits.Defs
import Tahi.Kink.ISAKMPEncode

/-! # Encoding KINK messages

The header and the payloads are encoded apart. Each encoder of a payload computes the length
field on its own, and the padding goes by what the encoder returns. The encrypted payload, which
needs the keys of a session, is left out.
-/

namespace Tahi.Kink

open Perl

/-! ## A Kerberos error

Each element of the sequence has its place in its type, and one value inside. -/

namespace Def

structure PrincipalName where
  nameType : Option Nat
  nameString : Option (List (List UInt8))
deriving DecidableEq, Repr

structure KRB_ERROR where
  pvno : Option Nat
  msgType : Option Nat
  ctime : Option (List UInt8)
  cusec : Option Nat
  stime : Option (List UInt8)
  susec : Option Nat
  errorCode : Option Nat
  crealm : Option (List UInt8)
  cname : Option PrincipalName
  realm : Option (List UInt8)
  sname : Option PrincipalName
  eText : Option (List UInt8)
  eData : Option (List Digit)
deriving DecidableEq, Repr

end Def

/-- `sprintf('%x')`. -/
def sprintfx (n : Nat) : List Digit :=
  if n = 0 then [0] else ((Nat.digits 16 n).map (Fin.ofNat 16)).reverse

/-- The octets of a number. An odd number of digits has a zero in front. -/
def hexOctets (n : Nat) : List UInt8 :=
  let digits := sprintfx n
  unhex (if digits.length % 2 = 1 then 0 :: digits else digits)

def encode_ASN1_Length (length : Nat) : List UInt8 :=
  let len := hexOctets length
  if length > 127 then pack [(1, 0x80 + len.length)] ++ len else len

/-- `$type . $length . $value`. -/
def asn1 (type : Nat) (value : List UInt8) : List UInt8 :=
  pack [(1, type)] ++ encode_ASN1_Length value.length ++ value

def encode_Kerberos_PrincipalName (pname : Def.PrincipalName) : Except String (List UInt8) := do
  let name_type ← defined "encode_Kerberos_KRB_ERROR" "name-type" pname.nameType
  let name_type := asn1 0xa0 (asn1 0x02 (hexOctets name_type))
  let name ← defined "encode_Kerberos_KRB_ERROR" "name-string" pname.nameString
  let name_string := asn1 0xa1 (asn1 0x30 (name.flatMap (asn1 0x1b)))
  return asn1 0x30 (name_type ++ name_string)

/-- The elements that are there, each with its place in its type. -/
def elements (data : List (Option (List UInt8))) : List (Nat × List UInt8) :=
  data.zipIdx.filterMap fun (data, i) => data.map fun data => (0xa0 + i, data)

def encode_Kerberos_KRB_ERROR (packet : Def.KRB_ERROR) : Except String (List UInt8) := do
  let sub := "encode_Kerberos_KRB_ERROR"
  let pvno ← defined sub "pvno" packet.pvno
  let msg_type ← defined sub "msg-type" packet.msgType
  let stime ← defined sub "stime" packet.stime
  let susec ← defined sub "susec" packet.susec
  let error_code ← defined sub "error-code" packet.errorCode
  let crealm ← defined sub "crealm" packet.crealm
  let cname ← defined sub "cname" packet.cname
  let cname ← encode_Kerberos_PrincipalName cname
  let realm ← defined sub "realm" packet.realm
  let sname ← defined sub "sname" packet.sname
  let sname ← encode_Kerberos_PrincipalName sname
  let data := [
    some (asn1 0x02 (hexOctets pvno)),
    some (asn1 0x02 (hexOctets msg_type)),
    packet.ctime.map fun ctime => asn1 0x18 (ctime ++ [0x5a]),
    packet.cusec.map fun cusec => asn1 0x02 (hexOctets cusec),
    some (asn1 0x18 (stime ++ [0x5a])),
    some (asn1 0x02 (hexOctets susec)),
    some (asn1 0x02 (hexOctets error_code)),
    some (asn1 0x1b crealm),
    some cname,
    some (asn1 0x1b realm),
    some sname,
    packet.eText.map (asn1 0x1b),
    packet.eData.map fun e_data => asn1 0x04 (unhex e_data)]
  let value := (elements data).flatMap fun (type, data) => asn1 type data
  return asn1 0x7e (asn1 0x30 value)

/-! ## Messages -/

namespace Def

structure Header where
  type : Option Nat
  mjVer : Option Nat
  reserved : Option Nat
  length : Option Nat
  doi : Option Nat
  xid : Option Nat
  nextPayload : Option Nat
  ackreq : Option Nat
  reserved2 : Option Nat
  cksumLen : Option Nat
deriving DecidableEq, Repr

structure AP_REQ extends Generic where
  epoch : Option Nat
  ap_req : Option (List UInt8)
deriving DecidableEq, Repr

structure AP_REP extends Generic where
  epoch : Option Nat
  ap_rep : Option (List UInt8)
deriving DecidableEq, Repr

structure KRB_ERRORPayload extends Generic where
  krb_error : Option KRB_ERROR
deriving DecidableEq, Repr

structure TGT_REQ extends Generic where
  princName : Option (List UInt8)
deriving DecidableEq, Repr

structure TGT_REP extends Generic where
  tgt : Option (List UInt8)
deriving DecidableEq, Repr

structure ISAKMP extends Generic where
  innerNextPayload : Option Nat
  qmmaj : Option Nat
  qmmin : Option Nat
  reserved2 : Option Nat
  payloads : Option (List QuickModePayload)
deriving DecidableEq, Repr

structure ERROR extends Generic where
  errorCode : Option Nat
deriving DecidableEq, Repr

inductive KINKPayload where
  | AP_REQ (packet : AP_REQ)
  | AP_REP (packet : AP_REP)
  | KRB_ERROR (packet : KRB_ERRORPayload)
  | TGT_REQ (packet : TGT_REQ)
  | TGT_REP (packet : TGT_REP)
  | ISAKMP (packet : ISAKMP)
  | ERROR (packet : ERROR)
  /-- A name that no encoder has. -/
  | other (name : String)
deriving DecidableEq, Repr

end Def

/-- The header is undefined when one of its keys is. -/
def encode_KINK_Header (packet : Def.Header) : Except String (List UInt8) := do
  let sub := "encode_KINK_Header"
  let type ← defined sub "Type" packet.type
  let mjver ← defined sub "MjVer" packet.mjVer
  let reserved ← defined sub "RESERVED" packet.reserved
  let length ← defined sub "Length" packet.length
  let doi ← defined sub "DOI" packet.doi
  let xid ← defined sub "XID" packet.xid
  let next_payload ← defined sub "NextPayload" packet.nextPayload
  let ackreq ← defined sub "ACKREQ" packet.ackreq
  let reserved2 ← defined sub "RESERVED2" packet.reserved2
  let cksumlen ← defined sub "CksumLen" packet.cksumLen
  return pack [(1, type), (1, mjver <<< 4 ||| reserved), (2, length), (4, doi), (4, xid),
    (1, next_payload), (1, ackreq <<< 7 ||| reserved2), (2, cksumlen)]

def encode_KINK_AP_REQ (packet : Def.AP_REQ) : Except String (List UInt8) := do
  let next_payload ← defined "encode_KINK_AP_REQ" "NextPayload" packet.nextPayload
  let reserved ← defined "encode_KINK_AP_REQ" "RESERVED" packet.reserved
  let epoch ← defined "encode_KINK_AP_REQ" "EPOCH" packet.epoch
  let ap_req ← defined "encode_KINK_AP_REQ" "AP-REQ" packet.ap_req
  let length := lengthOr (8 + ap_req.length) packet.payloadLength
  return pack [(1, next_payload), (1, reserved), (2, length), (4, epoch)] ++ ap_req

def encode_KINK_AP_REP (packet : Def.AP_REP) : Except String (List UInt8) := do
  let next_payload ← defined "encode_KINK_AP_REP" "NextPayload" packet.nextPayload
  let reserved ← defined "encode_KINK_AP_REP" "RESERVED" packet.reserved
  let epoch ← defined "encode_KINK_AP_REP" "EPOCH" packet.epoch
  let ap_rep ← defined "encode_KINK_AP_REP" "AP-REP" packet.ap_rep
  let length := lengthOr (8 + ap_rep.length) packet.payloadLength
  return pack [(1, next_payload), (1, reserved), (2, length), (4, epoch)] ++ ap_rep

def encode_KINK_KRB_ERROR (packet : Def.KRB_ERRORPayload) : Except String (List UInt8) := do
  let next_payload ← defined "encode_KINK_KRB_ERROR" "NextPayload" packet.nextPayload
  let reserved := packet.reserved.getD 0
  let krb_error ← defined "encode_KINK_KRB_ERROR" "KRB-ERROR" packet.krb_error
  let krb_error ← encode_Kerberos_KRB_ERROR krb_error
  let length := lengthOr (4 + krb_error.length) packet.payloadLength
  return pack [(1, next_payload), (1, reserved), (2, length)] ++ krb_error

/-- `s/../\\./g` for a single character. -/
def escape (character letter : UInt8) (s : List UInt8) : List UInt8 :=
  s.flatMap fun c => if c = character then [0x5c, letter] else [c]

/-- The characters that have a meaning in a principal name, the backslash first. -/
def escapePrincName (princname : List UInt8) : List UInt8 :=
  let princname := escape 0x5c 0x5c princname
  let princname := escape 0x00 0x30 princname
  let princname := escape 0x09 0x74 princname
  let princname := escape 0x0a 0x6e princname
  let princname := escape 0x40 0x40 princname
  escape 0x2f 0x2f princname

def encode_KINK_TGT_REQ (packet : Def.TGT_REQ) : Except String (List UInt8) := do
  let next_payload ← defined "encode_KINK_TGT_REQ" "NextPayload" packet.nextPayload
  let reserved := packet.reserved.getD 0
  let princname ← defined "encode_KINK_TGT_REQ" "PrincName" packet.princName
  let princname := escapePrincName princname
  let length := lengthOr (4 + 2 + princname.length) packet.payloadLength
  return pack [(1, next_payload), (1, reserved), (2, length)] ++ pack [(2, princname.length)] ++
    princname

def encode_KINK_TGT_REP (packet : Def.TGT_REP) : Except String (List UInt8) := do
  let next_payload ← defined "encode_KINK_TGT_REP" "NextPayload" packet.nextPayload
  let reserved := packet.reserved.getD 0
  let tgt ← defined "encode_KINK_TGT_REP" "TGT" packet.tgt
  let length := lengthOr (4 + 2 + tgt.length) packet.payloadLength
  return pack [(1, next_payload), (1, reserved), (2, length)] ++ tgt

def encode_KINK_ISAKMP (packet : Def.ISAKMP) : Except String (List UInt8) := do
  let next_payload ← defined "encode_KINK_ISAKMP" "NextPayload" packet.nextPayload
  let reserved := packet.reserved.getD 0
  let inner_next_payload ← defined "encode_KINK_ISAKMP" "InnerNextPayload"
    packet.innerNextPayload
  let qmmaj := packet.qmmaj.getD 1
  let qmmin := packet.qmmin.getD 0
  let reserved2 := packet.reserved2.getD 0
  let payloads ← defined "encode_KINK_ISAKMP" "Quick Mode Payloads" packet.payloads
  let quick_mode_payload ← encode_ISAKMP_Payload payloads
  let length := lengthOr (8 + quick_mode_payload.length) packet.payloadLength
  return pack [(1, next_payload), (1, reserved), (2, length), (1, inner_next_payload),
    (1, qmmaj <<< 4 ||| qmmin), (2, reserved2)] ++ quick_mode_payload

def encode_KINK_ERROR (packet : Def.ERROR) : Except String (List UInt8) := do
  let next_payload ← defined "encode_KINK_ERROR" "NextPayload" packet.nextPayload
  let reserved := packet.reserved.getD 0
  let length := lengthOr 8 packet.payloadLength
  let error_code ← defined "encode_KINK_ERROR" "ErrorCode" packet.errorCode
  return pack [(1, next_payload), (1, reserved), (2, length), (4, error_code)]

def encodePayload : Def.KINKPayload → Except String (List UInt8)
  | .AP_REQ packet => encode_KINK_AP_REQ packet
  | .AP_REP packet => encode_KINK_AP_REP packet
  | .KRB_ERROR packet => encode_KINK_KRB_ERROR packet
  | .TGT_REQ packet => encode_KINK_TGT_REQ packet
  | .TGT_REP packet => encode_KINK_TGT_REP packet
  | .ISAKMP packet => encode_KINK_ISAKMP packet
  | .ERROR packet => encode_KINK_ERROR packet
  | .other name => .error ("encode_KINK_Payload: invalid payload name(" ++ name ++ ")")

def pad (payload : List UInt8) : List UInt8 :=
  List.replicate (align payload.length 4 - payload.length) 0

def encode_KINK_Payload (packet : Def.KINKPayload) : Except String (List UInt8) := do
  let payload ← encodePayload packet
  return payload ++ pad payload

end Tahi.Kink

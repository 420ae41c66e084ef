import Tahi.General.PerlString
import Tahi.Ike.KConsts

/-! # Decoding IKEv2 messages

Each function decodes one header or payload at the start of the data it is given and
returns what follows as well. The hashes are structures here; a key that is not set is
`none`.
-/

namespace Tahi.Ike

open Perl

/-- A number that was decoded, for the tables of names. -/
def constant {Name : Type} (table : Constant Name → Constant Name) (n : Option Nat) :
    Option (Constant Name) :=
  n.map fun n => table (.num n)

structure Header where
  initSPI : Option (List Digit)
  respSPI : Option (List Digit)
  major : Nat
  minor : Nat
  exchType : Option (Constant ExchangeType)
  initiator : Bool
  higher : Bool
  response : Bool
  messID : Option Nat
  nexttype : Option (Constant PayloadType)
  payloads : Str
  datalen : Option Nat
  flags : Option Nat
  reserved1 : Nat
  reserved2 : Nat
  length : Option Nat := none
deriving DecidableEq, Repr

def kDecIKEHeader (data : Str) : Header :=
  let header := substr data 0 (some 28)
  let payloads := substr data 28 none
  let v := unpack [.H (some 16), .H (some 16), .int 1, .int 1, .int 1, .int 1, .int 4, .int 4]
    header.octets
  let version := (Item.num? v[3]?).getD 0
  let flag := (Item.num? v[5]?).getD 0
  { initSPI := Item.digits? v[0]?
    respSPI := Item.digits? v[1]?
    major := (version >>> 4) % 16
    minor := version % 16
    exchType := constant kExchangeType (Item.num? v[4]?)
    initiator := flag &&& 8 != 0
    higher := flag &&& 16 != 0
    response := flag &&& 32 != 0
    messID := Item.num? v[6]?
    nexttype := constant kPayloadType (Item.num? v[2]?)
    payloads := payloads
    datalen := Item.num? v[7]?
    flags := Item.num? v[5]?
    reserved1 := flag &&& 0xc0
    reserved2 := flag &&& 0x7 }

/-- What all payloads have. `paylen` is the length without the header. -/
structure GenericPayload where
  nexttype : Option (Constant PayloadType)
  critical : Bool
  payload : Str
  payloads : Str
  paylen : Int
  reserved : Nat
deriving DecidableEq, Repr

def kDecGenericPayloadHeader (data : Str) : GenericPayload :=
  let header := substr data 0 (some 4)
  let v := unpack [.int 1, .int 1, .int 2] header.octets
  let critical := (Item.num? v[1]?).getD 0
  let paylen := (Item.num? v[2]?).getD 0
  { nexttype := constant kPayloadType (Item.num? v[0]?)
    critical := critical &&& 0x80 != 0
    payload := substr data 4 (some (paylen - 4))
    payloads := substr data paylen none
    paylen := paylen - 4
    reserved := critical &&& 0x7f }

inductive AttributeValue where
  | number (n : Option Nat)
  | octets (s : Str)
deriving DecidableEq, Repr

structure SAAttribute where
  af : Nat
  type : Constant AttributeType
  length : Option Nat
  value : AttributeValue
  nextdata : Str
deriving DecidableEq, Repr

def kDecSAAttribute (data : Str) : SAAttribute :=
  let type := (unpackInt 2 (substr data 0 (some 2))).getD 0
  let second := unpackInt 2 (substr data 2 (some 2))
  let af := (type &&& 0x8000) >>> 15
  let type := kAttributeType (.num (type &&& 0x7fff))
  if af ≠ 0 then
    ⟨af, type, none, .number second, substr data 4 none⟩
  else
    let length := second.getD 0
    ⟨af, type, second, .octets (substr data 4 (some length)), substr data (4 + length) none⟩

/-- A transform, whose attributes are octets until they are decoded. -/
structure SATransform (Attributes : Type) where
  type : Option (Constant TransformType)
  id : Option (Constant TransformID)
  attributes : Attributes
  attributesLen : Int
  transformLen : Option Nat
  nexttype : Option Nat
  nextdata : Str
  reserved1 : Option Nat
  reserved2 : Option Nat
deriving DecidableEq, Repr

def kDecSATransform (data : Str) : SATransform Str :=
  let header := substr data 0 (some 8)
  let v := unpack [.int 1, .int 1, .int 2, .int 1, .int 1, .int 2] header.octets
  let totalLen := (Item.num? v[2]?).getD 0
  let type := Item.num? v[3]?
  { type := constant kTransformType type
    id := do kTransformTypeID (.num (← type)) (.num (← Item.num? v[5]?))
    attributes := substr data 8 (some (totalLen - 8))
    attributesLen := totalLen - 8
    transformLen := Item.num? v[2]?
    nexttype := Item.num? v[0]?
    nextdata := substr data totalLen none
    reserved1 := Item.num? v[1]?
    reserved2 := Item.num? v[4]? }

/-- A proposal, whose transforms are octets until they are decoded. -/
structure SAProposal (Transforms : Type) where
  number : Option Nat
  id : Option (Constant ProtocolID)
  spiSize : Option Nat
  spi : Option (List Digit)
  transformCount : Option Nat
  transforms : Transforms
  transformsLen : Int
  proposalLen : Option Nat
  nexttype : Option Nat
  nextdata : Str
  reserved : Option Nat
deriving DecidableEq, Repr

def kDecSAProposal (data : Str) : SAProposal Str :=
  let v := unpack [.int 1, .int 1, .int 2, .int 1, .int 1, .int 1, .int 1] data.octets
  let totalLen := (Item.num? v[2]?).getD 0
  let spiSize := (Item.num? v[5]?).getD 0
  let spi := substr data 8 (some spiSize)
  { number := Item.num? v[3]?
    id := constant kProtocolID (Item.num? v[4]?)
    spiSize := Item.num? v[5]?
    spi := if 0 < spiSize then some ((hex spi.octets).take (spiSize * 2)) else spi.map hex
    transformCount := Item.num? v[6]?
    transforms := substr data (8 + spiSize) (some (totalLen - 8 - spiSize))
    transformsLen := totalLen - 8 - spiSize
    proposalLen := Item.num? v[2]?
    nexttype := Item.num? v[0]?
    nextdata := substr data totalLen none
    reserved := Item.num? v[1]? }

/-- `Math::BigInt->new('0x' . digits)`, where none stands for NaN. -/
def bigInt (digits : List Digit) : Option Nat :=
  if digits.isEmpty then none else some (digits.foldl (fun n d => 16 * n + d) 0)

structure TSSelector where
  type : Option (Constant TrafficSelectorType)
  protocol : Option Nat
  sport : Option Nat := none
  eport : Option Nat := none
  saddr : Str := none
  eaddr : Str := none
  selectorLen : Option Nat := none
  data : Str := none
  nextdata : Str
deriving DecidableEq, Repr

def kDecTSSelector (data : Str) : TSSelector :=
  let header := substr data 0 (some 4)
  let v := unpack [.int 1, .int 1, .int 2] header.octets
  let length := (Item.num? v[2]?).getD 0
  let selectors := substr data length none
  let data := substr data 4 (some (length - 4))
  let type := constant kTrafficSelectorType (Item.num? v[0]?)
  if type = some (.name .IPV6_ADDR_RANGE) ∨ type = some (.name .IPV4_ADDR_RANGE) then
    let ports := unpack [.int 2, .int 2] (substr data 0 (some 4)).octets
    let data := substr data 4 none
    { type := type
      protocol := Item.num? v[1]?
      sport := Item.num? ports[0]?
      eport := Item.num? ports[1]?
      saddr := substr data 0 (some (data.len / 2 : Nat))
      eaddr := substr data (data.len / 2 : Nat) none
      nextdata := selectors
      selectorLen := Item.num? v[2]? }
  else
    { type := type
      protocol := Item.num? v[1]?
      data := data
      nextdata := selectors }

structure ConfigurationAttribute where
  reserved : Nat
  attr_type : Constant ConfAttributeType
  length : Option Nat
  value : List Digit
deriving DecidableEq, Repr

/-- The loop of `kDecConfigurationAttributes`. -/
def kDecConfigurationAttributes (data : Str) (paylen : Int) (offset : Nat) :
    List ConfigurationAttribute :=
  if paylen - offset - 8 < 0 then []
  else
    let v := unpack [.int 2, .int 2] (substr data offset (some (offset + 4 : Nat))).octets
    let attr_type := (Item.num? v[0]?).getD 0
    let length := (Item.num? v[1]?).getD 0
    -- Twice as many octets as the attribute has, as if they were digits.
    let value := substr data (offset + 4 : Nat) (some (length * 2 : Nat))
    { reserved := (attr_type &&& 0x8000) >>> 15
      attr_type := kConfAttributeType (.num (attr_type &&& 0x7fff))
      length := Item.num? v[1]?
      value := hex value.octets } ::
      kDecConfigurationAttributes data paylen (offset + 4 + length * 2)
termination_by (paylen - offset).toNat

/-- What the payloads of the different types have in common. The key `payloads` is cleared
    when it has been read. -/
structure Common where
  nexttype : Option (Constant PayloadType)
  critical : Bool
  reserved : Nat
  payloads : Str
  offset : Int := 0
  length : Int := 0
deriving DecidableEq, Repr

def GenericPayload.common (info : GenericPayload) : Common where
  nexttype := info.nexttype
  critical := info.critical
  reserved := info.reserved
  payloads := info.payloads

@[simp] theorem GenericPayload.common_payloads (info : GenericPayload) :
    info.common.payloads = info.payloads := rfl
@[simp] theorem GenericPayload.common_nexttype (info : GenericPayload) :
    info.common.nexttype = info.nexttype := rfl

abbrev Proposal := SAProposal (List (SATransform (List SAAttribute)))

mutual

structure Payload where
  common : Common
  body : Body

/-- The keys that only the payloads of one type have. -/
inductive Body where
  | SA (proposalsLen : Int) (proposals : Option (List Proposal))
  | KE (group : Option Nat) (publicKey : Option Nat) (keyLen : Int) (reserved1 : Option Item)
  | ID (self : PayloadType) (type : Option (Constant IdentificationType)) (value : Str)
      (reserved1 : Nat)
  | CERT (cert_encoding : Option (Constant CertificateEncoding))
      (cert_data : Option (List Digit))
  | CERTREQ (cert_encoding : Option (Constant CertificateEncoding))
      (cert_authority : Option (List Digit))
  | AUTH (method : Option (Constant AuthenticationMethod)) (data : List Digit)
      (reserved1 : Nat)
  | NiNr (nonce : Option Nat) (nonceLen : Int)
  | N (id : Option (Constant ProtocolID)) (type : Option (Constant NotifyType))
      (spiSize : Option Nat) (spi data : List Digit) (paylen : Int)
  | D (id : Option (Constant ProtocolID)) (spiSize : Option Nat) (spiCount : Option Item)
      (spis : Option (List Digit)) (nextdata : Str)
  | V (vendorID : Option Nat)
  | TS (self : PayloadType) (count : Option Nat) (selectors : List TSSelector)
      (reserved1 : Nat)
  | E (checksum iv : Str) (enc_paylen : Int) (innerType : Option (Constant PayloadType))
      (innerPayloads : List Payload)
  | rawE (enc_data : Str) (enc_paylen : Int) (innerType : Option (Constant PayloadType))
  | CP (cfg_type : Option (Constant ConfigurationType)) (reserved1 : Nat)
      (attributes : List ConfigurationAttribute)
  | EAP (code id eapmsg_length type : Option Nat) (data : Option (List Digit))
  | other (payload : Str) (paylen : Int)

end

def kDecKeyExchangePayload (data : Str) : Payload :=
  let info := kDecGenericPayloadHeader data
  let v := unpack [.int 2, .int 2, .H none] info.payload.octets
  ⟨info.common, .KE (Item.num? v[0]?) (bigInt ((Item.digits? v[2]?).getD [])) (info.paylen - 4)
    v[1]?⟩

def kDecNoncePayload (data : Str) : Payload :=
  let info := kDecGenericPayloadHeader data
  ⟨info.common, .NiNr (bigInt (hex info.payload.octets)) info.paylen⟩

def kDecNotifyPayload (data : Str) : Payload :=
  let info := kDecGenericPayloadHeader data
  let header := substr info.payload 0 (some 4)
  let values := substr info.payload 4 none
  let v := unpack [.int 1, .int 1, .int 2] header.octets
  let spiSize := (Item.num? v[1]?).getD 0
  -- The digits of four times as many octets as the SPI has.
  let spi := (hex values.octets).take (spiSize * 8)
  let ndata := substr values spiSize none
  ⟨info.common, .N (constant kProtocolID (Item.num? v[0]?))
    (constant kNotifyType (Item.num? v[2]?)) (Item.num? v[1]?) spi (hex ndata.octets)
    info.paylen⟩

/-- The 24 bits behind the first octet of a payload. -/
def reserved24 (payload : Str) : Nat :=
  let v := unpack [.int 1, .int 1, .int 1] (substr payload 1 (some 3)).octets
  (Item.num? v[0]?).getD 0 <<< 16 ||| (Item.num? v[1]?).getD 0 <<< 8 |||
    (Item.num? v[2]?).getD 0

def kDecIdentificationPayload (self : PayloadType) (data : Str) : Payload :=
  let info := kDecGenericPayloadHeader data
  let type := unpackInt 1 (substr info.payload 0 (some 1))
  ⟨info.common, .ID self (constant kIdentificationType type) (substr info.payload 4 none)
    (reserved24 info.payload)⟩

def kDecIdentificationIPayload : Str → Payload := kDecIdentificationPayload .IDi

def kDecIdentificationRPayload : Str → Payload := kDecIdentificationPayload .IDr

def kDecAuthenticationPayload (data : Str) : Payload :=
  let info := kDecGenericPayloadHeader data
  let method := unpackInt 1 (substr info.payload 0 (some 1))
  ⟨info.common, .AUTH (constant kAuthenticationMethod method)
    (hex (substr info.payload 4 none).octets) (reserved24 info.payload)⟩

/-- The loop of `kDecTrafficSelectorPayload`. -/
def decSelectors : Nat → Str → List TSSelector
  | 0, _ => []
  | count + 1, ts_data =>
      if 8 < ts_data.len then
        let selector := kDecTSSelector ts_data
        { selector with nextdata := none } :: decSelectors count selector.nextdata
      else []

def kDecTrafficSelectorPayload (self : PayloadType) (data : Str) : Payload :=
  let info := kDecGenericPayloadHeader data
  let count := unpackInt 1 (substr info.payload 0 (some 1))
  let ts_data := substr info.payload 4 none
  ⟨info.common, .TS self count (decSelectors (count.getD 0) ts_data) (reserved24 info.payload)⟩

def kDecTrafficSelectorIPayload : Str → Payload := kDecTrafficSelectorPayload .TSi

def kDecTrafficSelectorRPayload : Str → Payload := kDecTrafficSelectorPayload .TSr

def kDecDeletePayload (data : Str) : Payload :=
  let info := kDecGenericPayloadHeader data
  let v := unpack [.int 1, .int 1, .int 2, .H none] info.payload.octets
  ⟨info.common, .D (constant kProtocolID (Item.num? v[0]?)) (Item.num? v[1]?) v[2]?
    (Item.digits? v[3]?) info.payloads⟩

def kDecVendorIDPayload (data : Str) : Payload :=
  let info := kDecGenericPayloadHeader data
  ⟨info.common, .V (bigInt (hex info.payload.octets))⟩

def kDecCertificatePayload (data : Str) : Payload :=
  let info := kDecGenericPayloadHeader data
  let v := unpack [.int 1, .H none] info.payload.octets
  ⟨info.common, .CERT (constant kCertificateEncoding (Item.num? v[0]?)) (Item.digits? v[1]?)⟩

def kDecCertificateRequestPayload (data : Str) : Payload :=
  let info := kDecGenericPayloadHeader data
  let v := unpack [.int 1, .H none] info.payload.octets
  ⟨info.common, .CERTREQ (constant kCertificateEncoding (Item.num? v[0]?))
    (Item.digits? v[1]?)⟩

def kDecEAPPayload (data : Str) : Payload :=
  let info := kDecGenericPayloadHeader data
  let v := unpack [.int 1, .int 1, .int 2] info.payload.octets
  let w := unpack [.int 1, .H none] (substr info.payload 4 (some (info.paylen - 4))).octets
  ⟨info.common, .EAP (Item.num? v[0]?) (Item.num? v[1]?) (Item.num? v[2]?) (Item.num? w[0]?)
    (Item.digits? w[1]?)⟩

def kDecConfigurationPayload (data : Str) : Payload :=
  let info := kDecGenericPayloadHeader data
  let cfg_type := unpackInt 1 (substr info.payload 0 (some 1))
  let attributes := kDecConfigurationAttributes (substr info.payload 4 none) info.paylen 0
  ⟨info.common, .CP (constant kConfigurationType cfg_type) (reserved24 info.payload) attributes⟩

/-- The keying material, as far as the parser uses it: the sizes of a block and of a
    checksum, and the decryption of a text with its initialization vector under the keys of
    the initiator or of the responder. -/
structure Material where
  bencr : Nat
  binteg : Nat
  decr : Bool → Str → Str → Str

/-- The generic header, the checksum, the vector and what the cipher text decrypts to. -/
def kDecEncryptedPayload (data : Str) (material : Material) (is_initiator : Bool) :
    GenericPayload × Str × Str × Str :=
  let info := kDecGenericPayloadHeader data
  let iv := substr info.payload 0 (some material.bencr)
  let cypher := substr info.payload material.bencr (some (-material.binteg))
  let checksum := substr info.payload (-material.binteg) none
  (info, checksum, iv, material.decr is_initiator cypher iv)

end Tahi.Ike

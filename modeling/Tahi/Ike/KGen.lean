import Tahi.General.PerlString
import Tahi.Ike.KConsts

/-! # Generating IKEv2 messages

A message is defined by a list of hashes, the header and the payloads. They are structures
here, and a key is `none` when it is not set or is `'auto'`.
-/

namespace Tahi.Ike

open Perl

/-! ## Definitions of messages -/

namespace Def

/-- The keys that all payloads have. -/
structure Generic where
  nexttype : Option (Constant PayloadType) := none
  critical : Option Nat := none
  reserved : Option Nat := none
  length : Option Nat := none
deriving DecidableEq, Repr

/-- The key `af` says whether the value is a number or hexadecimal digits. -/
inductive SAAttribute where
  | tv (type : Option (Constant AttributeType)) (value : Option Nat)
  | tlv (type : Option (Constant AttributeType)) (length : Option Nat)
      (value : Option (List Digit))
deriving DecidableEq, Repr

structure SATransform where
  nexttype : Option Nat := none
  reserved1 : Option Nat := none
  transformLen : Option Nat := none
  type : Option (Constant TransformType) := none
  reserved2 : Option Nat := none
  id : Option (Constant TransformID) := none
  attributes : Option (List SAAttribute) := none
deriving DecidableEq, Repr

structure SAProposal where
  nexttype : Option Nat := none
  reserved : Option Nat := none
  proposalLen : Option Nat := none
  number : Option Nat := none
  id : Option (Constant ProtocolID) := none
  spiSize : Option Nat := none
  transformCount : Option Nat := none
  spi : Option (List Digit) := none
  transforms : Option (List SATransform) := none
deriving DecidableEq, Repr

structure SecurityAssociation extends Generic where
  proposals : Option (List SAProposal) := none
deriving DecidableEq, Repr

structure KeyExchange extends Generic where
  group : Option (Constant TransformID) := none
  reserved1 : Option Nat := none
  publicKey : Option (List Digit) := none
deriving DecidableEq, Repr

structure Identification extends Generic where
  type : Option (Constant IdentificationType) := none
  reserved1 : Option Nat := none
  value : Option (List UInt8) := none
deriving DecidableEq, Repr

structure Certification extends Generic where
  cert_encoding : Option (Constant CertificateEncoding) := none
  cert_data : Option (List Digit) := none
deriving DecidableEq, Repr

structure CertificationRequest extends Generic where
  cert_encoding : Option (Constant CertificateEncoding) := none
  cert_authority : Option (List UInt8) := none
deriving DecidableEq, Repr

structure Authentication extends Generic where
  method : Option (Constant AuthenticationMethod) := none
  reserved1 : Option Nat := none
  data : Option (List UInt8) := none
deriving DecidableEq, Repr

structure Nonce extends Generic where
  nonce : Option (List Digit) := none
deriving DecidableEq, Repr

structure Notify extends Generic where
  id : Option (Constant ProtocolID) := none
  spiSize : Option Nat := none
  type : Option (Constant NotifyType) := none
  spi : Option (List Digit) := none
  data : Option (List Digit) := none
deriving DecidableEq, Repr

/-- The SPIs to delete, one by one or all in one string. -/
inductive SPIs where
  | array (spis : List (List Digit))
  | digits (spis : List Digit)
deriving DecidableEq, Repr

structure Delete extends Generic where
  id : Option (Constant ProtocolID) := none
  spiSize : Option Nat := none
  spiCount : Option Nat := none
  spis : Option SPIs := none
deriving DecidableEq, Repr

structure TSSelector where
  type : Option (Constant TrafficSelectorType) := none
  protocol : Option Nat := none
  selectorLen : Option Nat := none
  sport : Option Nat := none
  eport : Option Nat := none
  saddr : Option (List UInt8) := none
  eaddr : Option (List UInt8) := none
deriving DecidableEq, Repr

structure TrafficSelector extends Generic where
  count : Option Nat := none
  reserved1 : Option Nat := none
  selectors : Option (List TSSelector) := none
deriving DecidableEq, Repr

structure ConfigurationAttribute where
  reserved : Option Nat := none
  attr_type : Option (Constant ConfAttributeType) := none
  value : Option (List UInt8) := none
deriving DecidableEq, Repr

structure Configuration extends Generic where
  cfg_type : Option (Constant ConfigurationType) := none
  reserved1 : Option Nat := none
  attributes : Option (List ConfigurationAttribute) := none
deriving DecidableEq, Repr

structure Encrypted extends Generic where
  iv : Option (List Digit) := none
  checksum : Option (List Digit) := none
deriving DecidableEq, Repr

structure Undefined extends Generic where
  type : Option (Constant PayloadType) := none
  data : Option (List Digit) := none
deriving DecidableEq, Repr

inductive Payload where
  | SA (self : SecurityAssociation)
  | KE (self : KeyExchange)
  | IDi (self : Identification)
  | IDr (self : Identification)
  | CERT (self : Certification)
  | CERTREQ (self : CertificationRequest)
  | AUTH (self : Authentication)
  | NiNr (self : Nonce)
  | N (self : Notify)
  | D (self : Delete)
  | TSi (self : TrafficSelector)
  | TSr (self : TrafficSelector)
  | CP (self : Configuration)
  | UNDEFINED (self : Undefined)
  | E (self : Encrypted)
  -- There is no encoding function for these.
  | V
  | EAP
deriving DecidableEq, Repr

structure Header where
  initSPI : Option (List Digit) := none
  respSPI : Option (List Digit) := none
  nexttype : Option (Constant PayloadType) := none
  major : Option Nat := none
  minor : Option Nat := none
  exchType : Option (Constant ExchangeType) := none
  reserved1 : Option Nat := none
  response : Option Nat := none
  higher : Option Nat := none
  initiator : Option Nat := none
  reserved2 : Option Nat := none
  messID : Option Nat := none
  length : Option Nat := none
deriving DecidableEq, Repr

structure Message where
  header : Header
  payloads : List Payload
deriving DecidableEq, Repr

/-- The type of a payload as the one in front of it has it. -/
def Payload.type : Payload → Nat
  | SA _ => (kPayloadType (.name .SA)).packed
  | KE _ => (kPayloadType (.name .KE)).packed
  | IDi _ => (kPayloadType (.name .IDi)).packed
  | IDr _ => (kPayloadType (.name .IDr)).packed
  | CERT _ => (kPayloadType (.name .CERT)).packed
  | CERTREQ _ => (kPayloadType (.name .CERTREQ)).packed
  | AUTH _ => (kPayloadType (.name .AUTH)).packed
  | NiNr _ => (kPayloadType (.name .NiNr)).packed
  | N _ => (kPayloadType (.name .N)).packed
  | D _ => (kPayloadType (.name .D)).packed
  | TSi _ => (kPayloadType (.name .TSi)).packed
  | TSr _ => (kPayloadType (.name .TSr)).packed
  | CP _ => (kPayloadType (.name .CP)).packed
  | UNDEFINED self => (self.type.map Constant.packed).getD 0
  | E _ => (kPayloadType (.name .E)).packed
  | V => (kPayloadType (.name .V)).packed
  | EAP => (kPayloadType (.name .EAP)).packed

end Def

/-- The type of the payload that follows, or 0 behind the last one. -/
def typeOf : List Def.Payload → Nat
  | [] => 0
  | payload :: _ => payload.type

/-! ## Encoding the payloads -/

/-- A constant that is not set is 0. -/
def packed {Name : Type} (table : Constant Name → Constant Name) (x : Option (Constant Name)) :
    Nat :=
  (x.map fun x => (table x).packed).getD 0

/-- The four octets that all payloads start with. -/
def Def.Generic.fields (self : Def.Generic) (next length : Nat) : List (Nat × Nat) :=
  let nexttype := (self.nexttype.map fun type => (kPayloadType type).packed).getD next
  [(1, nexttype), (1, self.critical.getD 0 <<< 7 ||| self.reserved.getD 0), (2, length)]

def kEncAttributeSubstructure : Def.SAAttribute → List UInt8
  | .tv type value =>
      let type := packed kAttributeType type ||| 1 <<< 15
      pack [(2, type), (2, value.getD 0)]
  | .tlv type length value =>
      let type := packed kAttributeType type
      pack [(2, type), (2, length.getD 0)] ++ unhex (value.getD noDigits)

def kEncTransformSubstructure (self : Def.SATransform) (next : Nat) : List UInt8 :=
  let octets := (self.attributes.getD []).flatMap kEncAttributeSubstructure
  let nexttype := self.nexttype.getD next
  let transformLen := match self.transformLen with
    -- It is another key that is read then, `'transformLentransformLen'`.
    | some _ => 0
    | none => 8 + octets.length
  let type := (self.type.map kTransformType).getD (.num 0)
  let id := packedID (self.id.bind (kTransformTypeID type))
  pack [(1, nexttype), (1, self.reserved1.getD 0), (2, transformLen), (1, type.packed),
    (1, self.reserved2.getD 0), (2, id)] ++ octets

/-- The loop over the transforms. -/
def encTransforms : List Def.SATransform → List UInt8
  | [] => []
  | transform :: transforms =>
      kEncTransformSubstructure transform (if transforms.isEmpty then 0 else 3) ++
        encTransforms transforms

def kEncProposalSubstructure (self : Def.SAProposal) (next index : Nat) : List UInt8 :=
  let spi : Str := self.spi.map unhex
  let transform : Str := some (encTransforms (self.transforms.getD []))
  let proposalLen := self.proposalLen.getD (8 + (spi.len + transform.len))
  let spiSize := self.spiSize.getD spi.len
  let transformCount := self.transformCount.getD (self.transforms.getD []).length
  pack [(1, self.nexttype.getD next), (1, self.reserved.getD 0), (2, proposalLen),
      (1, self.number.getD index), (1, packed kProtocolID self.id), (1, spiSize),
      (1, transformCount)] ++
    (if spi.truth then spi.octets else []) ++
    if transform.truth then transform.octets else []

/-- The loop over the proposals. -/
def encProposals : Nat → List Def.SAProposal → List UInt8
  | _, [] => []
  | index, proposal :: proposals =>
      kEncProposalSubstructure proposal (if proposals.isEmpty then 0 else 2) index ++
        encProposals (index + 1) proposals

def kEncSecurityAssociationPayload (self : Def.SecurityAssociation) (next : Nat) :
    List UInt8 :=
  let payload : Str := some (encProposals 1 (self.proposals.getD []))
  let length := self.length.getD (4 + payload.len)
  pack (self.fields next length) ++ if payload.truth then payload.octets else []

def kEncKeyExchangePayload (self : Def.KeyExchange) (next : Nat) : List UInt8 :=
  let group := packedID (self.group.bind (kTransformTypeID (kTransformType (.name .«D-H»))))
  let publicKey := self.publicKey.getD []
  let length := self.length.getD 8 + publicKey.length / 2
  pack (self.fields next length ++ [(2, group), (2, self.reserved1.getD 0)]) ++ unhex publicKey

/-- The addresses that `getaddrinfo` finds, by their families. -/
inductive SockAddr where
  | AF_INET (addr : Vector UInt8 4)
  | AF_INET6 (addr : Vector UInt8 16)
  | other

/-- The octets of the first address. -/
def ipaddr_tobin (getaddrinfo : List UInt8 → List SockAddr) (address : List UInt8) : Str :=
  (getaddrinfo address).findSome? fun
    | .AF_INET addr => some addr.toList
    | .AF_INET6 addr => some addr.toList
    | .other => none

/-- `'0.0.0.0'`. -/
def anyAddr : List UInt8 := [0x30, 0x2e, 0x30, 0x2e, 0x30, 0x2e, 0x30]

/-- `'::'`. -/
def anyAddr6 : List UInt8 := [0x3a, 0x3a]

def kEncIdentificationPayloads_ANY (self : Def.Identification) (next : Nat) : List UInt8 :=
  let value := self.value.getD []
  let length := self.length.getD 8 + value.length
  let reserved1 := self.reserved1.getD 0
  pack (self.fields next length ++ [(1, packed kIdentificationType self.type),
    (1, reserved1 >>> 16 &&& 0xffff), (2, reserved1 &&& 0xffff)]) ++ value

section

variable (getaddrinfo : List UInt8 → List SockAddr)

def kEncIdentificationPayloads_IPV6_ADDR (self : Def.Identification) (next : Nat) :
    List UInt8 :=
  let reserved1 := self.reserved1.getD 0
  let value := match self.value with
    | some value => (ipaddr_tobin getaddrinfo value).getD value
    | none => (ipaddr_tobin getaddrinfo anyAddr6).octets
  pack (self.fields next (self.length.getD 24) ++ [(1, 5), (1, reserved1 >>> 16 &&& 0xffff),
    (2, reserved1 &&& 0xffff)]) ++ value

def kEncIdentificationPayloads_IPV4_ADDR (self : Def.Identification) (next : Nat) :
    List UInt8 :=
  let reserved1 := self.reserved1.getD 0
  let value := ipaddr_tobin getaddrinfo (self.value.getD anyAddr)
  pack (self.fields next (self.length.getD 12) ++ [(1, 1), (1, reserved1 >>> 16 &&& 0xffff),
    (2, reserved1 &&& 0xffff)]) ++ value.octets

def kEncIdentificationPayloads (self : Def.Identification) (next : Nat) : List UInt8 :=
  let type := packed kIdentificationType self.type
  if type = 1 then kEncIdentificationPayloads_IPV4_ADDR getaddrinfo self next
  else if type = 5 then kEncIdentificationPayloads_IPV6_ADDR getaddrinfo self next
  else kEncIdentificationPayloads_ANY self next

end

def kEncCertificationPayload (self : Def.Certification) (next : Nat) : List UInt8 :=
  let cert_data := unhex (self.cert_data.getD [])
  let length := self.length.getD 5 + cert_data.length
  pack (self.fields next length ++ [(1, packed kCertificateEncoding self.cert_encoding)]) ++
    cert_data

def kEncCertificationRequestPayload (self : Def.CertificationRequest) (next : Nat) :
    List UInt8 :=
  let cert_authority := self.cert_authority.getD []
  let length := self.length.getD 5 + cert_authority.length
  pack (self.fields next length ++ [(1, packed kCertificateEncoding self.cert_encoding)]) ++
    cert_authority

def kEncAuthenticationPayload (self : Def.Authentication) (next : Nat) : List UInt8 :=
  let data := self.data.getD []
  let length := self.length.getD 8 + data.length
  let reserved1 := self.reserved1.getD 0
  pack (self.fields next length ++ [(1, packed kAuthenticationMethod self.method),
    (1, reserved1 >>> 16 &&& 0xffff), (2, reserved1 &&& 0xffff)]) ++ data

def kEncNoncePayload (self : Def.Nonce) (next : Nat) : List UInt8 :=
  let nonce := self.nonce.getD []
  let length := self.length.getD 4 + nonce.length / 2
  pack (self.fields next length) ++ unhex nonce

def kEncNotifyPayload (self : Def.Notify) (next : Nat) : List UInt8 :=
  let spi := unhex (self.spi.getD [])
  let data := unhex (self.data.getD [])
  let length := self.length.getD 8 + spi.length + data.length
  let id := (self.id.map Constant.packed).getD 0
  pack (self.fields next length ++ [(1, id), (1, self.spiSize.getD spi.length),
    (2, packed kNotifyType self.type)]) ++ spi ++ data

/-- The octets of the SPIs, where no octets of an array are no SPIs. -/
def Def.SPIs.pack : Def.SPIs → Str
  | .array spis =>
      let spis := spis.flatMap unhex
      if spis.length = 0 then none else some spis
  | .digits spis => some (unhex spis)

/-- How many SPIs there are, which are taken to have eight digits in a string. -/
def Def.SPIs.count : Def.SPIs → Nat
  | .array spis => spis.length
  | .digits spis => spis.length / 8

def kEncDeletePayload (self : Def.Delete) (next : Nat) : List UInt8 :=
  let spis : Str := self.spis.bind Def.SPIs.pack
  let spiSize := self.spiSize.getD (if spis.isSome then 4 else 0)
  let id := match self.id with
    | some id => kProtocolID id
    | none => if 0 < spiSize then kProtocolID (.name .ESP) else kProtocolID (.name .IKE)
  let spiCount := self.spiCount.getD
    (if 0 < spiSize then (self.spis.map Def.SPIs.count).getD 0 else 0)
  let length := self.length.getD 8 + spis.len
  Perl.pack (self.fields next length ++ [(1, id.packed), (1, spiSize), (2, spiCount)]) ++
    spis.octets

def kEncTrafficSelector_ANY (self : Def.TSSelector) (type : Nat) : List UInt8 :=
  let saddr : Str := self.saddr.map fun saddr => unhex (saddr.map hexDigit)
  let eaddr : Str := self.eaddr.map fun eaddr => unhex (eaddr.map hexDigit)
  let selectorLen := self.selectorLen.getD 8
  let selectorLen := if saddr.truth then selectorLen + saddr.len else selectorLen
  let selectorLen := if eaddr.truth then selectorLen + eaddr.len else selectorLen
  pack [(1, type), (1, self.protocol.getD 0), (2, selectorLen), (2, self.sport.getD 0),
      (2, self.eport.getD 0)] ++
    (if saddr.truth then saddr.octets else []) ++ if eaddr.truth then eaddr.octets else []

section

variable (getaddrinfo : List UInt8 → List SockAddr)

def kEncTrafficSelector_TS_IPV4_ADDR_RANGE (self : Def.TSSelector) : List UInt8 :=
  let saddr := ipaddr_tobin getaddrinfo (self.saddr.getD anyAddr)
  let eaddr := ipaddr_tobin getaddrinfo (self.eaddr.getD anyAddr)
  pack [(1, 7), (1, self.protocol.getD 0), (2, self.selectorLen.getD 16),
    (2, self.sport.getD 0), (2, self.eport.getD 0)] ++ saddr.octets ++ eaddr.octets

def kEncTrafficSelector_TS_IPV6_ADDR_RANGE (self : Def.TSSelector) : List UInt8 :=
  let saddr := ipaddr_tobin getaddrinfo (self.saddr.getD anyAddr6)
  let eaddr := ipaddr_tobin getaddrinfo (self.eaddr.getD anyAddr6)
  pack [(1, 8), (1, self.protocol.getD 0), (2, self.selectorLen.getD 40),
    (2, self.sport.getD 0), (2, self.eport.getD 0)] ++ saddr.octets ++ eaddr.octets

def kEncTrafficSelector (self : Def.TSSelector) : List UInt8 :=
  let type := packed kTrafficSelectorType self.type
  if type = 7 then kEncTrafficSelector_TS_IPV4_ADDR_RANGE getaddrinfo self
  else if type = 8 then kEncTrafficSelector_TS_IPV6_ADDR_RANGE getaddrinfo self
  else kEncTrafficSelector_ANY self type

def kEncTrafficSelectorPayload (self : Def.TrafficSelector) (next : Nat) : List UInt8 :=
  let selectors := self.selectors.getD []
  let selector : Str := some (selectors.flatMap (kEncTrafficSelector getaddrinfo))
  let length := self.length.getD (8 + selector.len)
  let reserved1 := self.reserved1.getD 0
  pack (self.fields next length ++ [(1, self.count.getD selectors.length),
      (1, reserved1 >>> 16 &&& 0xffff), (2, reserved1 &&& 0xffff)]) ++
    if selector.truth then selector.octets else []

end

def kEncConfigurationAttribute (self : Def.ConfigurationAttribute) : List UInt8 :=
  let type := packed kConfAttributeType self.attr_type
  -- A value that is not set is `'0'`.
  let value := self.value.getD [0x30]
  pack [(2, self.reserved.getD 0 <<< 15 ||| type), (2, value.length)] ++ value

def kEncConfigurationPayload (self : Def.Configuration) (next : Nat) : Str :=
  self.attributes.map fun attributes =>
    let octets := attributes.flatMap kEncConfigurationAttribute
    let length := self.length.getD (8 + octets.length)
    let reserved1 := self.reserved1.getD 0
    pack (self.fields next length ++ [(1, packed kConfigurationType self.cfg_type),
      (1, reserved1 >>> 16 &&& 0xffff), (2, reserved1 &&& 0xffff)]) ++ octets

def kEncUndefinedPayload (self : Def.Undefined) (next : Nat) : List UInt8 :=
  let data := self.data.getD []
  let length := self.length.getD (4 + data.length)
  pack (self.fields next length) ++ unhex data

/-- The keying material, as far as the generator uses it: the algorithms and what they do
    under the keys of the initiator or of the responder. A text is encrypted with its
    initialization vector. -/
structure EncryptionMaterial where
  encr_alg : TransformID
  integ_alg : TransformID
  encr : Bool → List UInt8 → List UInt8 → List UInt8
  integ : Bool → List UInt8 → List UInt8
  -- The checksums are cut to the size that is known for the algorithm.
  length_integ : ∀ is_initiator message,
    (integ is_initiator message).length = kBlockSize integ_alg

namespace EncryptionMaterial

def bencr (material : EncryptionMaterial) : Nat := kBlockSize material.encr_alg

def binteg (material : EncryptionMaterial) : Nat := kBlockSize material.integ_alg

end EncryptionMaterial

/-- `makerandom_octet`. -/
abbrev Random := (length : Nat) → Vector UInt8 length

def kEncEncryptedPayload (self : Def.Encrypted) (next : Nat) (material : EncryptionMaterial)
    (is_initiator : Bool) (random : Random) (plaintext : Str) : List UInt8 :=
  let iv := match self.iv with
    | some iv => unhex iv
    | none => (random material.bencr).toList
  let ciphertext := material.encr is_initiator plaintext.octets iv
  let length := self.length.getD (4 + material.bencr + ciphertext.length + material.binteg)
  let checksum := match self.checksum with
    | some checksum => unhex checksum
    | none => List.replicate material.binteg 0
  pack (self.fields next length) ++ iv ++ ciphertext ++ checksum

def kGenEncryptedPayloadChecksum (material : EncryptionMaterial) (isInit : Bool)
    (message : List UInt8) : List UInt8 :=
  let message := (substr (some message) 0 (some (message.length - material.binteg : Int))).octets
  message ++ material.integ isInit message

/-- The table of the encoding functions. What has none gives none. -/
def encodingFunctions (getaddrinfo : List UInt8 → List SockAddr) (next : Nat) :
    Def.Payload → Option Str
  | .SA self => some (some (kEncSecurityAssociationPayload self next))
  | .KE self => some (some (kEncKeyExchangePayload self next))
  | .IDi self => some (some (kEncIdentificationPayloads getaddrinfo self next))
  | .IDr self => some (some (kEncIdentificationPayloads getaddrinfo self next))
  | .CERT self => some (some (kEncCertificationPayload self next))
  | .CERTREQ self => some (some (kEncCertificationRequestPayload self next))
  | .AUTH self => some (some (kEncAuthenticationPayload self next))
  | .NiNr self => some (some (kEncNoncePayload self next))
  | .N self => some (some (kEncNotifyPayload self next))
  | .D self => some (some (kEncDeletePayload self next))
  | .TSi self => some (some (kEncTrafficSelectorPayload getaddrinfo self next))
  | .TSr self => some (some (kEncTrafficSelectorPayload getaddrinfo self next))
  | .CP self => some (kEncConfigurationPayload self next)
  | .UNDEFINED self => some (some (kEncUndefinedPayload self next))
  | .E _ | .V | .EAP => none

/-! ## Generating a message -/

/-- What the loop over the payloads collects: the octets up to the encrypted payload, that
    payload with the type of the next one, and the octets to encrypt. -/
structure Collected where
  next : Str := none
  enc : Option (Def.Encrypted × Nat) := none
  plaintext : Str := none

def collectPayloads (getaddrinfo : List UInt8 → List SockAddr) :
    Collected → List Def.Payload → Option Collected
  | collected, [] => some collected
  | collected, .E self :: payloads =>
      if collected.enc.isSome then none
      else collectPayloads getaddrinfo { collected with enc := some (self, typeOf payloads) }
        payloads
  | collected, payload :: payloads =>
      match encodingFunctions getaddrinfo (typeOf payloads) payload with
      | none => none
      | some octets =>
          if collected.enc.isSome then
            collectPayloads getaddrinfo
              { collected with plaintext := collected.plaintext.append octets } payloads
          else
            collectPayloads getaddrinfo
              { collected with next := collected.next.append octets } payloads

/-- The octets of the header. `nexttype` and `length` are what it has without such keys. -/
def Def.Header.octets (self : Def.Header) (exchType nexttype length : Nat) : List UInt8 :=
  packH 16 (self.initSPI.getD []) ++ packH 16 (self.respSPI.getD []) ++
    pack [(1, (self.nexttype.map fun type => (kPayloadType type).packed).getD nexttype),
      (1, self.major.getD 2 <<< 4 ||| self.minor.getD 0), (1, exchType),
      (1, self.reserved1.getD 0 <<< 6 ||| self.response.getD 0 <<< 5 |||
        self.higher.getD 0 <<< 4 ||| self.initiator.getD 0 <<< 3 ||| self.reserved2.getD 0),
      (4, self.messID.getD 0), (4, self.length.getD length)]

/-- The octet for the type of the exchange. `'INFORMATIONAL'` is no name that `pack` takes
    for 0: it starts like the number `inf`, which does not fit. -/
def packedExchange : Option (Constant ExchangeType) → Option Nat
  | none => some 0
  | some type =>
      match kExchangeType type with
      | .num n => some n
      | .name .INFORMATIONAL => none
      | .name _ => some 0

def kGenIKEv2 (getaddrinfo : List UInt8 → List SockAddr) (random : Random)
    (message : Def.Message) (material : Option EncryptionMaterial) (is_initiator : Bool) :
    Option (List UInt8) := do
  let collected ← collectPayloads getaddrinfo {} message.payloads
  let exchType ← packedExchange message.header.exchType
  match collected.enc, material with
  | none, _ =>
      let nexttype := if collected.next.isSome then typeOf message.payloads else 0
      let length := 28 + collected.next.len
      some (message.header.octets exchType nexttype length ++ collected.next.octets)
  | some _, none => none
  | some (enc, nexttype), some material =>
      let next := collected.next.octets ++
        kEncEncryptedPayload enc nexttype material is_initiator random collected.plaintext
      let raw := message.header.octets exchType (typeOf message.payloads) (28 + next.length) ++
        next
      match enc.checksum with
      | some checksum =>
          let raw := substr (some raw) 0 (some (raw.length - material.binteg : Int))
          some (raw.octets ++ unhex checksum)
      | none => some (kGenEncryptedPayloadChecksum material is_initiator raw)

end Tahi.Ike

import Tahi.Kink.ISAKMP

/-! # Encoding the quick mode payloads

The payloads are defined by hashes. They are structures here, and a key is `none` when it is not
set. The encoders end the process with a message when one of the keys they need is not.
-/

namespace Tahi.Kink

open Perl

/-- The length of a payload, as far as it is not left to the encoder. -/
inductive PayloadLength where
  | auto
  | number (n : Nat)
deriving DecidableEq, Repr

/-- The length to encode, where `auto` is the right one. -/
def lengthOr (auto : Nat) : Option PayloadLength → Nat
  | none => 0
  | some .auto => auto
  | some (.number n) => n

/-- The value of a key, or the message that it is not set. -/
def defined {α : Type} (sub key : String) : Option α → Except String α
  | none => .error (sub ++ ": invalid " ++ key)
  | some value => .ok value

@[simp] theorem defined_some {α : Type} (sub key : String) (value : α) :
    defined sub key (some value) = .ok value := rfl

namespace Def

/-- The key `AF` is 0 for a long attribute, and 1 if it is not set. -/
inductive SAAttribute where
  | short (af type value : Option Nat)
  | long (type length : Option Nat) (value : Option (List Digit))
deriving DecidableEq, Repr

/-- The keys all payloads have. -/
structure Generic where
  nextPayload : Option Nat
  reserved : Option Nat
  payloadLength : Option PayloadLength
deriving DecidableEq, Repr

structure Transform extends Generic where
  number : Option Nat
  id : Option Nat
  reserved2 : Option Nat
  attributes : Option (List SAAttribute)
deriving DecidableEq, Repr

structure Proposal extends Generic where
  number : Option Nat
  protocolId : Option Nat
  spiSize : Option Nat
  numOfTransforms : Option Nat
  spi : Option (List Digit)
  transforms : Option (List Transform)
deriving DecidableEq, Repr

structure SA extends Generic where
  doi : Option Nat
  situation : Option Nat
  proposals : Option (List (List Proposal))
deriving DecidableEq, Repr

structure KE extends Generic where
  data : Option (List Digit)
deriving DecidableEq, Repr

/-- The addresses are the octets that `ipaddr_tobin` makes of them. -/
structure ID extends Generic where
  id_type : Option Nat
  protocolId : Option Nat
  port : Option Nat
  data : Option (List UInt8)
  data2 : Option (List UInt8)
deriving DecidableEq, Repr

structure Nonce extends Generic where
  data : Option (List Digit)
deriving DecidableEq, Repr

structure Notification extends Generic where
  doi : Option Nat
  protocolId : Option Nat
  spiSize : Option Nat
  type : Option Nat
  spi : Option Nat
  data : Option (List Digit)
deriving DecidableEq, Repr

structure Delete extends Generic where
  doi : Option Nat
  protocolId : Option Nat
  spiSize : Option Nat
  numOfSpis : Option Nat
  spis : Option (List (List Digit))
deriving DecidableEq, Repr

inductive QuickModePayload where
  | SA (packet : SA)
  | KE (packet : KE)
  | ID (packet : ID)
  | Nonce (packet : Nonce)
  | Notification (packet : Notification)
  | Delete (packet : Delete)
  | Unrecognized (packet : Generic)
  /-- A name that no encoder has. -/
  | other (name : String)
deriving DecidableEq, Repr

end Def

/-- A list is encoded piece by piece. -/
theorem mapM_ok {α β γ : Type} {define : α → β} {encode : β → Except String γ} {octets : α → γ}
    (each : ∀ a, encode (define a) = .ok (octets a)) (l : List α) :
    (l.map define).mapM encode = .ok (l.map octets) := by
  induction l with
  | nil => rfl
  | cons a l ih => simp [List.mapM_cons, each, ih, bind, Except.bind, pure, Except.pure]

def encode_SA_Attribute : Def.SAAttribute → Except String (List UInt8)
  | .short af type value => do
      let af := af.getD 1
      let type ← defined "encode_SA_Attribute" "Attribute Type" type
      let value ← defined "encode_SA_Attribute" "Attribute Value" value
      return pack [(2, af <<< 15 ||| type), (2, value)]
  | .long type length value => do
      let type ← defined "encode_SA_Attribute" "Attribute Type" type
      let value ← defined "encode_SA_Attribute" "Attribute Value" value
      let length ← defined "encode_SA_Attribute" "Attribute Length" length
      return pack [(2, type), (2, length)] ++ unhex value

def encode_Transform_Payload (packet : Def.Transform) : Except String (List UInt8) := do
  let next_payload ← defined "encode_T_Payload" "NextPayload" packet.nextPayload
  let reserved ← defined "encode_T_Payload" "RESERVED" packet.reserved
  let transform_number ← defined "encode_T_Payload" "Transform #" packet.number
  let transform_id ← defined "encode_T_Payload" "Transform-Id" packet.id
  let reserved2 ← defined "encode_T_Payload" "RESERVED2" packet.reserved2
  let attributes ← (packet.attributes.getD []).mapM encode_SA_Attribute
  let length := lengthOr (8 + attributes.flatten.length) packet.payloadLength
  return pack [(1, next_payload), (1, reserved), (2, length), (1, transform_number),
    (1, transform_id), (2, reserved2)] ++ attributes.flatten

def encode_Proposal_Payload (packet : Def.Proposal) : Except String (List UInt8) := do
  let next_payload ← defined "encode_Proposal_Payload" "NextPayload" packet.nextPayload
  let reserved ← defined "encode_Proposal_Payload" "RESERVED" packet.reserved
  let proposal_number ← defined "encode_Proposal_Payload" "Proposal #" packet.number
  let protocol_id ← defined "encode_Proposal_Payload" "Protocol-Id" packet.protocolId
  let spi_size ← defined "encode_Proposal_Payload" "SPI Size" packet.spiSize
  let num_of_transforms ← defined "encode_Proposal_Payload" "# of Transforms"
    packet.numOfTransforms
  let spi ← defined "encode_Proposal_Payload" "SPI" packet.spi
  let transforms ← (packet.transforms.getD []).mapM encode_Transform_Payload
  let length := lengthOr (12 + transforms.flatten.length) packet.payloadLength
  return pack [(1, next_payload), (1, reserved), (2, length), (1, proposal_number),
    (1, protocol_id), (1, spi_size), (1, num_of_transforms)] ++ unhex spi ++ transforms.flatten

def encode_SA_Payload (packet : Def.SA) : Except String (List UInt8) := do
  let next_payload ← defined "encode_SA_Payload" "NextPayload" packet.nextPayload
  let reserved ← defined "encode_SA_Payload" "RESERVED" packet.reserved
  let doi ← defined "encode_SA_Payload" "DOI" packet.doi
  let situation ← defined "encode_SA_Payload" "Situation" packet.situation
  let proposals ← (packet.proposals.getD []).flatten.mapM encode_Proposal_Payload
  let length ← defined "encode_SA_Payload" "Payload Length" packet.payloadLength
  let length := lengthOr (12 + proposals.flatten.length) (some length)
  return pack [(1, next_payload), (1, reserved), (2, length), (4, doi), (4, situation)] ++
    proposals.flatten

def encode_KE_Payload (packet : Def.KE) : Except String (List UInt8) := do
  let next_payload ← defined "encode_KE_Payload" "NextPayload" packet.nextPayload
  let reserved ← defined "encode_KE_Payload" "RESERVED" packet.reserved
  let ke_data ← defined "encode_KE_Payload" "Key Exchange Data" packet.data
  let ke_data := unhex ke_data
  let length := lengthOr (4 + ke_data.length) packet.payloadLength
  return pack [(1, next_payload), (1, reserved), (2, length)] ++ ke_data

def encode_ID_Payload (packet : Def.ID) : Except String (List UInt8) := do
  let next_payload ← defined "encode_ID_Payload" "NextPayload" packet.nextPayload
  let reserved ← defined "encode_ID_Payload" "RESERVED" packet.reserved
  let id_type ← defined "encode_ID_Payload" "ID Type" packet.id_type
  let protocol_id ← defined "encode_ID_Payload" "Protocol ID" packet.protocolId
  let port ← defined "encode_ID_Payload" "Port" packet.port
  let id_data ← defined "encode_ID_Payload" "Identification Data" packet.data
  let id_data ←
    if id_type = 5 then pure id_data
    else if id_type = 6 then
      match packet.data2 with
      | none => .error "encode_ID_Payload: need second value for ID_IPV6_ADDR_SUBNET"
      | some data2 => pure (id_data ++ data2)
    else .error "encode_ID_Payload: invalid Identification Data"
  let length := lengthOr (8 + id_data.length) packet.payloadLength
  return pack [(1, next_payload), (1, reserved), (2, length), (1, id_type), (1, protocol_id),
    (2, port)] ++ id_data

def encode_NONCE_Payload (packet : Def.Nonce) : Except String (List UInt8) := do
  let next_payload ← defined "encode_NONCE_Payload" "NextPayload" packet.nextPayload
  let reserved ← defined "encode_NONCE_Payload" "RESERVED" packet.reserved
  let nonce ← defined "encode_NONCE_Payload" "Nonce Data" packet.data
  let nonce := unhex nonce
  let length := lengthOr (4 + nonce.length) packet.payloadLength
  return pack [(1, next_payload), (1, reserved), (2, length)] ++ nonce

def encode_Notification_Payload (packet : Def.Notification) : Except String (List UInt8) := do
  let next_payload ← defined "encode_Notification_Payload" "NextPayload" packet.nextPayload
  let reserved ← defined "encode_Notification_Payload" "RESERVED" packet.reserved
  let doi ← defined "encode_Notification_Payload" "DOI" packet.doi
  let protocol_id ← defined "encode_Notification_Payload" "Protocol-ID" packet.protocolId
  let spi_size ← defined "encode_Notification_Payload" "SPI Size" packet.spiSize
  let type ← defined "encode_Notification_Payload" "Notify Message Type" packet.type
  let spi ← defined "encode_Notification_Payload" "SPI" packet.spi
  let data ← defined "encode_Notification_Payload" "Notification Data" packet.data
  let data := unhex data
  let length := lengthOr (16 + data.length) packet.payloadLength
  return pack [(1, next_payload), (1, reserved), (2, length), (4, doi), (1, protocol_id),
    (1, spi_size), (2, type), (4, spi)] ++ data

def encode_Delete_Payload (packet : Def.Delete) : Except String (List UInt8) := do
  let next_payload ← defined "encode_Delete_Payload" "NextPayload" packet.nextPayload
  let reserved ← defined "encode_Delete_Payload" "RESERVED" packet.reserved
  let doi ← defined "encode_Delete_Payload" "DOI" packet.doi
  let protocol_id ← defined "encode_Delete_Payload" "Protocol-Id" packet.protocolId
  let spi_size ← defined "encode_Delete_Payload" "SPI Size" packet.spiSize
  let num_of_spis ← defined "encode_Delete_Payload" "# of SPIs" packet.numOfSpis
  let spis ← defined "encode_Delete_Payload" "SPIs" packet.spis
  -- Each turn of the loop assigns the string anew.
  let spis := spis.foldl (fun _ spi => unhex spi) []
  let length := lengthOr (12 + spis.length) packet.payloadLength
  return pack [(1, next_payload), (1, reserved), (2, length), (4, doi), (1, protocol_id),
    (1, spi_size), (2, num_of_spis)] ++ spis

def encode_Unrecognized_Payload (packet : Def.Generic) : Except String (List UInt8) := do
  let next_payload ← defined "encode_Unrecognized_Payload" "NextPayload" packet.nextPayload
  let reserved ← defined "encode_Delete_Payload" "RESERVED" packet.reserved
  let length := lengthOr 4 packet.payloadLength
  return pack [(1, next_payload), (1, reserved), (2, length)]

def encodeQuickMode : Def.QuickModePayload → Except String (List UInt8)
  | .SA packet => encode_SA_Payload packet
  | .KE packet => encode_KE_Payload packet
  | .ID packet => encode_ID_Payload packet
  | .Nonce packet => encode_NONCE_Payload packet
  | .Notification packet => encode_Notification_Payload packet
  | .Delete packet => encode_Delete_Payload packet
  | .Unrecognized packet => encode_Unrecognized_Payload packet
  | .other _ => .error "encode_ISAKMP_Payload: invalid payload type"

def encode_ISAKMP_Payload (packet : List Def.QuickModePayload) : Except String (List UInt8) := do
  let result ← packet.mapM encodeQuickMode
  return result.flatten

end Tahi.Kink

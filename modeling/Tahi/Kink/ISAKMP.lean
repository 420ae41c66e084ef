import Tahi.Kink.KUtil

/-! # Decoding the quick mode payloads

The loops over the payloads, the proposals, the transforms and the attributes have a bound for
the number of their turns here, and give nothing when it does not get them to their end.
-/

namespace Tahi.Kink

open Perl FuelLoop

/-- `sprintf("%08x")` of 32 bits. -/
def sprintf08x (n : Option Nat) : List Digit := hex (packInt 4 (n.getD 0))

inductive AttributeValue where
  | short (value : Option Nat)
  | long (length : Option Nat) (value : Str)
deriving DecidableEq, Repr

structure SAAttribute where
  self : Str
  remain : Str
  af : Nat
  type : Nat
  value : AttributeValue
deriving DecidableEq, Repr

def decode_SA_Attribute (data : Str) : SAAttribute :=
  let attr_type := (unpackInt 2 data).getD 0
  let af := (attr_type &&& 0x8000) >>> 15
  let attr_type := attr_type &&& 0x7fff
  if af ≠ 0 then
    let attr_value := unpackInt 2 (substr data 2 (some 2))
    ⟨substr data 0 (some 4), substr data 4 none, af, attr_type, .short attr_value⟩
  else
    let attr_length := unpackInt 2 (substr data 2 (some 2))
    let length := attr_length.getD 0
    -- The value begins with the length itself.
    let attr_value := substr data 2 (some length)
    ⟨substr data 0 (some (4 + length)), substr data (4 + length) none, af, attr_type,
      .long attr_length attr_value⟩

def attributesTurn : Nat → Str × List SAAttribute →
    Option (Turn (Str × List SAAttribute) (List SAAttribute)) :=
  restTurn (fun _ data => some (decode_SA_Attribute data)) SAAttribute.remain
    fun result attr => result ++ [attr]

def decode_SA_Attributes (fuel : Nat) (data : Str) : Option (List SAAttribute) :=
  run attributesTurn fuel (data, [])

structure Transform where
  common : Common
  number : Option Nat
  id : Option Nat
  reserved2 : Option Nat
  attributes : List SAAttribute
deriving DecidableEq, Repr

def transformFields (data : Str) : List Item :=
  unpack [.int 1, .int 1, .int 2, .int 1, .int 1, .int 2] data.octets

/-- The octets of a transform behind its fixed part. -/
def transformRest (data : Str) : Str :=
  let c := common data (transformFields data)
  substr c.self 8 (some (c.length - 8))

def decode_Transform_Payload (fuel : Nat) (data : Str) : Option Transform :=
  let v := transformFields data
  (decode_SA_Attributes fuel (transformRest data)).map fun attributes =>
    { common := common data v
      number := Item.num? v[3]?
      id := Item.num? v[4]?
      reserved2 := Item.num? v[5]?
      attributes }

def transformsTurn : Nat → Str × List Transform →
    Option (Turn (Str × List Transform) (List Transform)) :=
  restTurn decode_Transform_Payload (fun transform => transform.common.remain)
    fun result transform => result ++ [transform]

def decode_Transforms (fuel : Nat) (data : Str) : Option (List Transform) :=
  run transformsTurn fuel (data, [])

structure Proposal where
  common : Common
  number : Option Nat
  protocolId : Option Nat
  spiSize : Option Nat
  numOfTransforms : Option Nat
  spi : List Digit
  transforms : List Transform
deriving DecidableEq, Repr

def proposalFields (data : Str) : List Item :=
  unpack [.int 1, .int 1, .int 2, .int 1, .int 1, .int 1, .int 1, .int 4] data.octets

/-- The octets of a proposal behind its fixed part and a SPI of four octets. -/
def proposalRest (data : Str) : Str :=
  let c := common data (proposalFields data)
  substr c.self 12 (some (c.length - 12))

def decode_Proposal_Payload (fuel : Nat) (data : Str) : Option Proposal :=
  let v := proposalFields data
  (decode_Transforms fuel (proposalRest data)).map fun transforms =>
    { common := common data v
      number := Item.num? v[3]?
      protocolId := Item.num? v[4]?
      spiSize := Item.num? v[5]?
      numOfTransforms := Item.num? v[6]?
      spi := sprintf08x (Item.num? v[7]?)
      transforms }

/-- `push(@{$result->[n]}, ..)`, which makes the entries that are not there yet. -/
def pushAt {α : Type} (result : List (List α)) (n : Nat) (x : α) : List (List α) :=
  if n < result.length then result.modify n (· ++ [x])
  else result ++ List.replicate (n - result.length) [] ++ [[x]]

/-- Where a proposal goes when `prev` is the one before it. -/
def sortProposal (prev : Option Proposal) (result : List (List Proposal)) (proposal : Proposal) :
    List (List Proposal) :=
  match prev with
  | none => result ++ [[proposal]]
  | some prev =>
      if prev.number.getD 0 ≠ proposal.number.getD 0 then result ++ [[proposal]]
      else pushAt result (proposal.number.getD 0) proposal

/-- No turn of the loop assigns `$prev`. -/
def proposalsTurn : Nat → Str × List (List Proposal) →
    Option (Turn (Str × List (List Proposal)) (List (List Proposal))) :=
  restTurn decode_Proposal_Payload (fun proposal => proposal.common.remain) (sortProposal none)

def decode_Proposals (fuel : Nat) (data : Str) : Option (List (List Proposal)) :=
  run proposalsTurn fuel (data, [])

/-- The keys that only the payloads of one type have. -/
inductive Body where
  | SA (doi situation : Option Nat) (proposals : List (List Proposal))
  | KE (data : List Digit)
  | ID (id_type protocol_id port : Option Nat) (data : List Digit)
  | Nonce (data : List Digit)
  | Notification (doi protocol_id spi_size type : Option Nat) (spi data : List Digit)
  | Delete (doi protocol_id spi_size num_of_spis : Option Nat) (spis : List (List Digit))
  | Unrecognized
deriving DecidableEq, Repr

structure QuickModePayload where
  common : Common
  body : Body
deriving DecidableEq, Repr

def saFields (data : Str) : List Item :=
  unpack [.int 1, .int 1, .int 2, .int 4, .int 4] data.octets

/-- The octets of a security association payload behind its fixed part. -/
def saRest (data : Str) : Str :=
  let c := common data (saFields data)
  substr c.self 12 (some (c.length - 12))

def decode_SA_Payload (fuel : Nat) (data : Str) : Option QuickModePayload :=
  let v := saFields data
  (decode_Proposals fuel (saRest data)).map fun proposals =>
    ⟨common data v, .SA (Item.num? v[3]?) (Item.num? v[4]?) proposals⟩

def decode_KE_Payload (data : Str) : QuickModePayload :=
  let v := genericFields data
  let c := common data v
  ⟨c, .KE (hex (substr c.self 4 none).octets)⟩

def identificationFields (data : Str) : List Item :=
  unpack [.int 1, .int 1, .int 2, .int 1, .int 1, .int 2] data.octets

def decode_Identification_Payload (data : Str) : QuickModePayload :=
  let v := identificationFields data
  let c := common data v
  ⟨c, .ID (Item.num? v[3]?) (Item.num? v[4]?) (Item.num? v[5]?)
    (hex (substr c.self 8 none).octets)⟩

def decode_Nonce_Payload (data : Str) : QuickModePayload :=
  let v := genericFields data
  let c := common data v
  ⟨c, .Nonce (hex (substr c.self 4 none).octets)⟩

def notificationFields (data : Str) : List Item :=
  unpack [.int 1, .int 1, .int 2, .int 4, .int 1, .int 1, .int 2, .int 4] data.octets

def decode_Notification_Payload (data : Str) : QuickModePayload :=
  let v := notificationFields data
  let c := common data v
  let notification_data := substr c.self 16 (some (c.length - 16))
  ⟨c, .Notification (Item.num? v[3]?) (Item.num? v[4]?) (Item.num? v[5]?) (Item.num? v[6]?)
    (sprintf08x (Item.num? v[7]?)) (hex notification_data.octets)⟩

/-- The loop of `decode_Delete_Payload`. Each part is as long as the offset behind it, and only
    its first four octets count. -/
def decodeSpis (spis_data : Str) : List (List Digit) :=
  (List.range ((spis_data.len + 3) / 4)).map fun i =>
    let offset : Nat := 4 * i
    sprintf08x (unpackInt 4 (substr spis_data offset (some (offset + 4 : Nat))))

def deleteFields (data : Str) : List Item :=
  unpack [.int 1, .int 1, .int 2, .int 4, .int 1, .int 1, .int 2] data.octets

def decode_Delete_Payload (data : Str) : QuickModePayload :=
  let v := deleteFields data
  let c := common data v
  let spis_data := substr c.self 12 (some (c.length - 12))
  ⟨c, .Delete (Item.num? v[3]?) (Item.num? v[4]?) (Item.num? v[5]?) (Item.num? v[6]?)
    (decodeSpis spis_data)⟩

def decode_Unrecognized_Payload (data : Str) : QuickModePayload :=
  let v := genericFields data
  ⟨common data v, .Unrecognized⟩

def isakmp_decode_functions : Nat → Option (Nat → Str → Option QuickModePayload)
  | 1 => some decode_SA_Payload
  | 4 => some fun _ data => some (decode_KE_Payload data)
  | 5 => some fun _ data => some (decode_Identification_Payload data)
  | 10 => some fun _ data => some (decode_Nonce_Payload data)
  | 11 => some fun _ data => some (decode_Notification_Payload data)
  | 12 => some fun _ data => some (decode_Delete_Payload data)
  | 255 => some fun _ data => some (decode_Unrecognized_Payload data)
  | _ => none

def quickModeTurn : Nat → PayloadsState QuickModePayload →
    Option (Turn (PayloadsState QuickModePayload) (Except Exit (List QuickModePayload))) :=
  typeTurn "kDecKINK_ISAKMP_Payload" isakmp_decode_functions fun s payload =>
    .next ⟨payload.common.remain, payload.common.nextPayload, s.payloads ++ [payload]⟩

def decode_ISAKMP_Payload (fuel : Nat) (data : Str) (inner_next_payload : Option Nat) :
    Option (Except Exit (List QuickModePayload)) :=
  run quickModeTurn fuel ⟨data, inner_next_payload, []⟩

end Tahi.Kink

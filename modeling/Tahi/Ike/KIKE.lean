import Tahi.General.PointerChase
import Tahi.Ike.KDec

/-! # Parsing IKEv2 messages

The loops over payloads, proposals and transforms go on as long as the octet for the next
type says so, on what the length field leaves. Each has a bound for the number of its turns
here, and gives nothing when it does not get to its end.
-/

namespace Tahi.Ike

open Perl

/-- The loop over the attributes of a transform. -/
def parseAttributes (attributes : Str) : List SAAttribute :=
  if 0 < attributes.len then
    let attr := kDecSAAttribute attributes
    { attr with nextdata := none } :: parseAttributes attr.nextdata
  else []
termination_by attributes.len
decreasing_by
  unfold kDecSAAttribute
  simp only
  split
  · exact substr_from_lt _ 4 (by decide) (by assumption)
  · exact substr_from_lt _ _ (by omega) (by assumption)

def SATransform.parsed (transform : SATransform Str) : SATransform (List SAAttribute) :=
  { transform with nextdata := none, attributes := parseAttributes transform.attributes }

/-- The loop over the transforms of a proposal. -/
def parseTransforms : Nat → Str → Option (List (SATransform (List SAAttribute)))
  | 0, _ => none
  | fuel + 1, transforms =>
      let transform := kDecSATransform transforms
      if transform.nexttype.getD 0 ≠ 0 then
        (parseTransforms fuel transform.nextdata).map (transform.parsed :: ·)
      else some [transform.parsed]

def SAProposal.parsed (proposal : SAProposal Str)
    (transList : List (SATransform (List SAAttribute))) : Proposal :=
  { proposal with nextdata := none, transforms := transList }

/-- The loop over the proposals of a payload. -/
def parseProposals : Nat → Str → Option (List Proposal)
  | 0, _ => none
  | fuel + 1, proposals =>
      let proposal := kDecSAProposal proposals
      let transList :=
        if 0 < proposal.transformCount.getD 0 then parseTransforms fuel proposal.transforms
        else some []
      match transList with
      | none => none
      | some transList =>
          if proposal.nexttype.getD 0 ≠ 0 then
            (parseProposals fuel proposal.nextdata).map (proposal.parsed transList :: ·)
          else some [proposal.parsed transList]

def kParseSecurityAssociationPayload (fuel : Nat) (data : Str) : Option Payload :=
  let SA := kDecGenericPayloadHeader data
  if SA.paylen < 4 then some ⟨SA.common, .SA SA.paylen none⟩
  else
    (parseProposals fuel SA.payload).map fun propList =>
      ⟨SA.common, .SA SA.paylen (some propList)⟩

/-- `inner` parses what an encrypted payload decrypts to. -/
def kParseAnyPayload (material : Option Material) (isInit : Bool) (fuel : Nat)
    (inner : Str → Option (Constant PayloadType) → Option (List Payload)) (payload : Str)
    (type : Constant PayloadType) : Option Payload :=
  match type with
  | .name .SA => kParseSecurityAssociationPayload fuel payload
  | .name .KE => some (kDecKeyExchangePayload payload)
  | .name .IDi => some (kDecIdentificationIPayload payload)
  | .name .IDr => some (kDecIdentificationRPayload payload)
  | .name .CERT => some (kDecCertificatePayload payload)
  | .name .CERTREQ => some (kDecCertificateRequestPayload payload)
  | .name .AUTH => some (kDecAuthenticationPayload payload)
  | .name .NiNr => some (kDecNoncePayload payload)
  | .name .N => some (kDecNotifyPayload payload)
  | .name .D => some (kDecDeletePayload payload)
  | .name .V => some (kDecVendorIDPayload payload)
  | .name .TSi => some (kDecTrafficSelectorIPayload payload)
  | .name .TSr => some (kDecTrafficSelectorRPayload payload)
  | .name .CP => some (kDecConfigurationPayload payload)
  | .name .EAP => some (kDecEAPPayload payload)
  | .name .E =>
      match material with
      | none =>
          let info := kDecGenericPayloadHeader payload
          some ⟨{ info.common with nexttype := some (.num 0) },
            .rawE info.payload (info.paylen + 4) info.nexttype⟩
      | some material =>
          let (info, checksum, iv, plain) := kDecEncryptedPayload payload material isInit
          (inner plain info.nexttype).map fun innerPayloads =>
            ⟨{ info.common with nexttype := some (.num 0), payloads := plain },
              .E checksum iv (info.paylen + 4) info.nexttype innerPayloads⟩
  -- The other types have no decoding function.
  | _ =>
      let info := kDecGenericPayloadHeader payload
      some ⟨info.common, .other info.payload info.paylen⟩

/-- The loop over the payloads, which starts with `$offset` at 0. -/
def parsePayloads (material : Option Material) (isInit : Bool) :
    Nat → Str → Option (Constant PayloadType) → Int → Option (List Payload)
  | 0, _, nexttype, _ => if nexttype.any Constant.truth then none else some []
  | fuel + 1, payloads, nexttype, offset =>
      match nexttype with
      | none => some []
      | some nexttype =>
          if nexttype.truth then
            let inner data type := parsePayloads material isInit fuel data type 0
            match kParseAnyPayload material isInit fuel inner payloads nexttype with
            | none => none
            | some payload =>
                let length : Int := payloads.len - payload.common.payloads.len
                let saved := { payload with
                  common := { payload.common with payloads := none, offset, length } }
                (parsePayloads material isInit fuel payload.common.payloads
                  payload.common.nexttype (offset + length)).map (saved :: ·)
          else some []

def kParsePayloads (fuel : Nat) (payloads : Str) (nexttype : Option (Constant PayloadType))
    (isInit : Bool) (material : Option Material) : Option (List Payload) :=
  parsePayloads material isInit fuel payloads nexttype 0

/-- The header and the payloads, or none when `fuel` turns of each loop are not enough. -/
def kParseIKEMessage (fuel : Nat) (data : List UInt8) (material : Option Material) :
    Option (Header × List Payload) :=
  let header := kDecIKEHeader (some data)
  let payloads := kParsePayloads fuel header.payloads header.nexttype header.initiator material
  payloads.map fun payloads =>
    ({ header with length := header.datalen, datalen := none, payloads := none },
      payloads.map fun entry =>
        { entry with common := { entry.common with offset := entry.common.offset + 28 } })

end Tahi.Ike

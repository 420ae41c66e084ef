import Tahi.Kink.ISAKMPEncode

/-! # Definitions of quick mode payloads in range

The values of the keys, each of the size it has in a payload, with the lengths left to the
encoders, and the octets these make of them.
-/

namespace Tahi.Kink.Quick

open Perl

/-- The key `AF` of a short attribute is 1 or not set. -/
inductive Attribute where
  | short (af : Bool) (type : Fin (2 ^ 15)) (value : UInt16)
  | long (type : Fin (2 ^ 15)) (value : List UInt8)
deriving DecidableEq, Repr

structure Transform where
  nextPayload : UInt8
  reserved : UInt8
  number : UInt8
  id : UInt8
  reserved2 : UInt16
  attributes : List Attribute
deriving DecidableEq, Repr

/-- A proposal with a SPI of four octets. -/
structure Proposal where
  nextPayload : UInt8
  reserved : UInt8
  number : UInt8
  protocolId : UInt8
  numOfTransforms : UInt8
  spi : UInt32
  transforms : List Transform
deriving DecidableEq, Repr

/-- The proposals of one number, of which there is one at least. -/
structure Group where
  head : Proposal
  others : List Proposal
deriving DecidableEq, Repr

def Group.proposals (g : Group) : List Proposal := g.head :: g.others

inductive Body where
  | SA (doi situation : UInt32) (groups : List Group)
  | KE (data : List UInt8)
  | Nonce (data : List UInt8)
  | Notification (doi : UInt32) (protocolId spiSize : UInt8) (type : UInt16) (spi : UInt32)
      (data : List UInt8)
  | Delete (doi : UInt32) (protocolId : UInt8) (numOfSpis : UInt16) (spis : List UInt32)
deriving DecidableEq, Repr

structure Payload where
  nextPayload : UInt8
  reserved : UInt8
  body : Body
deriving DecidableEq, Repr

/-- The hash that defines a payload, part by part. -/
def Attribute.define : Attribute → Def.SAAttribute
  | .short af type value => .short (if af then some 1 else none) (some type) (some value.toNat)
  | .long type value => .long (some type) (some value.length) (some (hex value))

def generic (nextPayload reserved : UInt8) : Def.Generic :=
  ⟨some nextPayload.toNat, some reserved.toNat, some .auto⟩

def Transform.define (t : Transform) : Def.Transform where
  toGeneric := generic t.nextPayload t.reserved
  number := some t.number.toNat
  id := some t.id.toNat
  reserved2 := some t.reserved2.toNat
  attributes := some (t.attributes.map Attribute.define)

def Proposal.define (p : Proposal) : Def.Proposal where
  toGeneric := generic p.nextPayload p.reserved
  number := some p.number.toNat
  protocolId := some p.protocolId.toNat
  spiSize := some 4
  numOfTransforms := some p.numOfTransforms.toNat
  spi := some (sprintf08x (some p.spi.toNat))
  transforms := some (p.transforms.map Transform.define)

def Group.define (g : Group) : List Def.Proposal := g.proposals.map Proposal.define

def Payload.define (p : Payload) : Def.QuickModePayload :=
  let header := generic p.nextPayload p.reserved
  match p.body with
  | .SA doi situation groups =>
      .SA ⟨header, some doi.toNat, some situation.toNat, some (groups.map Group.define)⟩
  | .KE data => .KE ⟨header, some (hex data)⟩
  | .Nonce data => .Nonce ⟨header, some (hex data)⟩
  | .Notification doi protocolId spiSize type spi data =>
      .Notification ⟨header, some doi.toNat, some protocolId.toNat, some spiSize.toNat,
        some type.toNat, some spi.toNat, some (hex data)⟩
  | .Delete doi protocolId numOfSpis spis =>
      .Delete ⟨header, some doi.toNat, some protocolId.toNat, some 4, some numOfSpis.toNat,
        some (spis.map fun spi => sprintf08x (some spi.toNat))⟩

/-- The fields of a part as they are packed, with its own length among them. -/
def Attribute.octets : Attribute → List UInt8
  | .short _ type value => pack [(2, 0x8000 + type), (2, value.toNat)]
  | .long type value => pack [(2, type), (2, value.length)] ++ value

def Transform.rest (t : Transform) : List UInt8 := t.attributes.flatMap Attribute.octets

def Transform.fields (t : Transform) : List (Nat × Nat) :=
  [(1, t.nextPayload.toNat), (1, t.reserved.toNat), (2, 8 + t.rest.length), (1, t.number.toNat),
    (1, t.id.toNat), (2, t.reserved2.toNat)]

def Transform.octets (t : Transform) : List UInt8 := pack t.fields ++ t.rest

def Proposal.rest (p : Proposal) : List UInt8 := p.transforms.flatMap Transform.octets

def Proposal.fields (p : Proposal) : List (Nat × Nat) :=
  [(1, p.nextPayload.toNat), (1, p.reserved.toNat), (2, 12 + p.rest.length),
    (1, p.number.toNat), (1, p.protocolId.toNat), (1, 4), (1, p.numOfTransforms.toNat),
    (4, p.spi.toNat)]

def Proposal.octets (p : Proposal) : List UInt8 := pack p.fields ++ p.rest

def Body.type : Body → Nat
  | .SA .. => 1
  | .KE _ => 4
  | .Nonce _ => 10
  | .Notification .. => 11
  | .Delete .. => 12

/-- What is behind the fixed part of a payload. Only the last SPI gets there. -/
def Body.rest : Body → List UInt8
  | .SA _ _ groups => (groups.flatMap Group.proposals).flatMap Proposal.octets
  | .KE data => data
  | .Nonce data => data
  | .Notification _ _ _ _ _ data => data
  | .Delete _ _ _ spis => (spis.getLast?.map fun spi => packInt 4 spi.toNat).getD []

/-- The fixed part of a payload behind its length. -/
def Body.fields : Body → List (Nat × Nat)
  | .SA doi situation _ => [(4, doi.toNat), (4, situation.toNat)]
  | .KE _ => []
  | .Nonce _ => []
  | .Notification doi protocolId spiSize type spi _ =>
      [(4, doi.toNat), (1, protocolId.toNat), (1, spiSize.toNat), (2, type.toNat), (4, spi.toNat)]
  | .Delete doi protocolId numOfSpis _ =>
      [(4, doi.toNat), (1, protocolId.toNat), (1, 4), (2, numOfSpis.toNat)]

def Payload.fields (p : Payload) : List (Nat × Nat) :=
  [(1, p.nextPayload.toNat), (1, p.reserved.toNat),
    (2, 4 + (p.body.fields.map Prod.fst).sum + p.body.rest.length)] ++ p.body.fields

def Payload.octets (p : Payload) : List UInt8 := pack p.fields ++ p.body.rest

theorem encode_SA_Attribute_define (a : Attribute) :
    encode_SA_Attribute a.define = .ok a.octets := by
  cases a with
  | short af type value =>
      have bits : 0x8000 ||| type.val = 0x8000 + type.val :=
        (Nat.shiftLeft_add_eq_or_of_lt type.isLt 1).symm
      cases af <;>
        simp [encode_SA_Attribute, Attribute.define, Attribute.octets, bits, bind, Except.bind,
          pure, Except.pure]
  | long type value =>
      simp [encode_SA_Attribute, Attribute.define, Attribute.octets, bind, Except.bind, pure,
        Except.pure]

theorem encode_Transform_Payload_define (t : Transform) :
    encode_Transform_Payload t.define = .ok t.octets := by
  have attributes := mapM_ok encode_SA_Attribute_define t.attributes
  simp [encode_Transform_Payload, Transform.define, generic, attributes, bind, Except.bind, pure,
    Except.pure, lengthOr, Transform.octets, Transform.fields, Transform.rest, List.flatMap]

theorem encode_Proposal_Payload_define (p : Proposal) :
    encode_Proposal_Payload p.define = .ok p.octets := by
  have transforms := mapM_ok encode_Transform_Payload_define p.transforms
  simp [encode_Proposal_Payload, Proposal.define, generic, transforms, bind, Except.bind, pure,
    Except.pure, lengthOr, Proposal.octets, Proposal.fields, Proposal.rest, List.flatMap,
    sprintf08x]

/-- Each SPI takes the place of the one before. -/
theorem foldl_spis (spis : List UInt32) :
    (spis.map fun spi => sprintf08x (some spi.toNat)).foldl (fun _ spi => unhex spi) [] =
      (spis.getLast?.map fun spi => packInt 4 spi.toNat).getD [] := by
  induction spis using List.reverseRecOn with
  | nil => rfl
  | append_singleton spis spi _ => simp [sprintf08x]

theorem encodeQuickMode_define (p : Payload) : encodeQuickMode p.define = .ok p.octets := by
  obtain ⟨nextPayload, reserved, body⟩ := p
  cases body with
  | SA doi situation groups =>
      have flat : (groups.map Group.define).flatten =
          (groups.flatMap Group.proposals).map Proposal.define := by
        rw [List.map_flatMap, List.flatMap]
        rfl
      have proposals := mapM_ok encode_Proposal_Payload_define (groups.flatMap Group.proposals)
      rw [← flat] at proposals
      simp [encodeQuickMode, encode_SA_Payload, Payload.define, generic, proposals, bind,
        Except.bind, pure, Except.pure, lengthOr, Payload.octets, Payload.fields, Body.fields,
        Body.rest, List.flatMap]
  | KE data =>
      simp [encodeQuickMode, encode_KE_Payload, Payload.define, generic, bind, Except.bind, pure,
        Except.pure, lengthOr, Payload.octets, Payload.fields, Body.fields, Body.rest]
  | Nonce data =>
      simp [encodeQuickMode, encode_NONCE_Payload, Payload.define, generic, bind, Except.bind, pure,
        Except.pure, lengthOr, Payload.octets, Payload.fields, Body.fields, Body.rest]
  | Notification doi protocolId spiSize type spi data =>
      simp [encodeQuickMode, encode_Notification_Payload, Payload.define, generic, bind,
        Except.bind, pure, Except.pure, lengthOr, Payload.octets, Payload.fields, Body.fields,
        Body.rest]
  | Delete doi protocolId numOfSpis spis =>
      simp only [encodeQuickMode, encode_Delete_Payload, Payload.define, generic, defined_some,
        bind, Except.bind, foldl_spis]
      simp [pure, Except.pure, lengthOr, Payload.octets, Payload.fields, Body.fields, Body.rest]

theorem encode_ISAKMP_Payload_define (ps : List Payload) :
    encode_ISAKMP_Payload (ps.map Payload.define) = .ok (ps.flatMap Payload.octets) := by
  simp [encode_ISAKMP_Payload, mapM_ok encodeQuickMode_define, bind, Except.bind, pure,
    Except.pure, List.flatMap]

end Tahi.Kink.Quick

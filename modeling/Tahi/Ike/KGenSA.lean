import Tahi.General.Decimal
import Tahi.General.PerlHex
import Tahi.Ike.KConsts

/-! # Building security association payloads

A list of proposals is put together from its end: each element is generated in front of the
octets of those behind it.
-/

namespace Tahi.Ike

open Perl

/-! ## Lists of proposals -/

namespace Given

/-- Two octets, as the four hexadecimal digits that are given for them. -/
structure HexPair where
  text : List UInt8
  length_text : text.length = 4
  digits : ∀ c ∈ text, IsHexChar c

/-- The value of a fixed length is given by its digits, one of a varying length by its octets. -/
inductive Value where
  | fixed (v : HexPair)
  | varying (v : List UInt8)

/-- The string that stands for either of them. -/
def Value.text : Value → List UInt8
  | .fixed v => v.text
  | .varying v => v

structure Attribute where
  type : Constant AttributeType
  value : Value

structure Transform where
  type : Constant TransformType
  id : Constant TransformID
  attributes : List Attribute

/-- The octets of `spi` are given by their hexadecimal digits. -/
structure Proposal where
  number : Option ℕ := none
  id : Constant ProtocolID
  spi : Option (List UInt8) := none
  transforms : List Transform

end Given

/-! ## Generating the elements -/

/-- The number for a constant: what is not made of digits is looked up. -/
def numberOf {Name : Type} (table : Constant Name → Constant Name) : Constant Name → ℕ
  | .num n => n
  | .name x => (table (.name x)).packed

def kGenGenericPayloadHeader (critical : Bool) (payload : List UInt8)
    (nexttype : Option (Constant PayloadType)) (nextdata : Str) : List UInt8 :=
  let nexttype := (nexttype.map (numberOf kPayloadType)).getD 0
  -- A string of a single bit, which is the highest one of the octet.
  let critical := if critical then 0x80 else 0
  pack [(1, nexttype), (1, critical), (2, payload.length + 4)] ++ payload ++ nextdata.orEmpty

def kGenSecurityAssociationPayload (proposals : List UInt8)
    (nexttype : Option (Constant PayloadType)) (nextdata : Str) :
    List UInt8 × Constant PayloadType :=
  (kGenGenericPayloadHeader false proposals nexttype nextdata, kPayloadType (.name .SA))

def kGenSAProposal (number : ℕ) (id : Constant ProtocolID) (spiSize : ℕ) (spi : List Digit)
    (transformCount : ℕ) (transforms nextdata : Str) : List UInt8 :=
  let transforms := transforms.orEmpty
  let nextdata := nextdata.orEmpty
  let id := numberOf kProtocolID id
  pack [(1, if 0 < nextdata.length then 2 else 0), (1, 0), (2, transforms.length + 8 + spiSize),
      (1, number), (1, id), (1, spiSize), (1, transformCount)] ++
    (if 0 < spiSize then packH (spiSize * 2) spi else []) ++ transforms ++ nextdata

def kGenSATransform (type : Constant TransformType) (id : Constant TransformID)
    (attributes nextdata : Str) : List UInt8 :=
  let attributes := attributes.orEmpty
  let nextdata := nextdata.orEmpty
  let type := numberOf kTransformType type
  let id := match id with
    | .num n => n
    | .name x => packedID (kTransformTypeID (.num type) (.name x))
  pack [(1, if 0 < nextdata.length then 3 else 0), (1, 0), (2, attributes.length + 8), (1, type),
    (1, 0), (2, id)] ++ attributes ++ nextdata

def kGenSAAttribute (type : Constant AttributeType) (value nextdata : Str) : List UInt8 :=
  let nextdata := nextdata.orEmpty
  let type := numberOf kAttributeType type
  let value := value.orEmpty
  let result := pack [(2, type)]
  if type &&& 128 ≠ 0 then result ++ pack [(2, value.length)] ++ value ++ nextdata
  -- The template has one item and takes it from the type. The value is left.
  else result ++ packH 4 ((Decimal.print type).map hexDigit) ++ nextdata

/-! ## The loops -/

/-- The loop over the attributes, from the last one. -/
def buildAttributes (attributes : List Given.Attribute) : Str :=
  attributes.foldr
    (fun a behind => some (kGenSAAttribute a.type (some a.value.text) behind)) none

/-- The loop over the transforms, from the last one. -/
def buildTransforms (transforms : List Given.Transform) : List UInt8 :=
  transforms.foldr
    (fun t behind => kGenSATransform t.type t.id (buildAttributes t.attributes) (some behind)) []

/-- A turn of the loop over the proposals. -/
def buildProposal (p : Given.Proposal) (propIndex : ℕ) (behind : List UInt8) : List UInt8 :=
  let number := p.number.getD (propIndex + 1)
  let spi := (p.spi.map hex).getD []
  let spiSize := spi.length / 2
  kGenSAProposal number p.id spiSize spi p.transforms.length
    (some (buildTransforms p.transforms)) (some behind)

/-- The loop over the proposals with their indices, from the last one. -/
def buildProposals (proposals : List (Given.Proposal × ℕ)) : List UInt8 :=
  proposals.foldr (fun p behind => buildProposal p.1 p.2 behind) []

def kBuildSecurityAssociationPayload (proposalsList : List Given.Proposal)
    (paytype : Option (Constant PayloadType)) (paydata : Str) :
    List UInt8 × Constant PayloadType :=
  kGenSecurityAssociationPayload (buildProposals proposalsList.zipIdx) paytype paydata

end Tahi.Ike

import Mathlib.Algebra.Order.Ring.Int
import Mathlib.Data.List.Basic
import Tahi.Ike.KGen

/-! # The lengths in generated messages

Every structure of a message states its length, and some state how many structures they
contain. The generator computes these numbers apart from the octets that it appends.
-/

namespace Tahi.Ike

open Perl

namespace Def

/-! ## Definitions without lengths -/

def SAAttribute.Automatic : SAAttribute → Prop
  | .tv _ _ => True
  | .tlv _ length _ => length = none

structure SATransform.Automatic (transform : SATransform) : Prop where
  transformLen : transform.transformLen = none
  attributes : ∀ x ∈ transform.attributes.getD [], x.Automatic

structure SAProposal.Automatic (proposal : SAProposal) : Prop where
  proposalLen : proposal.proposalLen = none
  spiSize : proposal.spiSize = none
  transformCount : proposal.transformCount = none
  transforms : ∀ transform ∈ proposal.transforms.getD [], transform.Automatic

@[grind =]
def Payload.Automatic : Payload → Prop
  | .SA self => self.length = none ∧ ∀ proposal ∈ self.proposals.getD [], proposal.Automatic
  | .KE self => self.length = none
  | .IDi self | .IDr self => self.length = none
  | .CERT self => self.length = none
  | .CERTREQ self => self.length = none
  | .AUTH self => self.length = none
  | .NiNr self => self.length = none
  | .N self => self.length = none ∧ self.spiSize = none
  | .D self => self.length = none ∧ self.spiSize = none ∧ self.spiCount = none
  | .TSi self | .TSr self =>
      self.length = none ∧ self.count = none ∧
        ∀ selector ∈ self.selectors.getD [], selector.selectorLen = none
  | .CP self => self.length = none
  | .UNDEFINED self => self.length = none
  | .E self => self.length = none
  | .V | .EAP => True

structure Message.Automatic (message : Message) : Prop where
  length : message.header.length = none
  payloads : ∀ payload ∈ message.payloads, payload.Automatic

/-! ## Numbers that say what was emitted -/

/-- A number of one octet is `n`, as long as it can be. -/
def Counts (raw : List UInt8) (pos n : Nat) : Prop := n < 256 → field raw pos 1 = n

def SAAttribute.Measured (self : SAAttribute) : Prop :=
  let raw := kEncAttributeSubstructure self
  match self with
  | .tv _ _ => True
  | .tlv _ _ _ => field raw 2 2 = raw.length - 4

def SATransform.Measured (self : SATransform) (next : Nat) : Prop :=
  let raw := kEncTransformSubstructure self next
  field raw 2 2 = raw.length ∧ ∀ x ∈ self.attributes.getD [], x.Measured

/-- The sizes of a proposal, of its SPI and of its transforms, and their number. -/
structure SAProposal.Measured (proposal : SAProposal) (raw : List UInt8) : Prop where
  length : field raw 2 2 = raw.length
  spi : Counts raw 6 (raw.length - 8 - (encTransforms (proposal.transforms.getD [])).length)
  count : Counts raw 7 (proposal.transforms.getD []).length
  transforms : ∀ before transform after,
    proposal.transforms.getD [] = before ++ transform :: after →
      transform.Measured (if after.isEmpty then 0 else 3)

def ConfigurationAttribute.Measured (self : ConfigurationAttribute) : Prop :=
  let raw := kEncConfigurationAttribute self
  field raw 2 2 = raw.length - 4

/-- SPIs of an array are as many as it says and have the size it says. Those of a string
    have this number and this size together. -/
def SPIs.Measured (count size : Nat) : SPIs → Prop
  | .array spis =>
      if spis.flatMap unhex = [] then count = 0
      else spis.length < 65536 → count = spis.length ∧ ∀ spi ∈ spis, (unhex spi).length = size
  | .digits spis => count * size = (unhex spis).length

section

variable (getaddrinfo : List UInt8 → List SockAddr)

def TSSelector.Measured (self : TSSelector) : Prop :=
  let raw := kEncTrafficSelector getaddrinfo self
  field raw 2 2 = raw.length

/-- The numbers in the octets of a payload. -/
@[grind =]
def Payload.Measured (self : Payload) (raw : List UInt8) : Prop :=
  field raw 2 2 = raw.length ∧
  match self with
  | .SA self =>
      ∀ before proposal after, self.proposals.getD [] = before ++ proposal :: after →
        proposal.Measured (kEncProposalSubstructure proposal (if after.isEmpty then 0 else 2)
          (before.length + 1))
  | .N self => Counts raw 5 (unhex (self.spi.getD [])).length
  | .D self => ∀ spis ∈ self.spis, spis.Measured (field raw 6 2) (field raw 5 1)
  | .TSi self | .TSr self =>
      Counts raw 4 (self.selectors.getD []).length ∧
        ∀ selector ∈ self.selectors.getD [], selector.Measured getaddrinfo
  | .CP self => ∀ x ∈ self.attributes.getD [], x.Measured
  | _ => True

/-- The octets of the payloads up to the encrypted one. -/
def clear : List Payload → List UInt8
  | [] => []
  | .E _ :: _ => []
  | payload :: payloads =>
      ((encodingFunctions getaddrinfo (typeOf payloads) payload).getD none).octets ++
        clear payloads

/-- The numbers in a message, each as long as it fits. An encrypted payload is all that is
    behind the octets in front of it. -/
structure Message.Measured (message : Message) (raw : List UInt8) : Prop where
  length : raw.length < 2 ^ 32 → field raw 24 4 = raw.length
  payloads : ∀ before payload after octets, message.payloads = before ++ payload :: after →
    encodingFunctions getaddrinfo (typeOf after) payload = some octets → octets.len < 2 ^ 16 →
      payload.Measured getaddrinfo octets.octets
  encrypted : ∀ e, .E e ∈ message.payloads → raw.length < 2 ^ 32 →
    let octets := raw.drop (28 + (clear getaddrinfo message.payloads).length)
    octets.length < 2 ^ 16 → field octets 2 2 = octets.length

end

/-! ## Where they do -/

/-- An attribute of variable length gets the length 0. -/
def SAAttribute.Regular : SAAttribute → Prop
  | .tv _ _ => True
  | .tlv _ _ value => value = some []

/-- A condition takes an SPI that is the octet of `'0'` for false. -/
structure SAProposal.Regular (proposal : SAProposal) : Prop where
  spi : proposal.spi.map unhex ≠ some [0x30]
  transforms : ∀ transform ∈ proposal.transforms.getD [],
    ∀ x ∈ transform.attributes.getD [], x.Regular

/-- SPIs are taken to have four octets. -/
def SPIs.Regular : SPIs → Prop
  | .array spis =>
      spis.flatMap unhex = [] ∨ 65536 ≤ spis.length ∨ ∀ spi ∈ spis, (unhex spi).length = 4
  | .digits spis => 8 ∣ spis.length

section

variable (getaddrinfo : List UInt8 → List SockAddr)

/-- The lengths for addresses are fixed. -/
def Identification.Regular (self : Identification) : Prop :=
  let type := packed kIdentificationType self.type
  (type = 1 → (ipaddr_tobin getaddrinfo (self.value.getD anyAddr)).len = 4) ∧
  (type = 5 → match self.value with
    | some value => ((ipaddr_tobin getaddrinfo value).getD value).length = 16
    | none => (ipaddr_tobin getaddrinfo anyAddr6).len = 16)

def TSSelector.Regular (self : TSSelector) : Prop :=
  let type := packed kTrafficSelectorType self.type
  (type = 7 → (ipaddr_tobin getaddrinfo (self.saddr.getD anyAddr)).len = 4 ∧
    (ipaddr_tobin getaddrinfo (self.eaddr.getD anyAddr)).len = 4) ∧
  (type = 8 → (ipaddr_tobin getaddrinfo (self.saddr.getD anyAddr6)).len = 16 ∧
    (ipaddr_tobin getaddrinfo (self.eaddr.getD anyAddr6)).len = 16)

/-- Half the digits of a key or a nonce are counted, and all the digits of the data of a
    payload without a definition. -/
@[grind =]
def Payload.Regular : Payload → Prop
  | .SA self => ∀ proposal ∈ self.proposals.getD [], proposal.Regular
  | .KE self => 2 ∣ (self.publicKey.getD []).length
  | .IDi self | .IDr self => self.Regular getaddrinfo
  | .NiNr self => 2 ∣ (self.nonce.getD []).length
  | .D self => ∀ spis ∈ self.spis, spis.Regular
  | .TSi self | .TSr self =>
      ∀ selector ∈ self.selectors.getD [], selector.Regular getaddrinfo
  | .UNDEFINED self => (self.data.getD []).length ≤ 1
  | _ => True

/-- Initialization vectors and checksums that are given have the sizes that the algorithms
    have. Payloads and messages whose lengths do not fit are left out. -/
structure Message.Regular (message : Message) (material : Option EncryptionMaterial)
    (raw : List UInt8) : Prop where
  payloads : ∀ before payload after octets, message.payloads = before ++ payload :: after →
    encodingFunctions getaddrinfo (typeOf after) payload = some octets → octets.len < 2 ^ 16 →
      payload.Regular getaddrinfo
  checksum : raw.length < 2 ^ 32 → ∀ e, .E e ∈ message.payloads → ∀ m ∈ material,
    ∀ checksum ∈ e.checksum, (unhex checksum).length = m.binteg
  iv : raw.length < 2 ^ 32 → ∀ e, .E e ∈ message.payloads → ∀ m ∈ material,
    (raw.drop (28 + (clear getaddrinfo message.payloads).length)).length < 2 ^ 16 →
      ∀ iv ∈ e.iv, (unhex iv).length = m.bencr

end

/-- A vector and a checksum that are given are not shorter together than the checksum that is
    cut off. Otherwise the octets of the fields in front of them are cut off as well, and
    the checksum stands where they stood. -/
def Message.Covered (message : Message) (material : Option EncryptionMaterial) : Prop :=
  ∀ e, .E e ∈ message.payloads → ∀ m ∈ material, ∀ c ∈ e.checksum, m.binteg ≤
    (match e.iv with | some iv => (unhex iv).length | none => m.bencr) + (unhex c).length

end Def

/-! ## What the encoding functions emit -/

theorem field_length (self : Def.Generic) (next length : Nat) (more : List (Nat × Nat))
    (rest : List UInt8) :
    field (pack (self.fields next length ++ more) ++ rest) 2 2 = length % 65536 :=
  field_pack [(1, _), (1, _)] 2 length more rest

theorem length_payload (self : Def.Generic) (next length : Nat) (more : List (Nat × Nat))
    (rest : List UInt8) :
    (pack (self.fields next length ++ more) ++ rest).length =
      4 + (more.map Prod.fst).sum + rest.length := by
  simp only [List.length_append, length_pack, List.map_append, List.sum_append]
  rfl

/-- What a condition leaves of a string that is appended if it is true. -/
theorem truth_octets (s : Str) (other : s.octets ≠ [0x30]) :
    (if s.truth then s.octets else []) = s.octets := by
  unfold Str.truth
  by_cases empty : s.octets = []
  · simp [empty]
  · simp [empty, other]

theorem attribute_measured (x : Def.SAAttribute) (automatic : x.Automatic)
    (fits : (kEncAttributeSubstructure x).length < 65536) : x.Measured ↔ x.Regular := by
  cases x with
  | tv type value => exact Iff.rfl
  | tlv type length value =>
      cases automatic
      have said : field (kEncAttributeSubstructure (.tlv type none value)) 2 2 = 0 :=
        field_pack [(2, _)] 2 0 [] _
      simp only [Def.SAAttribute.Measured, Def.SAAttribute.Regular, said]
      simp only [kEncAttributeSubstructure, List.length_append, length_pack, length_unhex]
      cases value with
      | none => simp [noDigits]
      | some value =>
          cases value with
          | nil => simp
          | cons d digits =>
              simp
              omega

/-- Each element is emitted as a part of what all are emitted as. -/
theorem length_le_flatMap {α : Type} (f : α → List UInt8) {l : List α} {x : α}
    (mem : x ∈ l) : (f x).length ≤ (l.flatMap f).length := by
  obtain ⟨before, after, rfl⟩ := List.append_of_mem mem
  simp only [List.flatMap_append, List.flatMap_cons, List.length_append]
  omega

theorem length_transform (self : Def.SATransform) (next : Nat) :
    (kEncTransformSubstructure self next).length =
      8 + ((self.attributes.getD []).flatMap kEncAttributeSubstructure).length := by
  simp only [kEncTransformSubstructure, List.length_append, length_pack]
  rfl

theorem transform_measured (self : Def.SATransform) (next : Nat) (automatic : self.Automatic)
    (fits : (kEncTransformSubstructure self next).length < 65536) :
    self.Measured next ↔ ∀ x ∈ self.attributes.getD [], x.Regular := by
  have length := length_transform self next
  have said : field (kEncTransformSubstructure self next) 2 2 =
      (kEncTransformSubstructure self next).length := by
    rw [length] at fits ⊢
    rw [← Nat.mod_eq_of_lt fits]
    simp only [kEncTransformSubstructure, automatic.transformLen]
    exact field_pack [(1, _), (1, _)] 2 _ _ _
  have each : ∀ x ∈ self.attributes.getD [], (x.Measured ↔ x.Regular) := by
    intro x mem
    apply attribute_measured x (automatic.attributes x mem)
    have part := length_le_flatMap kEncAttributeSubstructure mem
    omega
  constructor
  · intro measured x mem
    exact (each x mem).mp (measured.2 x mem)
  · intro regular
    exact ⟨said, fun x mem => (each x mem).mpr (regular x mem)⟩

/-- Where a transform stands among all. -/
theorem length_le_transforms (before : List Def.SATransform) (transform : Def.SATransform)
    (after : List Def.SATransform) :
    (kEncTransformSubstructure transform (if after.isEmpty then 0 else 3)).length ≤
      (encTransforms (before ++ transform :: after)).length := by
  induction before with
  | nil => simp [encTransforms]
  | cons first before ih =>
      simp only [List.cons_append, encTransforms, List.length_append]
      omega

theorem encTransforms_ne (transforms : List Def.SATransform) :
    encTransforms transforms ≠ [0x30] := by
  intro same
  have length := congrArg List.length same
  cases transforms with
  | nil => simp [encTransforms] at length
  | cons transform transforms =>
      simp only [encTransforms, List.length_append, length_transform, List.length_singleton]
        at length
      omega

/-- The octets of a proposal and what it says about them. -/
theorem proposal_emits (self : Def.SAProposal) (next index : Nat) (automatic : self.Automatic) :
    let raw := kEncProposalSubstructure self next index
    let spi : Str := self.spi.map unhex
    let transforms := self.transforms.getD []
    raw.length = 8 + (if spi.truth then spi.octets else []).length +
      (encTransforms transforms).length ∧
    field raw 2 2 = (8 + (spi.len + (encTransforms transforms).length)) % 65536 ∧
    field raw 6 1 = spi.len % 256 ∧ field raw 7 1 = transforms.length % 256 := by
  have whole := truth_octets (some (encTransforms (self.transforms.getD [])))
    (encTransforms_ne (self.transforms.getD []))
  simp only [kEncProposalSubstructure, automatic.proposalLen, automatic.spiSize,
    automatic.transformCount, Option.getD_none, whole]
  refine ⟨?_, ?_, ?_, ?_⟩
  · simp only [List.length_append, length_pack, Str.octets_some]
    rfl
  · rw [List.append_assoc]
    exact field_pack [(1, _), (1, _)] 2 _ _ _
  · rw [List.append_assoc]
    exact field_pack [(1, _), (1, _), (2, _), (1, _), (1, _)] 1 _ _ _
  · rw [List.append_assoc]
    exact field_pack [(1, _), (1, _), (2, _), (1, _), (1, _), (1, _)] 1 _ _ _

/-- The SPI that is counted is appended unless a condition takes it for false. -/
theorem spi_emitted (spi : Str) :
    (if spi.truth then spi.octets else []).length = spi.len ↔ spi ≠ some [0x30] := by
  by_cases zero : spi = some [0x30]
  · simp [zero, Str.truth]
  · have other : spi.octets ≠ [0x30] := by
      cases spi with
      | none => simp
      | some octets => simpa using zero
    rw [truth_octets spi other]
    simp [Str.len, zero]

theorem proposal_measured (self : Def.SAProposal) (next index : Nat)
    (automatic : self.Automatic)
    (fits : (kEncProposalSubstructure self next index).length < 65536) :
    self.Measured (kEncProposalSubstructure self next index) ↔ self.Regular := by
  obtain ⟨length, said, size, count⟩ := proposal_emits self next index automatic
  have each : ∀ before transform after, self.transforms.getD [] = before ++ transform :: after →
      (transform.Measured (if after.isEmpty then 0 else 3) ↔
        ∀ x ∈ transform.attributes.getD [], x.Regular) := by
    intro before transform after at_
    have part := length_le_transforms before transform after
    rw [← at_] at part
    have mem : transform ∈ self.transforms.getD [] := by simp [at_]
    exact transform_measured transform _ (automatic.transforms transform mem) (by omega)
  constructor
  · intro measured
    constructor
    · intro zero
      have none := measured.spi
      rw [length, zero] at none
      rw [zero] at size
      simp [Def.Counts, size, Str.truth] at none
    · intro transform mem
      obtain ⟨before, after, at_⟩ := List.append_of_mem mem
      exact (each before transform after at_).mp (measured.transforms before transform after at_)
  · intro regular
    have emitted := (spi_emitted (self.spi.map unhex)).mpr regular.spi
    rw [emitted] at length
    constructor
    · rw [said, length]
      omega
    · intro small
      rw [size]
      omega
    · intro small
      rw [count]
      omega
    · intro before transform after at_
      apply (each before transform after at_).mpr
      exact regular.transforms transform (by simp [at_])

theorem length_le_proposals (before : List Def.SAProposal) (proposal : Def.SAProposal)
    (after : List Def.SAProposal) (index : Nat) :
    (kEncProposalSubstructure proposal (if after.isEmpty then 0 else 2)
      (index + before.length)).length ≤
      (encProposals index (before ++ proposal :: after)).length := by
  induction before generalizing index with
  | nil => simp [encProposals]
  | cons first before ih =>
      have rest := ih (index + 1)
      simp only [List.cons_append, encProposals, List.length_append, List.length_cons]
      rw [show index + (before.length + 1) = index + 1 + before.length by omega]
      omega

theorem length_proposal (self : Def.SAProposal) (next index : Nat) :
    8 ≤ (kEncProposalSubstructure self next index).length := by
  simp only [kEncProposalSubstructure, List.length_append, length_pack]
  exact le_trans (Nat.le_add_right 8 _) (Nat.le_add_right _ _)

theorem encProposals_ne (index : Nat) (proposals : List Def.SAProposal) :
    encProposals index proposals ≠ [0x30] := by
  intro same
  have length := congrArg List.length same
  cases proposals with
  | nil => simp [encProposals] at length
  | cons proposal proposals =>
      have part := length_proposal proposal (if proposals.isEmpty then 0 else 2) index
      simp only [encProposals, List.length_append, List.length_singleton] at length
      omega

/-- When the length of a payload is the one it states. -/
theorem said_iff (self : Def.Generic) (next length : Nat) (more : List (Nat × Nat))
    (rest : List UInt8) :
    field (pack (self.fields next length ++ more) ++ rest) 2 2 =
        (pack (self.fields next length ++ more) ++ rest).length ↔
      length % 65536 = 4 + (more.map Prod.fst).sum + rest.length := by
  rw [field_length, length_payload]

section

variable (getaddrinfo : List UInt8 → List SockAddr)

theorem SA_measured (self : Def.SecurityAssociation) (next : Nat)
    (automatic : (Def.Payload.SA self).Automatic)
    (fits : (kEncSecurityAssociationPayload self next).length < 65536) :
    (Def.Payload.SA self).Measured getaddrinfo (kEncSecurityAssociationPayload self next) ↔
      (Def.Payload.SA self).Regular getaddrinfo := by
  obtain ⟨auto, proposals⟩ := automatic
  have whole := truth_octets (some (encProposals 1 (self.proposals.getD [])))
    (encProposals_ne 1 (self.proposals.getD []))
  have shape : kEncSecurityAssociationPayload self next =
      pack (self.fields next (4 + (encProposals 1 (self.proposals.getD [])).length) ++ []) ++
        encProposals 1 (self.proposals.getD []) := by
    simp only [kEncSecurityAssociationPayload, auto, Option.getD_none, whole, List.append_nil]
    rfl
  have length := length_payload self.toGeneric next
    (4 + (encProposals 1 (self.proposals.getD [])).length) []
    (encProposals 1 (self.proposals.getD []))
  rw [← shape] at length
  simp only [List.map_nil, List.sum_nil, Nat.add_zero] at length
  have each : ∀ before proposal after,
      self.proposals.getD [] = before ++ proposal :: after →
      (proposal.Measured (kEncProposalSubstructure proposal (if after.isEmpty then 0 else 2)
        (before.length + 1)) ↔ proposal.Regular) := by
    intro before proposal after at_
    have part := length_le_proposals before proposal after 1
    rw [← at_, Nat.add_comm 1] at part
    apply proposal_measured proposal _ _ (proposals proposal (by simp [at_]))
    omega
  constructor
  · intro measured proposal mem
    obtain ⟨before, after, at_⟩ := List.append_of_mem mem
    exact (each before proposal after at_).mp (measured.2 before proposal after at_)
  · intro regular
    constructor
    · rw [shape]
      apply (said_iff _ _ _ _ _).mpr
      simp only [List.map_nil, List.sum_nil]
      omega
    · intro before proposal after at_
      exact (each before proposal after at_).mpr (regular proposal (by simp [at_]))

theorem KE_measured (self : Def.KeyExchange) (next : Nat) (auto : self.length = none)
    (fits : (kEncKeyExchangePayload self next).length < 65536) :
    (Def.Payload.KE self).Measured getaddrinfo (kEncKeyExchangePayload self next) ↔
      (Def.Payload.KE self).Regular getaddrinfo := by
  simp only [kEncKeyExchangePayload, auto, Option.getD_none] at fits ⊢
  rw [length_payload] at fits
  simp only [Def.Payload.Measured, Def.Payload.Regular, and_true, said_iff]
  simp only [List.map_cons, List.map_nil, List.sum_cons, List.sum_nil, length_unhex] at fits ⊢
  omega

theorem NiNr_measured (self : Def.Nonce) (next : Nat) (auto : self.length = none)
    (fits : (kEncNoncePayload self next).length < 65536) :
    (Def.Payload.NiNr self).Measured getaddrinfo (kEncNoncePayload self next) ↔
      (Def.Payload.NiNr self).Regular getaddrinfo := by
  simp only [kEncNoncePayload, auto, Option.getD_none] at fits ⊢
  rw [← List.append_nil (self.fields _ _), length_payload] at fits
  rw [← List.append_nil (self.fields _ _)]
  simp only [Def.Payload.Measured, Def.Payload.Regular, and_true, said_iff]
  simp only [List.map_nil, List.sum_nil, length_unhex] at fits ⊢
  omega

theorem UNDEFINED_measured (self : Def.Undefined) (next : Nat) (auto : self.length = none)
    (fits : (kEncUndefinedPayload self next).length < 65536) :
    (Def.Payload.UNDEFINED self).Measured getaddrinfo (kEncUndefinedPayload self next) ↔
      (Def.Payload.UNDEFINED self).Regular getaddrinfo := by
  simp only [kEncUndefinedPayload, auto, Option.getD_none] at fits ⊢
  rw [← List.append_nil (self.fields _ _), length_payload] at fits
  rw [← List.append_nil (self.fields _ _)]
  simp only [Def.Payload.Measured, Def.Payload.Regular, and_true, said_iff]
  simp only [List.map_nil, List.sum_nil, length_unhex] at fits ⊢
  omega

/-- What an address resolves to has the size of its family. -/
theorem len_ipaddr_tobin (address : List UInt8) :
    (ipaddr_tobin getaddrinfo address).len = 0 ∨ (ipaddr_tobin getaddrinfo address).len = 4 ∨
      (ipaddr_tobin getaddrinfo address).len = 16 := by
  unfold ipaddr_tobin
  induction getaddrinfo address with
  | nil => exact Or.inl rfl
  | cons addr addrs ih =>
      cases addr with
      | AF_INET addr => simp
      | AF_INET6 addr => simp
      | other => simpa using ih

theorem identification_measured (self : Def.Identification) (next : Nat)
    (auto : self.length = none)
    (fits : (kEncIdentificationPayloads getaddrinfo self next).length < 65536) :
    field (kEncIdentificationPayloads getaddrinfo self next) 2 2 =
        (kEncIdentificationPayloads getaddrinfo self next).length ↔
      self.Regular getaddrinfo := by
  simp only [kEncIdentificationPayloads, Def.Identification.Regular] at fits ⊢
  generalize known : packed kIdentificationType self.type = type at fits ⊢
  by_cases four : type = 1
  · simp only [four, if_true, kEncIdentificationPayloads_IPV4_ADDR, auto, Option.getD_none]
      at fits ⊢
    rw [length_payload] at fits
    rw [said_iff]
    simp only [List.map_cons, List.map_nil, List.sum_cons, List.sum_nil, ← Str.len.eq_1]
      at fits ⊢
    simp
    omega
  · by_cases six : type = 5
    · simp only [six, show ¬ 5 = 1 by decide, if_false, if_true,
        kEncIdentificationPayloads_IPV6_ADDR, auto, Option.getD_none] at fits ⊢
      rw [length_payload] at fits
      rw [said_iff]
      simp only [List.map_cons, List.map_nil, List.sum_cons, List.sum_nil] at fits ⊢
      cases given : self.value with
      | none =>
          simp only [given, Str.len] at fits ⊢
          simp
          omega
      | some value =>
          simp only [given] at fits ⊢
          simp
          omega
    · simp only [four, six, if_false, kEncIdentificationPayloads_ANY, auto, Option.getD_none]
        at fits ⊢
      rw [length_payload] at fits
      rw [said_iff]
      simp only [List.map_cons, List.map_nil, List.sum_cons, List.sum_nil] at fits ⊢
      simp
      omega

/-- The fields that all selectors start with. -/
theorem selector_said (type protocol length sport eport : Nat) (rest : List UInt8) :
    field (pack [(1, type), (1, protocol), (2, length), (2, sport), (2, eport)] ++ rest) 2 2 =
      length % 65536 :=
  field_pack [(1, _), (1, _)] 2 _ _ _

theorem length_selector (type protocol length sport eport : Nat) (rest : List UInt8) :
    (pack [(1, type), (1, protocol), (2, length), (2, sport), (2, eport)] ++ rest).length =
      8 + rest.length := by
  rw [List.length_append, length_pack]
  rfl

theorem selector_measured (self : Def.TSSelector) (auto : self.selectorLen = none)
    (fits : (kEncTrafficSelector getaddrinfo self).length < 65536) :
    self.Measured getaddrinfo ↔ self.Regular getaddrinfo := by
  simp only [Def.TSSelector.Measured, Def.TSSelector.Regular, kEncTrafficSelector] at fits ⊢
  generalize packed kTrafficSelectorType self.type = type at fits ⊢
  by_cases four : type = 7
  · have s := len_ipaddr_tobin getaddrinfo (self.saddr.getD anyAddr)
    have e := len_ipaddr_tobin getaddrinfo (self.eaddr.getD anyAddr)
    simp only [four, if_true, kEncTrafficSelector_TS_IPV4_ADDR_RANGE, auto, Option.getD_none,
      List.append_assoc]
    rw [selector_said, length_selector]
    simp [← Str.len.eq_1]
    omega
  · by_cases six : type = 8
    · have s := len_ipaddr_tobin getaddrinfo (self.saddr.getD anyAddr6)
      have e := len_ipaddr_tobin getaddrinfo (self.eaddr.getD anyAddr6)
      simp only [six, show ¬ 8 = 7 by decide, if_false, if_true,
        kEncTrafficSelector_TS_IPV6_ADDR_RANGE, auto, Option.getD_none, List.append_assoc]
      rw [selector_said, length_selector]
      simp [← Str.len.eq_1]
      omega
    · simp only [four, six, if_false, kEncTrafficSelector_ANY, auto, Option.getD_none,
        List.append_assoc] at fits ⊢
      rw [length_selector] at fits
      rw [selector_said, length_selector]
      simp only [List.length_append] at fits ⊢
      split <;> split <;> simp [*, Str.len] at fits ⊢ <;> omega

theorem configurationAttribute_measured (self : Def.ConfigurationAttribute)
    (fits : (kEncConfigurationAttribute self).length < 65536) : self.Measured := by
  have said : field (kEncConfigurationAttribute self) 2 2 =
      (self.value.getD [0x30]).length % 65536 :=
    field_pack [(2, _)] 2 _ [] _
  have length : (kEncConfigurationAttribute self).length =
      4 + (self.value.getD [0x30]).length := by
    simp only [kEncConfigurationAttribute, List.length_append, length_pack]
    rfl
  unfold Def.ConfigurationAttribute.Measured
  simp only [said, length] at fits ⊢
  omega

theorem CP_measured (self : Def.Configuration) (next : Nat) (auto : self.length = none)
    (fits : (kEncConfigurationPayload self next).len < 65536) :
    (Def.Payload.CP self).Measured getaddrinfo (kEncConfigurationPayload self next).octets := by
  cases given : self.attributes with
  | none =>
      have undefined : kEncConfigurationPayload self next = none := by
        simp [kEncConfigurationPayload, given]
      rw [undefined]
      exact ⟨rfl, by simp [given]⟩
  | some l =>
      have shape := fun more => length_payload self.toGeneric next
        (8 + (l.flatMap kEncConfigurationAttribute).length) more
        (l.flatMap kEncConfigurationAttribute)
      simp only [kEncConfigurationPayload, given, Option.map_some, auto, Option.getD_none,
        Str.len_some, Str.octets_some, shape] at fits ⊢
      simp only [List.map_cons, List.map_nil, List.sum_cons, List.sum_nil] at fits
      constructor
      · rw [said_iff]
        simp only [List.map_cons, List.map_nil, List.sum_cons, List.sum_nil]
        omega
      · intro x mem
        simp only [given, Option.getD_some] at mem
        apply configurationAttribute_measured
        have part := length_le_flatMap kEncConfigurationAttribute mem
        omega

/-- The numbers of a delete payload. -/
theorem delete_emits (self : Def.Delete) (next : Nat) (auto : self.length = none)
    (size : self.spiSize = none) (count : self.spiCount = none) :
    let raw := kEncDeletePayload self next
    let spis : Str := self.spis.bind Def.SPIs.pack
    raw.length = 8 + spis.len ∧ field raw 2 2 = (8 + spis.len) % 65536 ∧
    field raw 5 1 = (if spis.isSome then 4 else 0) ∧
    field raw 6 2 = (if spis.isSome then (self.spis.map Def.SPIs.count).getD 0 else 0) % 65536 := by
  simp only [kEncDeletePayload, auto, size, count, Option.getD_none]
  refine ⟨?_, ?_, ?_, ?_⟩
  · rw [length_payload]
    rfl
  · exact field_length _ _ _ _ _
  · refine (field_pack [(1, _), (1, _), (2, _), (1, _)] 1 _ _ _).trans ?_
    split <;> rfl
  · refine (field_pack [(1, _), (1, _), (2, _), (1, _), (1, _)] 2 _ _ _).trans ?_
    split <;> rfl

theorem spis_measured (spis : Def.SPIs) (fits : 8 + spis.pack.len < 65536) :
    spis.Measured ((if spis.pack.isSome then spis.count else 0) % 65536)
      (if spis.pack.isSome then 4 else 0) ↔ spis.Regular := by
  cases spis with
  | array spis =>
      by_cases none : spis.flatMap unhex = []
      · simp [Def.SPIs.Measured, Def.SPIs.Regular, Def.SPIs.pack, none]
      · simp only [Def.SPIs.Measured, Def.SPIs.Regular, Def.SPIs.pack, Def.SPIs.count, none,
          List.length_eq_zero_iff, if_false, Option.isSome_some, if_true, false_or]
        constructor
        · intro measured
          by_cases many : 65536 ≤ spis.length
          · exact Or.inl many
          · exact Or.inr (measured (by omega)).2
        · intro regular few
          cases regular with
          | inl many => omega
          | inr four => exact ⟨by omega, four⟩
  | digits spis =>
      simp only [Def.SPIs.Measured, Def.SPIs.Regular, Def.SPIs.pack, Def.SPIs.count,
        Option.isSome_some, if_true, Str.len_some, length_unhex] at fits ⊢
      omega

theorem D_measured (self : Def.Delete) (next : Nat) (automatic : (Def.Payload.D self).Automatic)
    (fits : (kEncDeletePayload self next).length < 65536) :
    (Def.Payload.D self).Measured getaddrinfo (kEncDeletePayload self next) ↔
      (Def.Payload.D self).Regular getaddrinfo := by
  obtain ⟨auto, size, count⟩ := automatic
  obtain ⟨length, said, size, count⟩ := delete_emits self next auto size count
  have right : field (kEncDeletePayload self next) 2 2 = (kEncDeletePayload self next).length := by
    omega
  simp only [Def.Payload.Measured, Def.Payload.Regular, right, true_and, size, count]
  cases given : self.spis with
  | none => simp
  | some spis =>
      simp only [given, Option.bind_some, Option.map_some, Option.getD_some] at length ⊢
      have same := spis_measured spis (by omega)
      simpa using same

/-- The selectors are not the octet that a condition takes for false. -/
theorem selectors_ne (selectors : List Def.TSSelector) :
    selectors.flatMap (kEncTrafficSelector getaddrinfo) ≠ [0x30] := by
  intro same
  have length := congrArg List.length same
  cases selectors with
  | nil => simp at length
  | cons selector selectors =>
      have part : 8 ≤ (kEncTrafficSelector getaddrinfo selector).length := by
        simp only [kEncTrafficSelector]
        split
        · simp only [kEncTrafficSelector_TS_IPV4_ADDR_RANGE, List.append_assoc, length_selector]
          omega
        · split
          · simp only [kEncTrafficSelector_TS_IPV6_ADDR_RANGE, List.append_assoc,
              length_selector]
            omega
          · simp only [kEncTrafficSelector_ANY, List.append_assoc, length_selector]
            omega
      simp only [List.flatMap_cons, List.length_append, List.length_singleton] at length
      omega

theorem TS_measured (self : Def.TrafficSelector) (next : Nat) (auto : self.length = none)
    (count : self.count = none)
    (selectors : ∀ selector ∈ self.selectors.getD [], selector.selectorLen = none)
    (fits : (kEncTrafficSelectorPayload getaddrinfo self next).length < 65536) :
    (Def.Payload.TSi self).Measured getaddrinfo
        (kEncTrafficSelectorPayload getaddrinfo self next) ↔
      ∀ selector ∈ self.selectors.getD [], selector.Regular getaddrinfo := by
  have whole := truth_octets
    (some ((self.selectors.getD []).flatMap (kEncTrafficSelector getaddrinfo)))
    (selectors_ne getaddrinfo (self.selectors.getD []))
  have shape := fun more => length_payload self.toGeneric next
    (8 + ((self.selectors.getD []).flatMap (kEncTrafficSelector getaddrinfo)).length) more
    ((self.selectors.getD []).flatMap (kEncTrafficSelector getaddrinfo))
  simp only [kEncTrafficSelectorPayload, auto, count, Option.getD_none, whole] at fits ⊢
  simp only [Str.octets_some, Str.len_some, shape, List.map_cons, List.map_nil, List.sum_cons,
    List.sum_nil] at fits ⊢
  have each : ∀ selector ∈ self.selectors.getD [],
      (selector.Measured getaddrinfo ↔ selector.Regular getaddrinfo) := by
    intro selector mem
    apply selector_measured getaddrinfo selector (selectors selector mem)
    have part := length_le_flatMap (kEncTrafficSelector getaddrinfo) mem
    omega
  constructor
  · intro measured selector mem
    exact (each selector mem).mp (measured.2.2 selector mem)
  · intro regular
    refine ⟨?_, ?_, fun selector mem => (each selector mem).mpr (regular selector mem)⟩
    · rw [said_iff]
      simp only [List.map_cons, List.map_nil, List.sum_cons, List.sum_nil]
      omega
    · intro small
      refine (field_pack [(1, _), (1, _), (2, _)] 1 _ _ _).trans ?_
      omega

theorem N_measured (self : Def.Notify) (next : Nat) (auto : self.length = none)
    (size : self.spiSize = none) (fits : (kEncNotifyPayload self next).length < 65536) :
    (Def.Payload.N self).Measured getaddrinfo (kEncNotifyPayload self next) := by
  simp only [kEncNotifyPayload, auto, size, Option.getD_none, List.append_assoc] at fits ⊢
  rw [length_payload] at fits
  simp only [List.length_append, List.map_cons, List.map_nil, List.sum_cons, List.sum_nil]
    at fits
  constructor
  · rw [said_iff]
    simp only [List.length_append, List.map_cons, List.map_nil, List.sum_cons, List.sum_nil]
    omega
  · intro small
    refine (field_pack [(1, _), (1, _), (2, _), (1, _)] 1 _ _ _).trans ?_
    omega

/-- A payload whose length counts the octets behind its fixed part. -/
theorem counted_said (self : Def.Generic) (next fixed : Nat) (more : List (Nat × Nat))
    (rest : List UInt8) (size : 4 + (more.map Prod.fst).sum = fixed)
    (fits : (pack (self.fields next (fixed + rest.length) ++ more) ++ rest).length < 65536) :
    field (pack (self.fields next (fixed + rest.length) ++ more) ++ rest) 2 2 =
      (pack (self.fields next (fixed + rest.length) ++ more) ++ rest).length := by
  rw [said_iff, size]
  rw [length_payload, size] at fits
  exact Nat.mod_eq_of_lt fits

/-- In a payload that fits its length. -/
theorem payload_measured (payload : Def.Payload) (next : Nat) (octets : Str)
    (automatic : payload.Automatic)
    (encoded : encodingFunctions getaddrinfo next payload = some octets)
    (fits : octets.len < 65536) :
    payload.Measured getaddrinfo octets.octets ↔ payload.Regular getaddrinfo := by
  cases payload with
  | SA self =>
      cases encoded
      exact SA_measured getaddrinfo self next automatic fits
  | KE self =>
      cases encoded
      exact KE_measured getaddrinfo self next automatic fits
  | IDi self | IDr self =>
      cases encoded
      exact (Iff.of_eq (and_true _)).trans (identification_measured getaddrinfo self next automatic fits)
  | CERT self =>
      cases encoded
      simp only [Def.Payload.Automatic] at automatic
      simp only [kEncCertificationPayload, automatic, Option.getD_none] at fits ⊢
      exact iff_of_true ⟨counted_said _ next 5 _ _ rfl fits, trivial⟩ trivial
  | CERTREQ self =>
      cases encoded
      simp only [Def.Payload.Automatic] at automatic
      simp only [kEncCertificationRequestPayload, automatic, Option.getD_none] at fits ⊢
      exact iff_of_true ⟨counted_said _ next 5 _ _ rfl fits, trivial⟩ trivial
  | AUTH self =>
      cases encoded
      simp only [Def.Payload.Automatic] at automatic
      simp only [kEncAuthenticationPayload, automatic, Option.getD_none] at fits ⊢
      exact iff_of_true ⟨counted_said _ next 8 _ _ rfl fits, trivial⟩ trivial
  | NiNr self =>
      cases encoded
      exact NiNr_measured getaddrinfo self next automatic fits
  | N self =>
      cases encoded
      exact iff_of_true (N_measured getaddrinfo self next automatic.1 automatic.2 fits) trivial
  | D self =>
      cases encoded
      exact D_measured getaddrinfo self next automatic fits
  | TSi self | TSr self =>
      cases encoded
      exact TS_measured getaddrinfo self next automatic.1 automatic.2.1 automatic.2.2 fits
  | CP self =>
      cases encoded
      exact iff_of_true (CP_measured getaddrinfo self next automatic fits) trivial
  | UNDEFINED self =>
      cases encoded
      exact UNDEFINED_measured getaddrinfo self next automatic fits
  | E | V | EAP => cases encoded

/-! ## Whole messages -/

/-- Behind an encrypted payload there is no other, and nothing is added to the octets in
    front of it. -/
theorem collectPayloads_behind (collected : Collected) (payloads : List Def.Payload)
    (enc : collected.enc.isSome) (c : Collected)
    (run : collectPayloads getaddrinfo collected payloads = some c) :
    c.next = collected.next ∧ c.enc = collected.enc ∧ ∀ e, .E e ∉ payloads := by
  fun_induction collectPayloads getaddrinfo collected payloads with
  | case1 collected =>
      cases run
      simp
  | case2 => cases run
  | case3 collected self payloads some' => exact absurd enc some'
  | case4 => cases run
  | case5 collected payload payloads other octets encoded some' ih =>
      obtain ⟨next, same, none⟩ := ih enc run
      refine ⟨next, same, fun e mem => ?_⟩
      cases mem with
      | head => exact other e rfl
      | tail _ mem => exact none e mem
  | case6 collected payload payloads other octets encoded some' => exact absurd enc some'

/-- The octets up to an encrypted payload, which is the only one. -/
theorem collectPayloads_clear (collected : Collected) (payloads : List Def.Payload)
    (enc : collected.enc = none) (c : Collected)
    (run : collectPayloads getaddrinfo collected payloads = some c) :
    c.next.octets = collected.next.octets ++ Def.clear getaddrinfo payloads ∧
      ((c.enc = none ∧ ∀ e, .E e ∉ payloads) ∨
        ∃ e next, c.enc = some (e, next) ∧ .E e ∈ payloads ∧ ∀ e', .E e' ∈ payloads → e' = e) := by
  fun_induction collectPayloads getaddrinfo collected payloads with
  | case1 collected =>
      cases run
      simp [Def.clear, enc]
  | case2 collected self payloads some' => simp [enc] at some'
  | case3 collected self payloads none' ih =>
      obtain ⟨next, same, none⟩ := collectPayloads_behind getaddrinfo _ payloads rfl c run
      refine ⟨by simp [next, Def.clear], Or.inr ⟨self, typeOf payloads, same, by simp, ?_⟩⟩
      intro e' mem
      cases mem with
      | head => rfl
      | tail _ mem => exact absurd mem (none e')
  | case4 => cases run
  | case5 collected payload payloads other octets encoded some' => simp [enc] at some'
  | case6 collected payload payloads other octets encoded none' ih =>
      obtain ⟨next, kinds⟩ := ih enc run
      have here : Def.clear getaddrinfo (payload :: payloads) =
          octets.octets ++ Def.clear getaddrinfo payloads := by
        rw [Def.clear, encoded]
        · rfl
        · exact other
      refine ⟨by simp [next, here], ?_⟩
      cases kinds with
      | inl none =>
          refine Or.inl ⟨none.1, fun e mem => ?_⟩
          cases mem with
          | head => exact other e rfl
          | tail _ mem => exact none.2 e mem
      | inr one =>
          obtain ⟨e, next, same, mem, only⟩ := one
          refine Or.inr ⟨e, next, same, List.mem_cons_of_mem _ mem, fun e' mem' => ?_⟩
          cases mem' with
          | head => exact absurd rfl (other e')
          | tail _ mem' => exact only e' mem'

end

theorem length_header (self : Def.Header) (exchType nexttype length : Nat) :
    (self.octets exchType nexttype length).length = 28 := by
  simp only [Def.Header.octets, List.length_append, length_packH 8, length_pack]
  rfl

/-- The length in the header of a message. -/
theorem header_said (self : Def.Header) (exchType nexttype length : Nat) (rest : List UInt8)
    (auto : self.length = none) :
    field (self.octets exchType nexttype length ++ rest) 24 4 = length % 2 ^ 32 := by
  have front : (packH 16 (self.initSPI.getD []) ++ packH 16 (self.respSPI.getD [])).length =
      16 := by
    rw [List.length_append, length_packH 8, length_packH 8]
  simp only [Def.Header.octets, auto, Option.getD_none, List.append_assoc, field] at front ⊢
  rw [← List.append_assoc (packH 16 _), show 24 = 16 + 8 by rfl, ← List.drop_drop]
  rw [List.drop_left' (by simpa using front)]
  exact field_pack [(1, _), (1, _), (1, _), (1, _), (4, _)] 4 length [] rest

theorem kBlockSize_le (x : TransformID) : kBlockSize x ≤ 16 := by
  unfold kBlockSize
  split <;> decide

/-- What is left when as many octets as the checksum has are cut off at the end. -/
theorem substr_cut (raw : List UInt8) (n : Nat) (le : n ≤ raw.length) :
    (substr (some raw) 0 (some (raw.length - n : Int))).octets = raw.take (raw.length - n) := by
  rw [show (raw.length - n : Int) = (raw.length - n : Nat) by omega]
  have part := substr_part (some raw) 0 (raw.length - n)
  simp only [Nat.cast_zero, Nat.not_lt_zero, if_false, List.drop_zero, Str.octets_some] at part
  rw [part]
  rfl

section

variable (getaddrinfo : List UInt8 → List SockAddr)

/-- A message with an encrypted payload before the checksum at its end is replaced, and the
    message. `iv` and `checksum` have the sizes of the algorithms unless they are given. -/
structure Encrypts (message : Def.Message) (m : EncryptionMaterial) (e : Def.Encrypted)
    (raw : List UInt8) : Prop where
  shape : ∃ exchType nexttype next iv ciphertext before checksum,
    let generic := pack (e.fields next
      (e.length.getD (4 + m.bencr + List.length ciphertext + m.binteg)))
    let rest := Def.clear getaddrinfo message.payloads ++ (generic ++ iv ++ ciphertext ++ before)
    let whole := message.header.octets exchType nexttype (28 + rest.length) ++ rest
    raw = whole.take (whole.length - m.binteg) ++ checksum ∧
    iv.length = (match e.iv with | some iv => (unhex iv).length | none => m.bencr) ∧
    before.length = (match e.checksum with | some c => (unhex c).length | none => m.binteg) ∧
    checksum.length = before.length

/-- The octets of an encrypted payload. -/
theorem encrypted_shape (random : Random) (e : Def.Encrypted) (next : Nat)
    (m : EncryptionMaterial) (is_initiator : Bool) (plaintext : Str) :
    ∃ iv ciphertext before, kEncEncryptedPayload e next m is_initiator random plaintext =
        pack (e.fields next (e.length.getD (4 + m.bencr + List.length ciphertext + m.binteg))) ++
          iv ++ ciphertext ++ before ∧
      iv.length = (match e.iv with | some iv => (unhex iv).length | none => m.bencr) ∧
      before = (match e.checksum with | some c => unhex c | none => List.replicate m.binteg 0) := by
  unfold kEncEncryptedPayload
  extract_lets iv ciphertext length before
  refine ⟨iv, ciphertext, before, rfl, ?_, rfl⟩
  unfold iv
  cases e.iv with
  | none => simp
  | some iv => rfl

theorem generated (random : Random) (message : Def.Message)
    (material : Option EncryptionMaterial) (is_initiator : Bool) (raw : List UInt8)
    (run : kGenIKEv2 getaddrinfo random message material is_initiator = some raw) :
    ((∀ e, .E e ∉ message.payloads) ∧ ∃ exchType nexttype,
      raw = message.header.octets exchType nexttype
        (28 + (Def.clear getaddrinfo message.payloads).length) ++
          Def.clear getaddrinfo message.payloads) ∨
    ∃ m e, material = some m ∧ .E e ∈ message.payloads ∧
      (∀ e', .E e' ∈ message.payloads → e' = e) ∧ Encrypts getaddrinfo message m e raw := by
  simp only [kGenIKEv2, Option.bind_eq_bind, Option.bind_eq_some_iff] at run
  obtain ⟨collected, walk, exchType, -, run⟩ := run
  obtain ⟨next, kinds⟩ := collectPayloads_clear getaddrinfo {} message.payloads rfl collected walk
  simp only [Str.octets_none, List.nil_append] at next
  cases kinds with
  | inl none =>
      simp only [none.1, Str.len, next, Option.some.injEq] at run
      exact Or.inl ⟨none.2, exchType, _, run.symm⟩
  | inr one =>
      obtain ⟨e, nexttype, enc, mem, only⟩ := one
      cases material with
      | none => simp [enc] at run
      | some m =>
          refine Or.inr ⟨m, e, rfl, mem, only, ?_⟩
          obtain ⟨iv, ciphertext, before, octets, vector, sum⟩ := encrypted_shape random e
            nexttype m is_initiator collected.plaintext
          simp only [enc, next, octets, kGenEncryptedPayloadChecksum] at run
          have cut : ∀ l : List UInt8, 28 ≤ l.length →
              (substr (some l) 0 (some (l.length - m.binteg : Int))).octets =
                l.take (l.length - m.binteg) := by
            intro l long
            have small := kBlockSize_le m.integ_alg
            exact substr_cut l m.binteg (le_trans small (by omega))
          rw [cut _ (by simp [length_header])] at run
          cases given : e.checksum with
          | none =>
              simp only [given, Option.some.injEq] at run sum
              refine ⟨exchType, typeOf message.payloads, nexttype, iv, ciphertext, before, _,
                run.symm, vector, ?_, ?_⟩
              · simp [given, sum]
              · rw [m.length_integ, sum, List.length_replicate]
                rfl
          | some checksum =>
              simp only [given, Option.some.injEq] at run sum
              refine ⟨exchType, typeOf message.payloads, nexttype, iv, ciphertext, before,
                unhex checksum, run.symm, vector, ?_, by rw [sum]⟩
              simp [given, sum]

/-- Octets that are cut off at the end of a string, where they are all in its last part. -/
theorem take_cut (front behind : List UInt8) (n : Nat) (le : n ≤ behind.length) :
    (front ++ behind).take ((front ++ behind).length - n) =
      front ++ behind.take (behind.length - n) := by
  rw [List.length_append, Nat.add_sub_assoc le, List.take_length_add_append]

/-- When the octets that are cut off are all behind the fields of the encrypted payload. -/
theorem Encrypts.fields {message : Def.Message} {m : EncryptionMaterial} {e : Def.Encrypted}
    {raw : List UInt8} (encrypts : Encrypts getaddrinfo message m e raw)
    (length : message.header.length = none) (auto : e.length = none)
    (covers : ∀ c ∈ e.checksum, m.binteg ≤
      (match e.iv with | some iv => (unhex iv).length | none => m.bencr) + (unhex c).length) :
    ∃ iv text sum rest,
      iv = (match e.iv with | some iv => (unhex iv).length | none => m.bencr) ∧
      sum = (match e.checksum with | some c => (unhex c).length | none => m.binteg) ∧
      rest + m.binteg = iv + text + 2 * sum ∧
      raw.length = 32 + (Def.clear getaddrinfo message.payloads).length + rest ∧
      field raw 24 4 =
        (32 + (Def.clear getaddrinfo message.payloads).length + iv + text + sum) % 2 ^ 32 ∧
      field (raw.drop (28 + (Def.clear getaddrinfo message.payloads).length)) 2 2 =
        (4 + m.bencr + text + m.binteg) % 65536 := by
  obtain ⟨exchType, nexttype, next, iv, ciphertext, before, checksum, shape, vector, sum, same⟩ :=
    encrypts.shape
  have room : m.binteg ≤ iv.length + before.length := by
    cases given : e.checksum with
    | none => simp only [given] at sum; omega
    | some c =>
        have enough := covers c given
        rw [vector, sum, given]
        exact enough
  generalize Def.clear getaddrinfo message.payloads = clear at shape ⊢
  simp only [auto, Option.getD_none] at shape
  generalize generic : pack (e.fields next (4 + m.bencr + ciphertext.length + m.binteg)) = g
    at shape
  have four : g.length = 4 := by rw [← generic, length_pack]; rfl
  generalize total : 28 + (clear ++ (g ++ iv ++ ciphertext ++ before)).length = n at shape
  have twentyeight := length_header message.header exchType nexttype n
  -- What is cut off leaves the header, the payloads in front and the fields as they are.
  have kept : raw = message.header.octets exchType nexttype n ++ (clear ++ (g ++
      ((iv ++ ciphertext ++ before).take
        ((iv ++ ciphertext ++ before).length - m.binteg) ++ checksum))) := by
    have cut := take_cut (message.header.octets exchType nexttype n ++ (clear ++ g))
      (iv ++ ciphertext ++ before) m.binteg (by simp only [List.length_append]; omega)
    simp only [List.append_assoc] at cut shape ⊢
    rw [shape, cut]
    simp only [List.append_assoc]
  refine ⟨iv.length, ciphertext.length, before.length,
    (iv ++ ciphertext ++ before).length - m.binteg + checksum.length, vector, sum, ?_, ?_, ?_,
    ?_⟩
  · simp only [List.length_append]
    omega
  · rw [kept]
    simp only [List.length_append, List.length_take, twentyeight, four]
    omega
  · rw [kept, header_said _ _ _ _ _ length, ← total]
    simp only [List.length_append, four]
    congr 1
    omega
  · rw [kept, ← List.drop_drop, List.drop_left' twentyeight, List.drop_left' rfl, ← generic,
      ← List.append_nil (e.fields _ _), field_length]

/-- What is emitted for the payloads but the encrypted one, in any message. -/
theorem payloads_measured (message : Def.Message) (automatic : message.Automatic) :
    (∀ before payload after octets, message.payloads = before ++ payload :: after →
      encodingFunctions getaddrinfo (typeOf after) payload = some octets → octets.len < 2 ^ 16 →
        payload.Measured getaddrinfo octets.octets) ↔
    ∀ before payload after octets, message.payloads = before ++ payload :: after →
      encodingFunctions getaddrinfo (typeOf after) payload = some octets → octets.len < 2 ^ 16 →
        payload.Regular getaddrinfo := by
  have each : ∀ before payload after octets, message.payloads = before ++ payload :: after →
      encodingFunctions getaddrinfo (typeOf after) payload = some octets → octets.len < 2 ^ 16 →
      (payload.Measured getaddrinfo octets.octets ↔ payload.Regular getaddrinfo) := by
    intro before payload after octets at_ encoded fits
    apply payload_measured getaddrinfo payload (typeOf after) octets _ encoded fits
    exact automatic.payloads payload (by simp [at_])
  constructor
  · intro measured before payload after octets at_ encoded fits
    exact (each before payload after octets at_ encoded fits).mp
      (measured before payload after octets at_ encoded fits)
  · intro regular before payload after octets at_ encoded fits
    exact (each before payload after octets at_ encoded fits).mpr
      (regular before payload after octets at_ encoded fits)

/-- The encrypted payload and the header, where only the checksum is cut off. -/
theorem Encrypts.measured_iff {message : Def.Message} {m : EncryptionMaterial}
    {e : Def.Encrypted} {raw : List UInt8} (encrypts : Encrypts getaddrinfo message m e raw)
    (length : message.header.length = none) (auto : e.length = none)
    (covers : ∀ c ∈ e.checksum, m.binteg ≤
      (match e.iv with | some iv => (unhex iv).length | none => m.bencr) + (unhex c).length)
    (fits : raw.length < 2 ^ 32) :
    let octets := raw.drop (28 + (Def.clear getaddrinfo message.payloads).length)
    (field raw 24 4 = raw.length ∧
      (octets.length < 2 ^ 16 → field octets 2 2 = octets.length)) ↔
    (∀ c ∈ e.checksum, (unhex c).length = m.binteg) ∧
      (octets.length < 2 ^ 16 → ∀ iv ∈ e.iv, (unhex iv).length = m.bencr) := by
  obtain ⟨iv, text, sum, rest, vector, check, total, long, said, inner⟩ :=
    encrypts.fields getaddrinfo length auto covers
  have bencr := kBlockSize_le m.encr_alg
  have binteg := kBlockSize_le m.integ_alg
  change m.bencr ≤ 16 at bencr
  change m.binteg ≤ 16 at binteg
  have checksum : (∀ c ∈ e.checksum, (unhex c).length = m.binteg) ↔ sum = m.binteg := by
    cases given : e.checksum <;> simp [check, given]
  have initialization : (∀ v ∈ e.iv, (unhex v).length = m.bencr) ↔ iv = m.bencr := by
    cases given : e.iv <;> simp [vector, given]
  intro octets
  have size : octets.length = 4 + rest := by
    simp only [octets, List.length_drop]
    omega
  rw [said, inner, checksum, initialization, size, long]
  rw [long] at fits
  generalize (Def.clear getaddrinfo message.payloads).length = clear at fits ⊢
  constructor
  · intro measured
    have same : sum = m.binteg := by omega
    refine ⟨same, fun small => ?_⟩
    have inside := measured.2 small
    omega
  · intro regular
    obtain ⟨same, regular⟩ := regular
    refine ⟨by omega, fun small => ?_⟩
    have inside := regular small
    omega

/-- Where the condition holds every length and every number in a message is right, and only
    there, as long as nothing but checksums is cut off. -/
theorem lengths_iff (random : Random) (message : Def.Message)
    (material : Option EncryptionMaterial) (is_initiator : Bool) (raw : List UInt8)
    (automatic : message.Automatic)
    (run : kGenIKEv2 getaddrinfo random message material is_initiator = some raw) :
    (message.Regular getaddrinfo material raw → message.Measured getaddrinfo raw) ∧
    (message.Covered material → message.Measured getaddrinfo raw →
      message.Regular getaddrinfo material raw) := by
  have payloads := payloads_measured getaddrinfo message automatic
  cases generated getaddrinfo random message material is_initiator raw run with
  | inl plain =>
      obtain ⟨none, exchType, nexttype, shape⟩ := plain
      have said : field raw 24 4 = raw.length % 2 ^ 32 := by
        rw [shape, header_said _ _ _ _ _ automatic.length, List.length_append, length_header]
      constructor
      · intro regular
        refine ⟨fun fits => ?_, payloads.mpr regular.payloads, fun e mem => absurd mem (none e)⟩
        rw [said, Nat.mod_eq_of_lt fits]
      · intro _ measured
        exact ⟨payloads.mp measured.payloads, fun _ e mem => absurd mem (none e),
          fun _ e mem => absurd mem (none e)⟩
  | inr crypt =>
      obtain ⟨m, e, given, mem, only, encrypts⟩ := crypt
      have auto : e.length = none := automatic.payloads (.E e) mem
      have known := fun covers fits =>
        encrypts.measured_iff getaddrinfo automatic.length auto covers fits
      constructor
      · intro regular
        have right : raw.length < 2 ^ 32 → _ := fun fits =>
          (known (fun c mem' => by
            rw [regular.checksum fits e mem m given c mem']
            exact Nat.le_add_left _ _) fits).mpr
            ⟨regular.checksum fits e mem m given, regular.iv fits e mem m given⟩
        refine ⟨fun fits => (right fits).1, payloads.mpr regular.payloads, ?_⟩
        intro e' mem' fits
        exact (right fits).2
      · intro covered measured
        have right : raw.length < 2 ^ 32 → _ := fun fits =>
          (known (covered e mem m given) fits).mp ⟨measured.length fits, measured.encrypted e mem fits⟩
        refine ⟨payloads.mp measured.payloads, ?_, ?_⟩
        · intro fits e' mem' m' given' c mem''
          cases only e' mem'
          cases Option.some.inj (given.symm.trans given')
          exact (right fits).1 c mem''
        · intro fits e' mem' m' given' small iv mem''
          cases only e' mem'
          cases Option.some.inj (given.symm.trans given')
          exact (right fits).2 small iv mem''

end

/-- The only payload of a message. -/
theorem single {payload x : Def.Payload} {before after : List Def.Payload}
    (at_ : [x] = before ++ payload :: after) : payload = x ∧ after = [] := by
  cases before with
  | nil =>
      simp only [List.nil_append, List.cons.injEq] at at_
      exact ⟨at_.1.symm, at_.2.symm⟩
  | cons first before => simp at at_

/-- A key of two octets. -/
theorem lengths_key :
    Def.Message.Measured (fun _ => []) ⟨{}, [.KE { publicKey := some [0, 1, 0, 2] }]⟩
      [0, 0, 0, 0, 0, 0, 0, 0, 0, 0, 0, 0, 0, 0, 0, 0, 34, 0x20, 0, 0, 0, 0, 0, 0, 0, 0, 0, 38,
        0, 0, 0, 10, 0, 0, 0, 0, 1, 2] := by
  refine (lengths_iff (fun _ => []) (fun n => Vector.replicate n 0)
    ⟨{}, [.KE { publicKey := some [0, 1, 0, 2] }]⟩ none true _ ?_ (by rfl)).1 ?_
  · exact ⟨rfl, by simp [Def.Payload.Automatic]⟩
  · refine ⟨?_, by simp, by simp⟩
    intro before payload after octets at_ encoded fits
    obtain ⟨rfl, rfl⟩ := single at_
    exact ⟨2, rfl⟩

/-- All digits of a payload without a definition are counted: six octets say that they are
    eight. -/
theorem not_lengths :
    ∃ (message : Def.Message) (raw : List UInt8), message.Automatic ∧
      (∀ getaddrinfo random, kGenIKEv2 getaddrinfo random message none true = some raw) ∧
      ∀ getaddrinfo, ¬ message.Measured getaddrinfo raw := by
  refine ⟨⟨{}, [.UNDEFINED { type := some (.num 200), data := some [0, 1, 0, 2] }]⟩,
    [0, 0, 0, 0, 0, 0, 0, 0, 0, 0, 0, 0, 0, 0, 0, 0, 200, 0x20, 0, 0, 0, 0, 0, 0, 0, 0, 0, 34,
      0, 0, 0, 8, 1, 2], ?_, fun _ _ => rfl, ?_⟩
  · exact ⟨rfl, by simp [Def.Payload.Automatic]⟩
  · intro getaddrinfo measured
    have said := measured.payloads [] _ [] (some [0, 0, 0, 8, 1, 2]) rfl rfl (by decide)
    exact absurd said.1 (by decide)

end Tahi.Ike

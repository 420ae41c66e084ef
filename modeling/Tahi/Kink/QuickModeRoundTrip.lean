import Tahi.Kink.Cutting
import Tahi.Kink.QuickMode

/-! # What comes back of the quick mode payloads

What the decoders make of the octets that the encoders make of some payloads, as long as these
end where the decoders look for the next ones, and which of the payloads it is the same as.
-/

namespace Tahi.Kink

open Perl FuelLoop

/-! ## What has to come back -/

/-- The type and the octets of the value of an attribute. -/
abbrev AttributeContent := Nat × List UInt8

structure TransformContent where
  number : Option Nat
  id : Option Nat
  attributes : List AttributeContent
deriving DecidableEq, Repr

structure ProposalContent where
  number : Option Nat
  protocolId : Option Nat
  spi : List Digit
  transforms : List TransformContent
deriving DecidableEq, Repr

inductive Content where
  | SA (groups : List (List ProposalContent))
  | KE (data : List Digit)
  | Nonce (data : List Digit)
  | Notification (data : List Digit)
  | Delete (spis : List (List Digit))
  | other
deriving DecidableEq, Repr

def AttributeValue.octets : AttributeValue → List UInt8
  | .short value => packInt 2 (value.getD 0)
  | .long _ value => value.octets

def SAAttribute.content (a : SAAttribute) : AttributeContent := (a.type, a.value.octets)

def Transform.content (t : Transform) : TransformContent :=
  ⟨t.number, t.id, t.attributes.map SAAttribute.content⟩

def Proposal.content (p : Proposal) : ProposalContent :=
  ⟨p.number, p.protocolId, p.spi, p.transforms.map Transform.content⟩

def Body.content : Body → Content
  | .SA _ _ proposals => .SA (proposals.map (·.map Proposal.content))
  | .KE data => .KE data
  | .Nonce data => .Nonce data
  | .Notification _ _ _ _ _ data => .Notification data
  | .Delete _ _ _ _ spis => .Delete spis
  | _ => .other

namespace Quick

def Attribute.content : Attribute → AttributeContent
  | .short _ type value => (type, packInt 2 value.toNat)
  | .long type value => (type, value)

def Transform.content (t : Transform) : TransformContent :=
  ⟨some t.number.toNat, some t.id.toNat, t.attributes.map Attribute.content⟩

def Proposal.content (p : Proposal) : ProposalContent :=
  ⟨some p.number.toNat, some p.protocolId.toNat, sprintf08x (some p.spi.toNat),
    p.transforms.map Transform.content⟩

def Body.content : Body → Content
  | .SA _ _ groups => .SA (groups.map fun g => g.proposals.map Proposal.content)
  | .KE data => .KE (hex data)
  | .Nonce data => .Nonce (hex data)
  | .Notification _ _ _ _ _ data => .Notification (hex data)
  | .Delete _ _ _ spis => .Delete (spis.map fun spi => sprintf08x (some spi.toNat))

/-- The type that leads to a list of payloads. -/
def firstType : List Payload → Nat
  | [] => 0
  | p :: _ => p.body.type

/-- Each payload names the one that follows. -/
def Linked : List Payload → Prop
  | [] => True
  | p :: ps => p.nextPayload.toNat = firstType ps ∧ Linked ps

/-- The length fields have room for the lengths. -/
def Fits (ps : List Payload) : Prop := ∀ p ∈ ps, p.octets.length < 2 ^ 16

instance : DecidablePred Fits :=
  fun ps => inferInstanceAs (Decidable (∀ p ∈ ps, p.octets.length < 2 ^ 16))

/-- The payloads are decoded from what they are encoded to, as many in the same order and with the
    same content. -/
def RoundTrips (ps : List Payload) : Prop :=
  ∃ octets decoded, encode_ISAKMP_Payload (ps.map Payload.define) = .ok octets ∧
    Gives (fun fuel data => decode_ISAKMP_Payload fuel data (some (firstType ps))) (some octets)
      (.ok decoded) ∧
    decoded.map (fun payload => payload.body.content) = ps.map fun p => p.body.content

/-! ## What does come back -/

/-- The value of a long attribute begins with its length. -/
def Attribute.decoded : Attribute → AttributeContent
  | .short _ type value => (type, packInt 2 value.toNat)
  | .long type value => (type, (packInt 2 value.length ++ value).take value.length)

def Transform.decoded (t : Transform) : TransformContent :=
  ⟨some t.number.toNat, some t.id.toNat, t.attributes.map Attribute.decoded⟩

def Proposal.decoded (p : Proposal) : ProposalContent :=
  ⟨some p.number.toNat, some p.protocolId.toNat, sprintf08x (some p.spi.toNat),
    p.transforms.map Transform.decoded⟩

/-- Each proposal is a group of its own, and there is one SPI at most. -/
def Body.decoded : Body → Content
  | .SA _ _ groups => .SA ((groups.flatMap Group.proposals).map fun p => [p.decoded])
  | .KE data => .KE (hex data)
  | .Nonce data => .Nonce (hex data)
  | .Notification _ _ _ _ _ data => .Notification (hex data)
  | .Delete _ _ _ spis =>
      .Delete (spis.getLast?.toList.map fun spi => sprintf08x (some spi.toNat))

section Attributes

/-- The first bit of 16 apart from the others. -/
theorem high_bit {n : Nat} (low : n < 2 ^ 15) :
    ((0x8000 + n) &&& 0x8000) >>> 15 = 1 ∧ (0x8000 + n) &&& 0x7fff = n ∧
      (n &&& 0x8000) >>> 15 = 0 ∧ n &&& 0x7fff = n := by
  rw [word_high, word_high, word_low, word_low]
  omega

/-- An attribute is cut off where it ends, but a long value is taken from the wrong place. -/
theorem decode_SA_Attribute_octets (a : Attribute) (rest : List UInt8)
    (fits : a.octets.length < 2 ^ 16) :
    (decode_SA_Attribute (some (a.octets ++ rest))).remain = some rest ∧
      (decode_SA_Attribute (some (a.octets ++ rest))).content = a.decoded := by
  cases a with
  | short af type value =>
      obtain ⟨set, low, -, -⟩ := high_bit type.isLt
      let head := packInt 2 (0x8000 + type)
      let tail := packInt 2 value.toNat
      have start : (Attribute.short af type value).octets ++ rest = head ++ (tail ++ rest) := by
        simp [Attribute.octets, head, tail]
      have first : unpackInt 2 (some (head ++ (tail ++ rest))) = some (0x8000 + type.val) :=
        unpackInt_packInt (show 0x8000 + type.val < 256 ^ 2 by have := type.isLt; omega) _
      have second : unpackInt 2 (substr (some (head ++ (tail ++ rest))) 2 (some 2)) =
          some value.toNat := by
        have cut : substr (some (head ++ (tail ++ rest))) 2 (some 2) = some (tail ++ []) := by
          rw [List.append_nil]
          exact substr_middle head (tail ++ rest) 2
        rw [cut]
        exact unpackInt_packInt value.toNat_lt []
      have left : substr (some (head ++ (tail ++ rest))) 4 none = some rest := by
        rw [← List.append_assoc]
        exact substr_behind (head ++ tail) rest
      simp only [start, decode_SA_Attribute, first, Option.getD_some, set, low, ne_eq, one_ne_zero,
        not_false_eq_true, if_true, left, second, true_and]
      rfl
  | long type value =>
      obtain ⟨-, -, unset, low⟩ := high_bit type.isLt
      have length : value.length < 2 ^ 16 := by
        simp only [Attribute.octets, List.length_append] at fits
        omega
      let head := packInt 2 type
      let size := packInt 2 value.length
      have start : (Attribute.long type value).octets ++ rest =
          head ++ (size ++ (value ++ rest)) := by
        simp [Attribute.octets, head, size]
      have first : unpackInt 2 (some (head ++ (size ++ (value ++ rest)))) = some type.val :=
        unpackInt_packInt (show type.val < 256 ^ 2 by have := type.isLt; omega) _
      have second : unpackInt 2 (substr (some (head ++ (size ++ (value ++ rest)))) 2 (some 2)) =
          some value.length := by
        have cut : substr (some (head ++ (size ++ (value ++ rest)))) 2 (some 2) =
            some (size ++ []) := by
          rw [List.append_nil]
          exact substr_middle head (size ++ (value ++ rest)) 2
        rw [cut]
        exact unpackInt_packInt length []
      have left : substr (some (head ++ (size ++ (value ++ rest)))) (4 + value.length) none =
          some rest := by
        have behind := substr_behind (head ++ size ++ value) rest
        have length : ((head ++ size ++ value).length : Int) = 4 + value.length := by
          simp only [List.length_append, head, size, length_packInt]
          omega
        rwa [length, List.append_assoc, List.append_assoc] at behind
      have wrong : substr (some (head ++ (size ++ (value ++ rest)))) 2 (some value.length) =
          some ((size ++ value).take value.length) := by
        have cut := substr_middle head (size ++ (value ++ rest)) value.length
        rw [← List.append_assoc size, List.take_append_of_le_length] at cut
        · exact cut
        · simp [size]
      simp only [start, decode_SA_Attribute, first, Option.getD_some, unset, low, ne_eq,
        not_true_eq_false, if_false, left, second, wrong, true_and]
      rfl

end Attributes

section Lists

theorem map_eq_of_forall₂ {α β γ : Type} {f : α → γ} {g : β → γ} {l : List α} {m : List β}
    (same : List.Forall₂ (fun a b => g b = f a) l m) : m.map g = l.map f := by
  induction same with
  | nil => rfl
  | cons same _ ih => simp [same, ih]

theorem attributes_octets_long (a : Attribute) : 1 < a.octets.length := by
  cases a <;> simp [Attribute.octets]
  omega

theorem decode_SA_Attributes_octets (l : List Attribute)
    (fits : (l.flatMap Attribute.octets).length < 2 ^ 16) :
    ∃ xs, Gives decode_SA_Attributes (some (l.flatMap Attribute.octets)) xs ∧
      xs.map SAAttribute.content = l.map Attribute.decoded := by
  have each : ∀ a ∈ l, ∀ rest, True ∨ rest = [] → ∃ x,
      Gives (fun _ data => some (decode_SA_Attribute data)) (some (a.octets ++ rest)) x ∧
        x.remain.octets = rest ∧ x.content = a.decoded := by
    intro a mem rest _
    have := length_le_flatMap Attribute.octets mem
    obtain ⟨left, content⟩ := decode_SA_Attribute_octets a rest (by omega)
    exact ⟨_, (gives_pure _ _).mpr rfl, congrArg Str.octets left, content⟩
  obtain ⟨xs, pieces, same⟩ :=
    Pieces.of_list attributes_octets_long l each fun _ _ => trivial
  have gives := Pieces.gives (fun result attr => result ++ [attr]) pieces (grows_pure _)
    (Str.octets_some _) []
  rw [foldl_push, List.nil_append] at gives
  exact ⟨xs, gives, map_eq_of_forall₂ same⟩

/-! The template of a decoder gives back what was packed with it. -/

theorem Transform.length_octets (t : Transform) : t.octets.length = 8 + t.rest.length := by
  simp [Transform.octets, Transform.fields]
  omega

theorem Transform.unpack_octets (t : Transform) (rest : List UInt8)
    (fits : t.octets.length < 2 ^ 16) :
    transformFields (some (t.octets ++ rest)) = t.fields.map fun f => .num f.2 := by
  have length := t.length_octets
  have inRange : ∀ f ∈ t.fields, f.2 < 256 ^ f.1 := by
    simp only [Transform.fields, List.forall_mem_cons]
    refine ⟨t.nextPayload.toNat_lt, t.reserved.toNat_lt, ?_, t.number.toNat_lt, t.id.toNat_lt,
      t.reserved2.toNat_lt, by simp⟩
    omega
  have unpacked := unpack_pack t.fields inRange (t.rest ++ rest)
  rw [← List.append_assoc] at unpacked
  exact unpacked

theorem decode_Transform_Payload_octets (t : Transform) (rest : List UInt8)
    (fits : t.octets.length < 2 ^ 16) (whole : 4 ∣ t.octets.length ∨ rest = []) :
    ∃ x, Gives decode_Transform_Payload (some (t.octets ++ rest)) x ∧
      x.common.remain.octets = rest ∧ x.content = t.decoded := by
  have fields := t.unpack_octets rest fits
  have length := t.length_octets
  have field : (transformFields (some (t.octets ++ rest)))[2]? = some (.num t.octets.length) := by
    rw [fields, length]
    rfl
  have behind : transformRest (some (t.octets ++ rest)) = some t.rest := by
    unfold transformRest
    simp only [common_self field, common_length_eq _ field]
    exact substr_behind_length (pack t.fields) t.rest (by omega)
  obtain ⟨attributes, gives, same⟩ := decode_SA_Attributes_octets t.attributes
    (show t.rest.length < 2 ^ 16 by omega)
  have inside :
      Gives decode_SA_Attributes (transformRest (some (t.octets ++ rest))) attributes := by
    rw [behind]
    exact gives
  refine ⟨_, gives_map.mpr ⟨attributes, inside, rfl⟩, ?_, ?_⟩
  · exact common_remain_octets field (by omega) whole
  · simp [Kink.Transform.content, Transform.decoded, fields, Transform.fields, Item.num?, same]

theorem decode_Transforms_octets (l : List Transform)
    (fits : (l.flatMap Transform.octets).length < 2 ^ 16)
    (whole : ∀ t ∈ l.dropLast, 4 ∣ t.octets.length) :
    ∃ xs, Gives decode_Transforms (some (l.flatMap Transform.octets)) xs ∧
      xs.map Kink.Transform.content = l.map Transform.decoded := by
  have each : ∀ t ∈ l, ∀ rest, 4 ∣ t.octets.length ∨ rest = [] → ∃ x,
      Gives decode_Transform_Payload (some (t.octets ++ rest)) x ∧
        x.common.remain.octets = rest ∧ x.content = t.decoded := by
    intro t mem rest here
    have := length_le_flatMap Transform.octets mem
    exact decode_Transform_Payload_octets t rest (by omega) here
  have long (t : Transform) : 1 < t.octets.length := by
    rw [t.length_octets]
    omega
  obtain ⟨xs, pieces, same⟩ := Pieces.of_list long l each whole
  have gives := Pieces.gives (fun result transform => result ++ [transform]) pieces
    decode_Transform_Payload_grows (Str.octets_some _) []
  rw [foldl_push, List.nil_append] at gives
  exact ⟨xs, gives, map_eq_of_forall₂ same⟩

theorem Proposal.length_octets (p : Proposal) : p.octets.length = 12 + p.rest.length := by
  simp [Proposal.octets, Proposal.fields]
  omega

theorem Proposal.unpack_octets (p : Proposal) (rest : List UInt8)
    (fits : p.octets.length < 2 ^ 16) :
    proposalFields (some (p.octets ++ rest)) = p.fields.map fun f => .num f.2 := by
  have length := p.length_octets
  have inRange : ∀ f ∈ p.fields, f.2 < 256 ^ f.1 := by
    simp only [Proposal.fields, List.forall_mem_cons]
    refine ⟨p.nextPayload.toNat_lt, p.reserved.toNat_lt, ?_, p.number.toNat_lt,
      p.protocolId.toNat_lt, by decide, p.numOfTransforms.toNat_lt, p.spi.toNat_lt, by simp⟩
    omega
  have unpacked := unpack_pack p.fields inRange (p.rest ++ rest)
  rw [← List.append_assoc] at unpacked
  exact unpacked

theorem decode_Proposal_Payload_octets (p : Proposal) (rest : List UInt8)
    (fits : p.octets.length < 2 ^ 16) (inner : ∀ t ∈ p.transforms.dropLast, 4 ∣ t.octets.length)
    (whole : 4 ∣ p.octets.length ∨ rest = []) :
    ∃ x, Gives decode_Proposal_Payload (some (p.octets ++ rest)) x ∧
      x.common.remain.octets = rest ∧ x.content = p.decoded := by
  have fields := p.unpack_octets rest fits
  have length := p.length_octets
  have field : (proposalFields (some (p.octets ++ rest)))[2]? = some (.num p.octets.length) := by
    rw [fields, length]
    rfl
  have behind : proposalRest (some (p.octets ++ rest)) = some p.rest := by
    unfold proposalRest
    simp only [common_self field, common_length_eq _ field]
    exact substr_behind_length (pack p.fields) p.rest (by omega)
  obtain ⟨transforms, gives, same⟩ := decode_Transforms_octets p.transforms
    (show p.rest.length < 2 ^ 16 by omega) inner
  have inside : Gives decode_Transforms (proposalRest (some (p.octets ++ rest))) transforms := by
    rw [behind]
    exact gives
  refine ⟨_, gives_map.mpr ⟨transforms, inside, rfl⟩, ?_, ?_⟩
  · exact common_remain_octets field (by omega) whole
  · simp [Kink.Proposal.content, Proposal.decoded, fields, Proposal.fields, Item.num?, same]

/-- The proposals of all groups, each in a group of its own. -/
theorem decode_Proposals_octets (l : List Proposal)
    (fits : (l.flatMap Proposal.octets).length < 2 ^ 16)
    (inner : ∀ p ∈ l, ∀ t ∈ p.transforms.dropLast, 4 ∣ t.octets.length)
    (whole : ∀ p ∈ l.dropLast, 4 ∣ p.octets.length) :
    ∃ groups, Gives decode_Proposals (some (l.flatMap Proposal.octets)) groups ∧
      groups.map (·.map Kink.Proposal.content) = l.map fun p => [p.decoded] := by
  have each : ∀ p ∈ l, ∀ rest, 4 ∣ p.octets.length ∨ rest = [] → ∃ x,
      Gives decode_Proposal_Payload (some (p.octets ++ rest)) x ∧
        x.common.remain.octets = rest ∧ x.content = p.decoded := by
    intro p mem rest here
    have := length_le_flatMap Proposal.octets mem
    exact decode_Proposal_Payload_octets p rest (by omega) (inner p mem) here
  have long (p : Proposal) : 1 < p.octets.length := by
    rw [p.length_octets]
    omega
  obtain ⟨xs, pieces, same⟩ := Pieces.of_list long l each whole
  have gives := Pieces.gives (sortProposal none) pieces decode_Proposal_Payload_grows
    (Str.octets_some _) []
  refine ⟨_, gives, ?_⟩
  have apart (xs : List Kink.Proposal) (acc : List (List Kink.Proposal)) :
      xs.foldl (sortProposal none) acc = acc ++ xs.map fun x => [x] := by
    induction xs generalizing acc with
    | nil => simp
    | cons x xs ih => simp [sortProposal, ih]
  rw [apart, List.nil_append, List.map_map]
  have contents := congrArg (List.map fun c => [c]) (map_eq_of_forall₂ same)
  rw [List.map_map, List.map_map] at contents
  exact contents

end Lists

section Payloads

/-- The parts inside a payload end where the decoders look for the next ones. -/
def Body.Aligned : Body → Prop
  | .SA _ _ groups =>
      let proposals := groups.flatMap Group.proposals
      (∀ p ∈ proposals.dropLast, 4 ∣ p.octets.length) ∧
        ∀ p ∈ proposals, ∀ t ∈ p.transforms.dropLast, 4 ∣ t.octets.length
  | _ => True

instance : DecidablePred Body.Aligned
  | .SA _ _ groups =>
      inferInstanceAs (Decidable
        ((∀ p ∈ (groups.flatMap Group.proposals).dropLast, 4 ∣ p.octets.length) ∧
          ∀ p ∈ groups.flatMap Group.proposals,
            ∀ t ∈ p.transforms.dropLast, 4 ∣ t.octets.length))
  | .KE _ | .Nonce _ | .Notification .. | .Delete .. => inferInstanceAs (Decidable True)

/-- Each payload, and each part of one, ends at a multiple of four octets, unless it is the last in
    its list. -/
def Aligned (ps : List Payload) : Prop :=
  (∀ p ∈ ps.dropLast, 4 ∣ p.octets.length) ∧ ∀ p ∈ ps, p.body.Aligned

instance : DecidablePred Aligned := fun ps =>
  inferInstanceAs (Decidable ((∀ p ∈ ps.dropLast, 4 ∣ p.octets.length) ∧ ∀ p ∈ ps, p.body.Aligned))

variable (p : Payload)

theorem Payload.length_octets :
    p.octets.length = 4 + (p.body.fields.map Prod.fst).sum + p.body.rest.length := by
  simp [Payload.octets, Payload.fields]
  omega

theorem Payload.unpack_octets (rest : List UInt8) (fits : p.octets.length < 2 ^ 16) :
    unpack (p.fields.map fun f => .int f.1) (p.octets ++ rest) =
      p.fields.map fun f => .num f.2 := by
  have length := p.length_octets
  have inRange : ∀ f ∈ p.body.fields, f.2 < 256 ^ f.1 := by
    cases p.body with
    | SA doi situation groups => simp [Body.fields, doi.toNat_lt, situation.toNat_lt]
    | KE data => simp [Body.fields]
    | Nonce data => simp [Body.fields]
    | Notification doi protocolId spiSize type spi data =>
        simp [Body.fields, doi.toNat_lt, protocolId.toNat_lt, spiSize.toNat_lt, type.toNat_lt,
          spi.toNat_lt]
    | Delete doi protocolId numOfSpis spis =>
        simp [Body.fields, doi.toNat_lt, protocolId.toNat_lt, numOfSpis.toNat_lt]
  have all : ∀ f ∈ p.fields, f.2 < 256 ^ f.1 := by
    simp only [Payload.fields, List.cons_append, List.nil_append, List.forall_mem_cons]
    refine ⟨p.nextPayload.toNat_lt, p.reserved.toNat_lt, ?_, inRange⟩
    omega
  rw [Payload.octets, List.append_assoc]
  exact unpack_pack p.fields all _

/-- What all decoders make of the fields a payload begins with, and where they find the rest. -/
theorem Payload.common_eq {p : Payload} {rest : List UInt8} {v : List Item} {pos : Nat}
    (fields : v = p.fields.map fun f => .num f.2) (start : (pack p.fields).length = pos)
    (fits : p.octets.length < 2 ^ 16) (whole : 4 ∣ p.octets.length ∨ rest = []) :
    let c := common (some (p.octets ++ rest)) v
    substr c.self pos none = some p.body.rest ∧
      substr c.self pos (some (c.length - pos)) = some p.body.rest ∧
      c.remain.octets = rest ∧ c.nextPayload = some p.nextPayload.toNat := by
  have field : v[2]? = some (.num p.octets.length) := by
    rw [fields, p.length_octets]
    rfl
  have self : (common (some (p.octets ++ rest)) v).self = some (pack p.fields ++ p.body.rest) :=
    common_self field
  have length : (p.octets.length - pos : Int) = p.body.rest.length := by
    rw [← start, Payload.octets, List.length_append]
    omega
  rw [← start] at length ⊢
  simp only [self, common_length_eq _ field]
  refine ⟨substr_behind _ _, substr_behind_length _ _ length, ?_, ?_⟩
  · exact common_remain_octets field (by omega) whole
  · rw [fields]
    rfl

theorem decodeSpis_last (spis : List UInt32) :
    decodeSpis (some ((spis.getLast?.map fun spi => packInt 4 spi.toNat).getD [])) =
      spis.getLast?.toList.map fun spi => sprintf08x (some spi.toNat) := by
  cases spis.getLast? with
  | none => rfl
  | some spi =>
      have octets : substr (some (packInt 4 spi.toNat)) 0 (some 4) =
          some (packInt 4 spi.toNat) := by
        have first := substr_first (some (packInt 4 spi.toNat)) 4
        rwa [Str.octets_some, List.take_of_length_le (by simp)] at first
      have number := unpackInt_packInt (show spi.toNat < 256 ^ 4 from spi.toNat_lt) []
      rw [List.append_nil] at number
      simp [decodeSpis, octets, number]

/-- The decoder of the type gets what is behind the fixed part of a payload. -/
theorem decode_payload (rest : List UInt8) (fits : p.octets.length < 2 ^ 16)
    (inner : p.body.Aligned) (whole : 4 ∣ p.octets.length ∨ rest = []) :
    ∃ decode x, isakmp_decode_functions p.body.type = some decode ∧
      Gives decode (some (p.octets ++ rest)) x ∧ x.common.remain.octets = rest ∧
      x.common.nextPayload = some p.nextPayload.toNat ∧ x.body.content = p.body.decoded := by
  have fields := p.unpack_octets rest fits
  have short : p.body.rest.length < 2 ^ 16 := by
    have length := p.length_octets
    omega
  obtain ⟨nextPayload, reserved, body⟩ := p
  cases body with
  | SA doi situation groups =>
      obtain ⟨-, behind, left, next⟩ := Payload.common_eq fields rfl fits whole
      obtain ⟨apart, deep⟩ := inner
      obtain ⟨proposals, gives, same⟩ := decode_Proposals_octets _ short deep apart
      let p : Payload := ⟨nextPayload, reserved, .SA doi situation groups⟩
      have cut : saRest (some (p.octets ++ rest)) =
          some ((groups.flatMap Group.proposals).flatMap Proposal.octets) := behind
      have inside : Gives decode_Proposals (saRest (some (p.octets ++ rest))) proposals := by
        rw [cut]
        exact gives
      refine ⟨_, _, rfl, gives_map.mpr ⟨proposals, inside, rfl⟩, left, next, ?_⟩
      exact congrArg Content.SA same
  | KE data =>
      obtain ⟨behind, -, left, next⟩ := Payload.common_eq fields rfl fits whole
      refine ⟨_, _, rfl, (gives_pure decode_KE_Payload _).mpr rfl, left, next, ?_⟩
      exact congrArg (fun s : Str => Content.KE (hex s.octets)) behind
  | Nonce data =>
      obtain ⟨behind, -, left, next⟩ := Payload.common_eq fields rfl fits whole
      refine ⟨_, _, rfl, (gives_pure decode_Nonce_Payload _).mpr rfl, left, next, ?_⟩
      exact congrArg (fun s : Str => Content.Nonce (hex s.octets)) behind
  | Notification doi protocolId spiSize type spi data =>
      obtain ⟨-, behind, left, next⟩ := Payload.common_eq fields rfl fits whole
      refine ⟨_, _, rfl, (gives_pure decode_Notification_Payload _).mpr rfl, left, next, ?_⟩
      exact congrArg (fun s : Str => Content.Notification (hex s.octets)) behind
  | Delete doi protocolId numOfSpis spis =>
      obtain ⟨-, behind, left, next⟩ := Payload.common_eq fields rfl fits whole
      refine ⟨_, _, rfl, (gives_pure decode_Delete_Payload _).mpr rfl, left, next, ?_⟩
      have spisData := congrArg (fun s : Str => Content.Delete (decodeSpis s)) behind
      exact spisData.trans (congrArg Content.Delete (decodeSpis_last spis))

theorem Body.type_ne_zero (body : Body) : body.type ≠ 0 := by
  cases body <;> simp [Body.type]

theorem Payload.long : 1 < p.octets.length := by
  rw [p.length_octets]
  omega

/-- The loop over the payloads decodes one after the other. -/
theorem run_octets (ps : List Payload) (fits : Fits ps) (linked : Linked ps) (aligned : Aligned ps)
    {s : PayloadsState QuickModePayload} (octets : s.data.octets = ps.flatMap Payload.octets)
    (type : s.next_payload.getD 0 = firstType ps) :
    ∃ decoded, Gives (run quickModeTurn) s (.ok (s.payloads ++ decoded)) ∧
      decoded.map (fun payload => payload.body.content) = ps.map fun p => p.body.decoded := by
  induction ps generalizing s with
  | nil =>
      refine ⟨[], run_done ⟨0, ?_⟩, rfl⟩
      have ended : s.next_payload.getD 0 = 0 := type
      simp [quickModeTurn, typeTurn, ended]
  | cons p ps ih =>
      obtain ⟨whole, inner⟩ := aligned
      have here : 4 ∣ p.octets.length ∨ ps.flatMap Payload.octets = [] := by
        cases ps with
        | nil => exact .inr rfl
        | cons _ _ => exact .inl (whole p (by simp))
      have behind : Aligned ps := by
        refine ⟨fun q mem => ?_, fun q mem => inner q (by simp [mem])⟩
        cases ps with
        | nil => cases mem
        | cons _ _ => exact whole q (by simp [mem])
      obtain ⟨decode, x, known, gives, left, next, content⟩ :=
        decode_payload p _ (fits p (by simp)) (inner p (by simp)) here
      have nonempty : (p :: ps).flatMap Payload.octets ≠ [] := by
        intro empty
        have long := p.long
        rw [List.flatMap_cons, List.append_eq_nil_iff] at empty
        rw [empty.1] at long
        cases long
      have start := eq_some_of_octets octets nonempty
      rw [List.flatMap_cons] at start
      let t : PayloadsState QuickModePayload :=
        ⟨x.common.remain, x.common.nextPayload, s.payloads ++ [x]⟩
      have leads : Leads quickModeTurn s t := by
        apply leads_typeTurn.mpr
        rw [type, start]
        exact ⟨p.body.type_ne_zero, decode, known, x, gives, rfl⟩
      obtain ⟨decoded, rest, contents⟩ := ih (fun q mem => fits q (by simp [mem])) linked.2 behind
        (s := t) left (by rw [← linked.1, show t.next_payload = _ from next]; rfl)
      refine ⟨x :: decoded, run_next quickModeTurn_grows leads ?_, by simp [content, contents]⟩
      rwa [List.append_cons]

/-- Where the parts end at multiples of four octets, this is what comes back. -/
theorem decode_encode (ps : List Payload) (fits : Fits ps) (linked : Linked ps)
    (aligned : Aligned ps) :
    ∃ decoded, Gives (fun fuel data => decode_ISAKMP_Payload fuel data (some (firstType ps)))
        (some (ps.flatMap Payload.octets)) (.ok decoded) ∧
      decoded.map (fun payload => payload.body.content) = ps.map fun p => p.body.decoded :=
  run_octets ps fits linked aligned (s := ⟨_, some (firstType ps), []⟩) rfl rfl

end Payloads

/-! ## Which of them come back as they were -/

/-- A long value goes on with its length wherever it begins with it. -/
def Attribute.Kept : Attribute → Prop
  | .short .. => True
  | .long _ value => (packInt 2 value.length ++ value).take value.length = value

instance : DecidablePred Attribute.Kept
  | .short .. => inferInstanceAs (Decidable True)
  | .long _ value =>
      inferInstanceAs (Decidable ((packInt 2 value.length ++ value).take value.length = value))

def Transform.Kept (t : Transform) : Prop := ∀ a ∈ t.attributes, a.Kept

instance : DecidablePred Transform.Kept :=
  fun t => inferInstanceAs (Decidable (∀ a ∈ t.attributes, a.Kept))

def Proposal.Kept (p : Proposal) : Prop := ∀ t ∈ p.transforms, t.Kept

instance : DecidablePred Proposal.Kept :=
  fun p => inferInstanceAs (Decidable (∀ t ∈ p.transforms, t.Kept))

/-- A group is one proposal, and a deletion has one SPI at most. -/
def Body.Kept : Body → Prop
  | .SA _ _ groups => ∀ g ∈ groups, g.others = [] ∧ g.head.Kept
  | .Delete _ _ _ spis => spis.length ≤ 1
  | _ => True

instance : DecidablePred Body.Kept
  | .SA _ _ groups => inferInstanceAs (Decidable (∀ g ∈ groups, g.others = [] ∧ g.head.Kept))
  | .Delete _ _ _ spis => inferInstanceAs (Decidable (spis.length ≤ 1))
  | .KE _ | .Nonce _ | .Notification .. => inferInstanceAs (Decidable True)

def Kept (ps : List Payload) : Prop := ∀ p ∈ ps, p.body.Kept

instance : DecidablePred Kept := fun ps => inferInstanceAs (Decidable (∀ p ∈ ps, p.body.Kept))

theorem Attribute.decoded_eq_iff (a : Attribute) : a.decoded = a.content ↔ a.Kept := by
  cases a <;> simp [Attribute.decoded, Attribute.content, Attribute.Kept]

theorem Transform.decoded_eq_iff (t : Transform) : t.decoded = t.content ↔ t.Kept := by
  simp [Transform.decoded, Transform.content, Transform.Kept, Attribute.decoded_eq_iff]

theorem Proposal.decoded_eq_iff (p : Proposal) : p.decoded = p.content ↔ p.Kept := by
  simp [Proposal.decoded, Proposal.content, Proposal.Kept, Transform.decoded_eq_iff]

/-- The proposals of the first group come back apart, unless there is one only. -/
theorem groups_eq_iff (groups : List Group) :
    ((groups.flatMap Group.proposals).map fun p => [p.decoded]) =
        (groups.map fun g => g.proposals.map Proposal.content) ↔
      ∀ g ∈ groups, g.others = [] ∧ g.head.Kept := by
  induction groups with
  | nil => simp
  | cons g groups ih =>
      rw [List.forall_mem_cons, ← ih]
      obtain ⟨head, others⟩ := g
      cases others with
      | nil => simp [Group.proposals, head.decoded_eq_iff]
      | cons p others => simp [Group.proposals]

theorem spis_eq_iff (spis : List UInt32) :
    (spis.getLast?.toList.map fun spi => sprintf08x (some spi.toNat)) =
        (spis.map fun spi => sprintf08x (some spi.toNat)) ↔
      spis.length ≤ 1 := by
  match spis with
  | [] => simp
  | [_] => simp
  | first :: second :: spis =>
      have others : ¬ (first :: second :: spis).length ≤ 1 := by simp
      refine iff_of_false (fun same => ?_) others
      have lengths := congrArg List.length same
      rw [List.length_map, List.length_map, List.getLast?_cons_cons] at lengths
      have one : (second :: spis).getLast?.toList.length ≤ 1 := by
        cases (second :: spis).getLast? <;> simp
      exact others (lengths ▸ one)

theorem Body.decoded_eq_iff (body : Body) : body.decoded = body.content ↔ body.Kept := by
  cases body with
  | SA doi situation groups =>
      simp only [Body.decoded, Body.content, Content.SA.injEq, Body.Kept]
      exact groups_eq_iff groups
  | Delete doi protocolId numOfSpis spis =>
      simp only [Body.decoded, Body.content, Content.Delete.injEq, Body.Kept]
      exact spis_eq_iff spis
  | KE | Nonce | Notification => simp [Body.decoded, Body.content, Body.Kept]

section

variable (ps : List Payload) (fits : Fits ps) (linked : Linked ps) (aligned : Aligned ps)
include fits linked aligned

/-- The payloads round trip when what comes back is what had to. -/
theorem roundTrips_iff_contents :
    RoundTrips ps ↔ (ps.map fun p => p.body.decoded) = ps.map fun p => p.body.content := by
  obtain ⟨decoded, gives, contents⟩ := decode_encode ps fits linked aligned
  have encoded := encode_ISAKMP_Payload_define ps
  constructor
  · rintro ⟨octets, decoded', encoded', gives', contents'⟩
    rw [encoded] at encoded'
    cases encoded'
    have same := gives'.unique (decode_ISAKMP_Payload_grows _) gives
    cases same
    rw [← contents, contents']
  · intro same
    exact ⟨_, decoded, encoded, gives, contents.trans same⟩

theorem roundTrips_iff_kept : RoundTrips ps ↔ Kept ps := by
  rw [roundTrips_iff_contents ps fits linked aligned, List.map_inj_left]
  simp only [Body.decoded_eq_iff, Kept]

end

/-- Behind a key exchange of five octets the decoder starts inside the nonce. -/
example :
    let ps : List Payload := [⟨10, 0, .KE [1, 2, 3, 4, 5]⟩, ⟨0, 0, .Nonce [6, 7, 8, 9]⟩]
    decode_ISAKMP_Payload 3 (some (ps.flatMap Payload.octets)) (some (firstType ps)) =
      some (.error (.unknownNextPayload "kDecKINK_ISAKMP_Payload" 8)) := by
  decide

/-- An association, whose transform ends at a multiple of four octets, and a deletion behind it. -/
def association : List Payload :=
  let transform : Transform := ⟨0, 0, 1, 12, 0, [.short true 1 1, .long 2 [0, 4, 0, 4]]⟩
  let proposal : Proposal := ⟨0, 0, 1, 3, 1, 0x1234, [transform]⟩
  [⟨10, 0, .SA 1 1 [⟨proposal, []⟩]⟩, ⟨12, 0, .Nonce [1, 2, 3, 4]⟩, ⟨0, 0, .Delete 1 3 1 [0x1234]⟩]

theorem association_roundTrips : RoundTrips association := by
  have linked : Linked association := by simp [association, Linked, firstType, Body.type]
  have kept : Kept association := by decide
  exact (roundTrips_iff_kept association (by decide) linked (by decide)).mpr kept

/-- A choice between two proposals comes back as two groups. -/
theorem choice_not_roundTrips : ¬ ∀ ps, Fits ps → Linked ps → RoundTrips ps := by
  intro all
  let proposal (next protocolId : UInt8) : Proposal := ⟨next, 0, 1, protocolId, 0, 7, []⟩
  let ps : List Payload := [⟨0, 0, .SA 1 1 [⟨proposal 2 3, [proposal 0 2]⟩]⟩]
  have fits : Fits ps := by decide
  have linked : Linked ps := by simp [ps, Linked, firstType]
  have contents := (roundTrips_iff_contents ps fits linked (by decide)).mp (all ps fits linked)
  simp [ps, Body.decoded, Body.content, Group.proposals] at contents

end Quick

end Tahi.Kink

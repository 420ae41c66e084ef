import Tahi.Ike.SAAttributes

/-! # Security association payloads that are built and parsed again

The parser follows the marks that the builder has set from the end, through the proposals and
through the transforms of each.
-/

namespace Tahi.Ike

open Perl

/-! ## Decoding proposals and transforms -/

section Decode

open Given

/-- The header of a transform, as far as its numbers fit. -/
theorem kDecSATransform_header (t : Given.Transform) (more : Bool) (behind : List UInt8) :
    let data := pack (t.header more) ++ behind
    let transformLen : ℕ := (t.attributesLen + 8) % 256 ^ 2
    kDecSATransform (some data) =
      { type := some (kTransformType (.num (t.number % 256)))
        id := kTransformTypeID (.num (t.number % 256)) (.num (t.packed % 256 ^ 2))
        attributes := substr (some data) 8 (some (transformLen - 8))
        attributesLen := transformLen - 8
        transformLen := some transformLen
        nexttype := some (if more then 3 else 0)
        nextdata := substr (some data) transformLen none
        reserved1 := some 0
        reserved2 := some 0 } := by
  intro data transformLen
  have eight : (pack (t.header more)).length = 8 := length_pack _
  have header : substr (some data) 0 (some 8) = some (pack (t.header more)) := by
    have first := substr_first (some data) 8
    rwa [Str.octets_some, List.take_left' eight] at first
  have marked : (if more then 3 else 0) % 256 = if more then 3 else 0 := by
    cases more <;> rfl
  have items : unpack [.int 1, .int 1, .int 2, .int 1, .int 1, .int 2] (pack (t.header more)) =
      [.num (if more then 3 else 0), .num 0, .num transformLen, .num (t.number % 256), .num 0,
        .num (t.packed % 256 ^ 2)] := by
    have unpacked := unpack_pack_mod (t.header more) []
    rw [List.append_nil] at unpacked
    refine unpacked.trans ?_
    simp only [Transform.header, List.map_cons, List.map_nil, pow_one, marked, Nat.zero_mod,
      transformLen]
  simp only [kDecSATransform, header, Str.octets_some, items, List.getElem?_cons_zero,
    List.getElem?_cons_succ, Item.num?, constant, Option.getD_some, Option.map_some,
    Option.bind_eq_bind, Option.bind_some]

/-- The header of a proposal, as far as its numbers fit. -/
theorem kDecSAProposal_header (p : Given.Proposal) (propIndex : ℕ) (more : Bool)
    (behind : List UInt8) :
    let data := pack (p.header propIndex more) ++ behind
    let proposalLen : ℕ := (p.transformsLen + 8 + p.spiOctets.length) % 256 ^ 2
    let spiSize : ℕ := p.spiOctets.length % 256
    let spi := substr (some data) 8 (some spiSize)
    kDecSAProposal (some data) =
      { number := some (p.number.getD (propIndex + 1) % 256)
        id := some (kProtocolID (.num (numberOf kProtocolID p.id % 256)))
        spiSize := some spiSize
        spi := if 0 < spiSize then some ((hex spi.octets).take (spiSize * 2)) else spi.map hex
        transformCount := some (p.transforms.length % 256)
        transforms := substr (some data) (8 + spiSize) (some (proposalLen - 8 - spiSize))
        transformsLen := proposalLen - 8 - spiSize
        proposalLen := some proposalLen
        nexttype := some (if more then 2 else 0)
        nextdata := substr (some data) proposalLen none
        reserved := some 0 } := by
  intro data proposalLen spiSize spi
  have marked : (if more then 2 else 0) % 256 = if more then 2 else 0 := by
    cases more <;> rfl
  have items : unpack [.int 1, .int 1, .int 2, .int 1, .int 1, .int 1, .int 1] data =
      [.num (if more then 2 else 0), .num 0, .num proposalLen,
        .num (p.number.getD (propIndex + 1) % 256), .num (numberOf kProtocolID p.id % 256),
        .num spiSize, .num (p.transforms.length % 256)] := by
    refine (unpack_pack_mod (p.header propIndex more) behind).trans ?_
    simp only [Proposal.header, List.map_cons, List.map_nil, pow_one, marked, Nat.zero_mod,
      proposalLen, spiSize]
  simp only [kDecSAProposal, Str.octets_some, items, List.getElem?_cons_zero,
    List.getElem?_cons_succ, Item.num?, constant, Option.getD_some, Option.map_some, spi]

end Decode

/-! ## Transforms -/

section Transforms

open Given

/-- A turn of the loop over the transforms. -/
def transformTurn (_ : ℕ) (data : Str) : Option (Marked.Turn (SATransform (List SAAttribute)) Str) :=
  let transform := kDecSATransform data
  some ⟨transform.parsed, transform.nexttype.getD 0 != 0, transform.nextdata⟩

theorem parseTransforms_eq (fuel : ℕ) (data : Str) :
    parseTransforms fuel data = Marked.read transformTurn fuel data := by
  induction fuel generalizing data with
  | zero => rfl
  | succ fuel ih =>
      simp only [parseTransforms, Marked.read, transformTurn, ih, bne_iff_ne]

/-- An identifier comes back when the table has the name for the number that was packed. -/
theorem identified_iff (t : Given.Transform) :
    kTransformTypeID (.num t.number) (.num (t.packed % 256 ^ 2)) = some t.called ↔
      ∃ IDs, transformTypesIDs (.num t.number) = some IDs ∧
        match t.id with
        | .num n => (IDs.names n).isSome
        | .name x => ∃ n, IDs.numbers x = some n ∧ IDs.names n = some x := by
  unfold Transform.packed Transform.called
  cases found : transformTypesIDs (.num t.number) with
  | none =>
      have undefined (id : Constant TransformID) :
          kTransformTypeID (.num t.number) id = none := by
        unfold kTransformTypeID
        rw [found]
      simp [undefined]
  | some IDs =>
      obtain ⟨named_small, numbered_small, zero⟩ := transformTypesIDs_bounds found
      have number {n : ℕ} {x : TransformID} (named : IDs.names n = some x) :
          kTransformTypeID (.num t.number) (.num (n % 256 ^ 2)) = some (.name x) := by
        have small := named_small named
        rw [Nat.mod_eq_of_lt (by omega), kTransformTypeID_num found (by omega), named]
        rfl
      simp only [Option.bind_some, Option.some.injEq, exists_eq_left']
      cases t.id with
      | num n =>
          dsimp only
          cases named : IDs.names n with
          | some x => simpa [named] using number named
          | none =>
              refine iff_of_false (fun same => ?_) (by simp)
              rw [Option.map_none, Option.getD_none] at same
              by_cases odd : n % 256 ^ 2 = 768
              · -- The number that stands for a group then is not the one that was given.
                simp only [odd, kTransformTypeID, found] at same
                split at same
                · cases Constant.num.inj (Option.some.inj same)
                  cases odd
                · cases same
              · rw [kTransformTypeID_num found odd] at same
                obtain ⟨x, -, other⟩ := Option.map_eq_some_iff.mp same
                cases other
      | name x =>
          dsimp only
          rw [kTransformTypeID_name found]
          cases numbered : IDs.numbers x with
          | some n =>
              constructor
              · intro same
                refine ⟨n, rfl, ?_⟩
                have small := numbered_small numbered
                have packed : packedID (some (.num n)) % 256 ^ 2 = n := Nat.mod_eq_of_lt (by
                  show n < 256 ^ 2
                  omega)
                rw [Option.map_some, packed, kTransformTypeID_num found (by omega)] at same
                obtain ⟨y, named, other⟩ := Option.map_eq_some_iff.mp same
                cases other
                exact named
              · rintro ⟨m, same, named⟩
                cases same
                exact number named
          | none =>
              refine iff_of_false (fun same => ?_) (by simp)
              rw [Option.map_none, show packedID none % 256 ^ 2 = 0 from rfl,
                kTransformTypeID_num found (by decide)] at same
              obtain ⟨y, named, other⟩ := Option.map_eq_some_iff.mp same
              cases other
              cases numbered.symm.trans (zero named)

/-- A transform whose length fits is read with its attributes and leaves what is behind it. -/
theorem kDecSATransform_element (t : Given.Transform) (more : Bool) (rest : List UInt8)
    (fits : t.attributesLen + 8 < 256 ^ 2) :
    kDecSATransform (some (t.element more ++ rest)) =
      { type := some (kTransformType (.num (t.number % 256)))
        id := kTransformTypeID (.num (t.number % 256)) (.num (t.packed % 256 ^ 2))
        attributes := some t.attributeOctets
        attributesLen := t.attributesLen
        transformLen := some (t.attributesLen + 8)
        nexttype := some (if more then 3 else 0)
        nextdata := some rest
        reserved1 := some 0
        reserved2 := some 0 } := by
  have size : (pack (t.header more)).length = 8 := length_pack _
  have length := attributesLen_eq t
  have attributes : substr (some (pack (t.header more) ++ (t.attributeOctets ++ rest))) 8
      (some t.attributesLen) = some t.attributeOctets := by
    have middle := substr_middle (pack (t.header more)) (t.attributeOctets ++ rest)
      t.attributesLen
    rwa [size, length, List.take_left, ← length] at middle
  have behind : substr (some (pack (t.header more) ++ (t.attributeOctets ++ rest)))
      (t.attributesLen + 8 : ℕ) none = some rest := by
    have behind := substr_behind (pack (t.header more) ++ t.attributeOctets) rest
    rwa [List.length_append, size, List.append_assoc, Nat.add_comm, ← length] at behind
  have less : ((t.attributesLen + 8 : ℕ) : ℤ) - 8 = t.attributesLen := by omega
  rw [Transform.element, List.append_assoc, kDecSATransform_header]
  simp only [Nat.mod_eq_of_lt fits, less, attributes, behind]

/-- What the loop does with a transform: its record comes back just when it is kept and its
    length fits. -/
theorem transform_reads : Marked.Reads transformTurn some Transform.element Transform.same
    fun t => t.Kept ∧ t.attributesLen + 8 < 256 ^ 2 where
  good_of_turn := by
    intro fuel t more rest turn taken record
    cases taken
    have length := congrArg SATransform.transformLen record
    have type := congrArg SATransform.type record
    have id := congrArg SATransform.id record
    have attributes := congrArg SATransform.attributes record
    have fits : t.attributesLen + 8 < 256 ^ 2 := by
      simp only [SATransform.parsed, Transform.element, List.append_assoc,
        kDecSATransform_header, Transform.same, Option.some.injEq] at length
      rw [← length]
      exact Nat.mod_lt _ (by decide)
    simp only [SATransform.parsed, kDecSATransform_element t more rest fits, Transform.same,
      Option.some.injEq] at type id attributes
    have number := kTransformType_injective type
    rw [number] at id
    refine ⟨⟨⟨(identified_iff t).mp id, ?_⟩, fits⟩, ?_, ?_⟩
    · exact (kept_of_parsed t.attributes 0 (Nat.zero_le _) attributes).2
    · rw [kDecSATransform_element t more rest fits]
      cases more <;> rfl
    · rw [kDecSATransform_element t more rest fits]
  turn_of_good := by
    intro t good
    obtain ⟨kept, fits⟩ := good
    obtain ⟨IDs, found, -⟩ := kept.identified
    have number : t.number % 256 = t.number := Nat.mod_eq_of_lt (transformTypesIDs_lt found)
    have id := (identified_iff t).mpr kept.identified
    have attributes : parseAttributes (some t.attributeOctets) = t.attributes.map Attribute.same := by
      apply parsed_of_kept _ kept.attributes
      rw [attributesLen_eq, Transform.attributeOctets] at fits
      omega
    refine ⟨0, fun fuel _ more rest => ?_⟩
    simp only [transformTurn, kDecSATransform_element t more rest fits, SATransform.parsed, number,
      id, attributes, Transform.same]
    cases more <;> rfl

end Transforms

/-! ## Proposals -/

section Proposals

open Given

/-- A turn of the loop over the proposals. -/
def proposalTurn (fuel : ℕ) (data : Str) : Option (Marked.Turn Ike.Proposal Str) :=
  let proposal := kDecSAProposal data
  let transList :=
    if 0 < proposal.transformCount.getD 0 then parseTransforms fuel proposal.transforms
    else some []
  transList.map fun transList =>
    ⟨proposal.parsed transList, proposal.nexttype.getD 0 != 0, proposal.nextdata⟩

theorem parseProposals_eq (fuel : ℕ) (data : Str) :
    parseProposals fuel data = Marked.read proposalTurn fuel data := by
  induction fuel generalizing data with
  | zero => rfl
  | succ fuel ih =>
      simp only [parseProposals, Marked.read, proposalTurn, ih]
      split
      next none_ => rw [none_]; rfl
      next some_ => rw [some_]; simp only [Option.map_some, bne_iff_ne]

theorem kDecSAProposal_element (p : Given.Proposal) (propIndex : ℕ) (more : Bool)
    (rest : List UInt8) (spi : p.spiOctets.length < 256)
    (fits : p.transformsLen + 8 + p.spiOctets.length < 256 ^ 2) :
    kDecSAProposal (some (p.element propIndex more ++ rest)) =
      { number := some (p.number.getD (propIndex + 1) % 256)
        id := some (kProtocolID (.num (numberOf kProtocolID p.id % 256)))
        spiSize := some p.spiOctets.length
        spi := some (hex p.spiOctets)
        transformCount := some (p.transforms.length % 256)
        transforms := some (buildTransforms p.transforms)
        transformsLen := p.transformsLen
        proposalLen := some (p.transformsLen + 8 + p.spiOctets.length)
        nexttype := some (if more then 2 else 0)
        nextdata := some rest
        reserved := some 0 } := by
  have size : (pack (p.header propIndex more)).length = 8 := length_pack _
  have before : (pack (p.header propIndex more) ++ p.spiOctets).length =
      8 + p.spiOctets.length := by
    rw [List.length_append, size]
  have all : (pack (p.header propIndex more) ++ p.spiOctets ++ buildTransforms p.transforms).length =
      p.transformsLen + 8 + p.spiOctets.length := by
    rw [List.length_append, before, Proposal.transformsLen]
    omega
  let data := pack (p.header propIndex more) ++
    (p.spiOctets ++ (buildTransforms p.transforms ++ rest))
  have whole : p.element propIndex more ++ rest = data := by
    simp only [Proposal.element, List.append_assoc, data]
  have first : substr (some data) 8 (some p.spiOctets.length) = some p.spiOctets := by
    have middle := substr_middle (pack (p.header propIndex more))
      (p.spiOctets ++ (buildTransforms p.transforms ++ rest)) p.spiOctets.length
    rwa [size, List.take_left] at middle
  have second : substr (some data) (8 + p.spiOctets.length : ℕ) (some p.transformsLen) =
      some (buildTransforms p.transforms) := by
    have middle := substr_middle (pack (p.header propIndex more) ++ p.spiOctets)
      (buildTransforms p.transforms ++ rest) p.transformsLen
    rwa [before, Proposal.transformsLen, List.take_left, List.append_assoc] at middle
  have behind : substr (some data) (p.transformsLen + 8 + p.spiOctets.length : ℕ) none =
      some rest := by
    have behind := substr_behind
      (pack (p.header propIndex more) ++ p.spiOctets ++ buildTransforms p.transforms) rest
    rwa [all, List.append_assoc, List.append_assoc] at behind
  have less : ((p.transformsLen + 8 + p.spiOctets.length : ℕ) : ℤ) - 8 - p.spiOctets.length =
      p.transformsLen := by
    omega
  have digits : (if 0 < p.spiOctets.length then
      some ((hex p.spiOctets).take (p.spiOctets.length * 2)) else some (hex p.spiOctets)) =
      some (hex p.spiOctets) := by
    rw [List.take_of_length_le (by rw [length_hex]; omega), ite_self]
  rw [whole, kDecSAProposal_header]
  rw [Nat.cast_add, Nat.cast_ofNat] at second
  simp only [Nat.mod_eq_of_lt fits, Nat.mod_eq_of_lt spi, less, data] at first second behind ⊢
  simp only [first, second, behind, Str.octets_some, Option.map_some, digits]

theorem proposal_reads : Marked.Reads proposalTurn some
    (fun p : Given.Proposal × ℕ => p.1.element p.2) (fun p => p.1.same p.2)
    fun p => p.1.Kept p.2 ∧ p.1.transformsLen + 8 + p.1.spiOctets.length < 256 ^ 2 where
  good_of_turn := by
    intro fuel p more rest turn taken record
    obtain ⟨transList, parsed, rfl⟩ := Option.map_eq_some_iff.mp taken
    have length := congrArg SAProposal.proposalLen record
    have size := congrArg SAProposal.spiSize record
    have number := congrArg SAProposal.number record
    have id := congrArg SAProposal.id record
    have count := congrArg SAProposal.transformCount record
    have transforms : transList = Marked.map Transform.same p.1.transforms :=
      congrArg SAProposal.transforms record
    simp only [SAProposal.parsed, Proposal.element, List.append_assoc, kDecSAProposal_header,
      Proposal.same, Option.some.injEq] at length size number id count
    have mod_lt {m : ℕ} (n : ℕ) (positive : 0 < m) (same : n % m = n) : n < m :=
      same ▸ Nat.mod_lt n positive
    have fits := mod_lt _ (by decide) length
    have spi := mod_lt _ (by decide) size
    have number := mod_lt _ (by decide) number
    have id := mod_lt _ (by decide) (kProtocolID_injective id)
    have count := mod_lt _ (by decide) count
    have decoded := kDecSAProposal_element p.1 p.2 more rest spi fits
    rw [decoded, transforms, Option.getD_some, Nat.mod_eq_of_lt count] at parsed
    refine ⟨⟨⟨number, id, spi, count, ?_⟩, fits⟩, ?_, ?_⟩
    · intro t mem
      rw [if_pos (List.length_pos_of_mem mem), parseTransforms_eq, buildTransforms_eq] at parsed
      exact (transform_reads.good_of_read parsed t mem).1
    · rw [decoded]
      cases more <;> rfl
    · rw [decoded]
  turn_of_good := by
    intro p good
    obtain ⟨kept, fits⟩ := good
    have transList : ∃ bound, ∀ fuel ≥ bound,
        (if 0 < p.1.transforms.length then
          parseTransforms fuel (some (buildTransforms p.1.transforms)) else some []) =
            some (Marked.map Transform.same p.1.transforms) := by
      by_cases none_ : p.1.transforms = []
      · refine ⟨0, fun fuel _ => ?_⟩
        rw [none_]
        rfl
      · obtain ⟨bound, read_⟩ := transform_reads.read_of_good none_ fun t mem => by
          obtain ⟨more, le⟩ := Marked.length_le_write Transform.element mem
          rw [Transform.element, List.length_append, length_pack, ← buildTransforms_eq,
            ← attributesLen_eq] at le
          have eight : ((t.header more).map Prod.fst).sum = 8 := rfl
          refine ⟨kept.transforms t mem, ?_⟩
          unfold Proposal.transformsLen at fits
          omega
        refine ⟨bound, fun fuel enough => ?_⟩
        rw [if_pos (List.length_pos_iff.mpr none_), parseTransforms_eq, buildTransforms_eq]
        exact read_ fuel enough
    obtain ⟨bound, read_⟩ := transList
    refine ⟨bound, fun fuel enough more rest => ?_⟩
    simp only [proposalTurn, kDecSAProposal_element p.1 p.2 more rest kept.spi fits,
      Option.getD_some, Nat.mod_eq_of_lt kept.count, read_ fuel enough, Option.map_some,
      SAProposal.parsed, Nat.mod_eq_of_lt kept.number, Nat.mod_eq_of_lt kept.id, Proposal.same]
    cases more <;> rfl

end Proposals

/-! ## The payload -/

section Payload

open Given

variable (ps : List Given.Proposal) (paytype : Option (Constant PayloadType)) (paydata : Str)

/-- The length that the header has, as far as it fits, and what is read for it. -/
theorem kDecGenericPayloadHeader_built :
    let info := kDecGenericPayloadHeader
      (some (kBuildSecurityAssociationPayload ps paytype paydata).1)
    info.paylen = ((((buildProposals ps.zipIdx).length + 4) % 256 ^ 2 : ℕ) : ℤ) - 4 ∧
      ((buildProposals ps.zipIdx).length + 4 < 256 ^ 2 →
        info.payload = some (buildProposals ps.zipIdx)) := by
  let header := [(1, (paytype.map (numberOf kPayloadType)).getD 0), (1, 0),
    (2, (buildProposals ps.zipIdx).length + 4)]
  have built : (kBuildSecurityAssociationPayload ps paytype paydata).1 =
      pack header ++ (buildProposals ps.zipIdx ++ paydata.orEmpty) := List.append_assoc _ _ _
  have size : (pack header).length = 4 := length_pack _
  have first : substr (some (pack header ++ (buildProposals ps.zipIdx ++ paydata.orEmpty))) 0
      (some 4) = some (pack header) := by
    have first := substr_first (some (pack header ++
      (buildProposals ps.zipIdx ++ paydata.orEmpty))) 4
    rwa [Str.octets_some, List.take_left' size] at first
  have items : (unpack [.int 1, .int 1, .int 2] (pack header))[2]? =
      some (.num (((buildProposals ps.zipIdx).length + 4) % 256 ^ 2)) := by
    have unpacked := unpack_pack_mod header []
    rw [List.append_nil] at unpacked
    exact congrArg (·[2]?) unpacked
  have middle := substr_middle (pack header) (buildProposals ps.zipIdx ++ paydata.orEmpty)
    (buildProposals ps.zipIdx).length
  rw [size, List.take_left] at middle
  rw [built]
  simp only [kDecGenericPayloadHeader, first, Str.octets_some, items, Item.num?, Option.getD_some]
  refine ⟨trivial, fun fits => ?_⟩
  have less : (((buildProposals ps.zipIdx).length + 4 : ℕ) : ℤ) - 4 =
      (buildProposals ps.zipIdx).length := by
    omega
  rw [Nat.mod_eq_of_lt fits, less]
  exact middle

namespace Given

/-- The octets of transforms and proposals that are kept. -/
theorem length_of_kept (kept : ∀ p ∈ ps.zipIdx, p.1.Kept p.2) :
    (buildProposals ps.zipIdx).length = (ps.map Proposal.size).sum := by
  have transform (p : Proposal) (keeps : ∀ t ∈ p.transforms, t.Kept) :
      p.transformsLen = (p.transforms.map Transform.size).sum := by
    rw [Proposal.transformsLen, buildTransforms_eq]
    refine Marked.length_write fun t mem more => ?_
    have size := attributesLen_of_kept (keeps t mem).attributes
    rw [attributesLen_eq] at size
    rw [Transform.element, List.length_append, length_pack, ← size, Nat.add_comm]
    rfl
  have sizes : (buildProposals ps.zipIdx).length =
      (ps.zipIdx.map fun p => p.1.size).sum := by
    rw [buildProposals_eq]
    refine Marked.length_write fun p mem more => ?_
    have inside := transform p.1 (kept p mem).transforms
    rw [Proposal.transformsLen] at inside
    rw [Proposal.element, List.length_append, List.length_append, length_pack, inside,
      Proposal.size, ← Nat.add_assoc]
    rfl
  have same : (ps.zipIdx.map fun p => p.1.size) = ps.map Proposal.size := by
    conv_rhs => rw [← List.zipIdx_map_fst 0 ps, List.map_map]
    rfl
  rw [sizes, same]

variable {ps paytype paydata}

theorem kept_of_parsesBack (comesBack : ParsesBack ps paytype paydata) : Kept ps := by
  obtain ⟨length, inside⟩ := kDecGenericPayloadHeader_built ps paytype paydata
  obtain ⟨fuel, payload, parsed, returned, body, same⟩ := comesBack
  unfold kParseSecurityAssociationPayload at returned
  dsimp only at returned
  split at returned
  · cases returned
    simp only [Body.SA.injEq] at body
    obtain ⟨-, rfl⟩ := body
    have none_ : ps.zipIdx = [] := by
      cases built : ps.zipIdx with
      | nil => rfl
      | cons p qs => cases built ▸ same
    have empty : ps = [] := List.zipIdx_eq_nil_iff.mp none_
    exact ⟨by rw [empty]; decide, by simp [none_]⟩
  · obtain ⟨propList, read_, rfl⟩ := Option.map_eq_some_iff.mp returned
    simp only [Body.SA.injEq] at body
    obtain ⟨said, rfl⟩ := body
    have fits : (buildProposals ps.zipIdx).length + 4 < 256 ^ 2 := by
      have bound := Nat.mod_lt ((buildProposals ps.zipIdx).length + 4)
        (show 0 < 256 ^ 2 by decide)
      omega
    rw [inside fits, parseProposals_eq, buildProposals_eq, show propList = _ from same] at read_
    have kept : ∀ p ∈ ps.zipIdx, p.1.Kept p.2 := fun p mem =>
      (proposal_reads.good_of_read read_ p mem).1
    rw [length_of_kept ps kept, Nat.add_comm] at fits
    exact ⟨fits, kept⟩

variable (paytype paydata)

theorem parsesBack_of_kept (kept : Kept ps) : ParsesBack ps paytype paydata := by
  obtain ⟨length, inside⟩ := kDecGenericPayloadHeader_built ps paytype paydata
  have fits : (buildProposals ps.zipIdx).length + 4 < 256 ^ 2 := by
    rw [length_of_kept ps kept.proposals, Nat.add_comm]
    exact kept.fits
  have paylen : (kDecGenericPayloadHeader
      (some (kBuildSecurityAssociationPayload ps paytype paydata).1)).paylen =
      (buildProposals ps.zipIdx).length := by
    rw [length, Nat.mod_eq_of_lt fits]
    omega
  by_cases none_ : ps.zipIdx = []
  · refine ⟨0, _, none, if_pos ?_, ?_, ?_⟩
    · rw [paylen, none_]
      decide
    · rw [paylen]
    · rw [none_]
      rfl
  · have long := Marked.le_length_write eight_le_proposal none_
    rw [← buildProposals_eq] at long
    obtain ⟨bound, read_⟩ := proposal_reads.read_of_good none_ fun p mem => by
      obtain ⟨more, le⟩ := Marked.length_le_write
        (fun p : Given.Proposal × ℕ => p.1.element p.2) mem
      rw [← buildProposals_eq] at le
      simp only [Proposal.element, List.length_append, length_pack] at le
      have eight : ((p.1.header p.2 more).map Prod.fst).sum = 8 := rfl
      refine ⟨kept.proposals p mem, ?_⟩
      unfold Proposal.transformsLen
      omega
    have returned := read_ bound (Nat.le_refl bound)
    rw [← parseProposals_eq, ← buildProposals_eq, ← inside fits] at returned
    refine ⟨bound, _, some _, (if_neg ?_).trans (congrArg _ returned), ?_, rfl⟩
    · rw [paylen]
      omega
    · rw [paylen]

variable (ps)

/-- The proposals come back just when each of them is kept and the length fits. -/
theorem parsesBack_iff : ParsesBack ps paytype paydata ↔ Kept ps :=
  ⟨kept_of_parsesBack, parsesBack_of_kept paytype paydata⟩

/-- A cipher with the length of its key, which has two octets. -/
def aes128 : Proposal where
  id := .name .IKE
  transforms := [⟨.name .ENCR, .name .AES_CBC,
    [⟨.name .«Key Length», .fixed ⟨[0x30, 0x30, 0x38, 0x30], rfl, by decide +kernel⟩⟩]⟩]

/-- The number of the attribute is in the place of its value, and there is no bit for its form. -/
theorem not_parsesBack :
    (kBuildSecurityAssociationPayload [aes128] none none).1 =
        [0, 0, 0, 24, 0, 0, 0, 20, 1, 1, 0, 1, 0, 0, 0, 12, 1, 0, 0, 12, 0, 14, 0x14, 0] ∧
      ¬ ParsesBack [aes128] none none := by
  refine ⟨by decide +kernel, fun comesBack => ?_⟩
  have proposal := (kept_of_parsesBack comesBack).proposals (aes128, 0) List.mem_cons_self
  have transform := proposal.transforms _ List.mem_cons_self
  exact transform.attributes _ List.mem_cons_self

end Given

end Payload

end Tahi.Ike
